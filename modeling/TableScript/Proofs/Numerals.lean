import TableScript.Number.Reading
import TableScript.Number.Written
import TableScript.Proofs.ShortestDecimal
import TableScript.Proofs.Spelling
import TableScript.Value.Key

/-!
The text of a finite number reads back. A number is written in positional notation, as the shortest
decimal that rounds to it or as the whole number that it is, and reading rounds that decimal.
-/

namespace TableScript

open Spelling

namespace Number

theorem digitsValue_eq (digits : List Char) : digitsValue digits = Nat.ofDigitChars 10 digits 0 :=
  rfl

/-- A text in positional notation: its digits as one number, and how many of them stand after the
point. -/
inductive Positional : List Char → Nat → Nat → Prop where
  | whole {digits : List Char} (hdigits : Digits digits) :
      Positional digits (digitsValue digits) 0
  | point {whole fraction : List Char} (hwhole : Digits whole) (hfraction : Digits fraction) :
      Positional (whole ++ '.' :: fraction) (digitsValue (whole ++ fraction)) fraction.length

theorem takeDigits_append {digits rest : List Char} (hdigits : ∀ c ∈ digits, c.isDigit)
    (hclear : Clear Char.isDigit rest) : takeDigits (digits ++ rest) = (digits, rest) := by
  rw [takeDigits, takeWhile_append_clear hdigits hclear, List.dropWhile_append_of_pos hdigits]
  congr 1
  cases rest with
  | nil => rfl
  | cons c rest => rw [List.dropWhile_cons_of_neg (by rw [clear_cons.1 hclear]; decide)]

theorem takeDigits_eq {digits : List Char} (hdigits : ∀ c ∈ digits, c.isDigit) :
    takeDigits digits = (digits, []) := by
  have htake : takeDigits (digits ++ []) = (digits, []) :=
    takeDigits_append hdigits fun c hc => by cases hc
  rwa [List.append_nil] at htake

variable {cs : List Char} {digits places : Nat}

theorem Positional.numeral (h : Positional cs digits places) : Numeral cs := by
  cases h with
  | whole hdigits =>
      have hnumeral := Numeral.mk hdigits .none .none
      rwa [List.append_nil, List.append_nil] at hnumeral
  | point hwhole hfraction =>
      have hnumeral := Numeral.mk hwhole (.some hfraction) .none
      rwa [List.append_nil] at hnumeral

theorem Positional.ofDigits? (h : Positional cs digits places) :
    Number.ofDigits? cs = some (ofDecimal digits (-places)) := by
  cases h with
  | whole hdigits =>
      rw [Number.ofDigits?, takeDigits_eq hdigits.2]
      simp [takeFraction, hdigits.1, exponent?]
  | point hwhole hfraction =>
      rw [Number.ofDigits?, takeDigits_append hwhole.2 (clear_cons.2 rfl)]
      simp [takeFraction, takeDigits_eq hfraction.2, hwhole.1, exponent?]

theorem takeSign_digit {c : Char} (hdigit : c.isDigit) (cs : List Char) :
    takeSign (c :: cs) = (false, c :: cs) := by
  have hminus : c ≠ '-' := by rintro rfl; cases hdigit
  have hplus : c ≠ '+' := by rintro rfl; cases hdigit
  simp [takeSign, hminus, hplus]

theorem ofName?_digit {c : Char} (hdigit : c.isDigit) (cs : List Char) : ofName? (c :: cs) = none := by
  have hlower : c.toLower = c := by
    have hbounds : 48 ≤ c.toNat ∧ c.toNat ≤ 57 := by
      simpa [Char.isDigit, UInt32.le_iff_toNat_le] using hdigit
    apply dif_neg
    rintro ⟨hlow, -⟩
    have hlow' : 65 ≤ c.toNat := by simpa [UInt32.le_iff_toNat_le] using hlow
    omega
  have hname : ∀ name : String, name.toList.head? ≠ some c →
      String.ofList ((c :: cs).map Char.toLower) ≠ name := by
    intro name hhead heq
    apply hhead
    rw [← heq, String.toList_ofList, List.map_cons, hlower]
    rfl
  have hfirst : ∀ letter : Char, letter.isDigit = false → some letter ≠ some c := by
    rintro letter hletter heq
    rw [Option.some.inj heq, hdigit] at hletter
    cases hletter
  rw [ofName?, if_neg, if_neg (hname "nan" (hfirst 'n' rfl))]
  rintro (heq | heq)
  · exact hname "inf" (hfirst 'i' rfl) heq
  · exact hname "infinity" (hfirst 'i' rfl) heq

theorem Positional.ofText? (h : Positional cs digits places) :
    Number.ofText? (String.ofList cs) = some (ofDecimal digits (-places)) := by
  have hread := h.ofDigits?
  have hnumeral := h.numeral
  cases cs with
  | nil => cases hread
  | cons c cs =>
      have hdigit := hnumeral.isDigit_head
      rw [Number.ofText?, String.toList_ofList, takeSign_digit hdigit]
      simp only [ofName?_digit hdigit, hread]
      rfl

theorem toList_toString (n : Nat) : (toString n).toList = Nat.toDigits 10 n := by
  rw [Nat.toString_eq_repr, Nat.toList_repr]

theorem digits_toDigits (n : Nat) : Digits (Nat.toDigits 10 n) :=
  ⟨Nat.toDigits_ne_nil, fun _ hc => Nat.isDigit_of_mem_toDigits (by decide) (by decide) hc⟩

theorem positional_toString (n : Nat) : Positional (toString n).toList n 0 := by
  have hwhole := Positional.whole (digits_toDigits n)
  rwa [digitsValue_eq, Nat.ofDigitChars_ten_toDigits, ← toList_toString] at hwhole

theorem isDigit_zeros (count : Nat) : ∀ c ∈ List.replicate count '0', c.isDigit := by
  intro c hc
  rw [List.eq_of_mem_replicate hc]
  rfl

/-- A point before the last of a row of digits. -/
theorem positional_split {row : List Char} {places : Nat} (hrow : ∀ c ∈ row, c.isDigit)
    (hpos : 0 < places) (hlt : places < row.length) :
    Positional (row.take (row.length - places) ++ '.' :: row.drop (row.length - places))
      (digitsValue row) places := by
  have hfraction : (row.drop (row.length - places)).length = places := by
    rw [List.length_drop]
    omega
  have hwhole : Digits (row.take (row.length - places)) := by
    constructor
    · apply List.ne_nil_of_length_pos
      rw [List.length_take]
      omega
    · intro c hc
      exact hrow c (List.mem_of_mem_take hc)
  have hdigits : Digits (row.drop (row.length - places)) := by
    constructor
    · apply List.ne_nil_of_length_pos
      omega
    · intro c hc
      exact hrow c (List.mem_of_mem_drop hc)
  have hpoint := Positional.point hwhole hdigits
  rwa [List.take_append_drop, hfraction] at hpoint

end Number

open Number

/-- A decimal is written in positional notation, with the value that it has. -/
theorem Decimal.positional_text (d : Decimal) :
    ∃ digits places, Positional d.text.toList digits places ∧
      (digits * 10 ^ (-places : Int) : ℚ) = d.digits * 10 ^ d.place := by
  obtain ⟨digits, place⟩ := d
  cases place with
  | ofNat zeros =>
      have htext : (Decimal.text ⟨digits, .ofNat zeros⟩).toList =
          Nat.toDigits 10 digits ++ List.replicate zeros '0' := by
        simp only [Decimal.text, String.toList_ofList, toList_toString]
      have hwritten :=
        Positional.whole ((digits_toDigits digits).append (isDigit_zeros zeros))
      rw [digitsValue_eq, Nat.ofDigitChars_append, Nat.ofDigitChars_ten_toDigits,
        Nat.ofDigitChars_replicate_zero, ← htext] at hwritten
      refine ⟨_, _, hwritten, ?_⟩
      simp [mul_comm]
  | negSucc less =>
      generalize hpadded : List.replicate (less + 1 + 1 - (Nat.toDigits 10 digits).length) '0' ++
        Nat.toDigits 10 digits = padded
      have hlength : less + 1 < padded.length := by
        rw [← hpadded, List.length_append, List.length_replicate]
        omega
      have hdigits : ∀ c ∈ padded, c.isDigit := by
        rw [← hpadded]
        intro c hc
        rcases List.mem_append.1 hc with hc | hc
        · exact isDigit_zeros _ c hc
        · exact (digits_toDigits digits).2 c hc
      have hvalue : digitsValue padded = digits := by
        rw [← hpadded, digitsValue_eq, Nat.ofDigitChars_append, Nat.ofDigitChars_replicate_zero,
          Nat.mul_zero, Nat.ofDigitChars_ten_toDigits]
      have htext : (Decimal.text ⟨digits, .negSucc less⟩).toList =
          padded.take (padded.length - (less + 1)) ++
            '.' :: padded.drop (padded.length - (less + 1)) := by
        simp only [Decimal.text, String.toList_ofList, toList_toString, hpadded]
      have hwritten := positional_split hdigits (Nat.succ_pos less) hlength
      rw [hvalue, ← htext] at hwritten
      exact ⟨_, _, hwritten, rfl⟩

namespace Magnitude

variable {m : Magnitude}

theorem rounds_value (m : Magnitude) : m.Rounds (m.units * 2 ^ m.scale) := by
  have hrounds := (rounds_iff one_pos).2 m.attracts_self
  rwa [Nat.cast_one, div_one] at hrounds

theorem ofDecimal_eq {digits : Nat} {place : Int} (hpos : 0 < digits)
    (h : m.Rounds (digits * 10 ^ place)) : ofDecimal digits place = m.toFloat false :=
  ofScientific_toFloat hpos h

/-- The whole number that a double is, if it is one, has the sign and the size of the double. -/
theorem integer?_toFloat {negative : Bool} {n : Int}
    (h : integer? (m.toFloat negative) = some n) :
    ∃ size : Nat, 0 < size ∧ (size : ℚ) = m.units * 2 ^ m.scale ∧
      n = if negative then -(size : Int) else size := by
  rw [integer?, ofFloat_toFloat] at h
  cases hscale : m.scale with
  | ofNat shift =>
      rw [hscale, Parts.integer?] at h
      refine ⟨m.units * 2 ^ shift, Nat.mul_pos m.units_pos (Nat.two_pow_pos shift), ?_,
        (Option.some.inj h).symm⟩
      rw [Int.ofNat_eq_natCast, zpow_natCast]
      push_cast
      rfl
  | negSucc less =>
      rw [hscale, Parts.integer?] at h
      simp only [Nat.pow_eq] at h
      split at h
      next hwhole =>
        have hunits := Nat.mul_div_cancel' (Nat.dvd_of_mod_eq_zero hwhole)
        have hpos := m.units_pos
        refine ⟨m.units / 2 ^ (less + 1), ?_, ?_, (Option.some.inj h).symm⟩
        · apply Nat.pos_of_ne_zero
          intro hzero
          rw [hzero] at hunits
          omega
        · rw [zpow_negSucc, ← div_eq_mul_inv, eq_div_iff (by positivity)]
          rw [mul_comm]
          exact_mod_cast hunits
      next => cases h

end Magnitude

namespace Number

/-- How a number is written: with a minus sign or none, and then with digits that are read as its
size. -/
structure Reads (x : Float) (signed : Bool) (digits : List Char) (size : Float) : Prop where
  text : (text x).toList = if signed then '-' :: digits else digits
  numeral : Numeral digits
  read : ofText? (String.ofList digits) = some size
  same : (x == if signed then -size else size) = true

theorem toList_toString_signed (negative : Bool) {size : Nat} (hpos : 0 < size) :
    (toString (if negative then -(size : Int) else size)).toList =
      if negative then '-' :: (toString size).toList else (toString size).toList := by
  rw [Int.toString_eq_repr, Nat.toString_eq_repr, Int.repr_eq_if]
  cases negative with
  | false => rfl
  | true =>
      simp only [if_true]
      rw [if_neg (by omega), neg_neg, Int.toNat_natCast, String.toList_append]
      rfl

/-- The text of a double is a decimal that rounds to its size. -/
theorem exists_text (m : Magnitude) (negative : Bool) :
    ∃ cs digits places, (text (m.toFloat negative)).toList = (if negative then '-' :: cs else cs) ∧
      Positional cs digits places ∧ 0 < digits ∧ m.Rounds (digits * 10 ^ (-places : Int)) := by
  have hexact : ∃ cs digits places,
      (exactText (m.toFloat negative)).toList = (if negative then '-' :: cs else cs) ∧
      Positional cs digits places ∧ 0 < digits ∧ m.Rounds (digits * 10 ^ (-places : Int)) := by
    obtain ⟨hpos, hrounds⟩ := Shortest.decimal_rounds m
    obtain ⟨digits, places, hwritten, hvalue⟩ := (Shortest.decimal m.units m.scale).positional_text
    refine ⟨_, digits, places, ?_, hwritten, ?_, ?_⟩
    · rw [exactText, Magnitude.ofFloat_toFloat]
      simp only [if_neg (Nat.ne_of_gt m.units_pos)]
      cases negative with
      | false => rfl
      | true =>
          rw [if_pos rfl, if_pos rfl, String.toList_append]
          rfl
    · apply Nat.pos_of_ne_zero
      rintro rfl
      have hdigits : (0 : ℚ) < (Shortest.decimal m.units m.scale).digits := by exact_mod_cast hpos
      have hzero : (0 : ℚ) < 0 := by
        rw [Nat.cast_zero, zero_mul] at hvalue
        nth_rewrite 2 [hvalue]
        positivity
      exact lt_irrefl 0 hzero
    · rwa [hvalue]
  rw [text]
  split
  next n hinteger =>
    split
    next hsmall =>
      obtain ⟨size, hpos, hvalue, hn⟩ := Magnitude.integer?_toFloat hinteger
      refine ⟨_, size, 0, ?_, positional_toString size, hpos, ?_⟩
      · rw [hn]
        exact toList_toString_signed negative hpos
      · rw [Nat.cast_zero, neg_zero, zpow_zero, mul_one, hvalue]
        exact m.rounds_value
    next => exact hexact
  next => exact hexact

theorem reads_magnitude (m : Magnitude) (negative : Bool) :
    ∃ digits, Reads (m.toFloat negative) negative digits (m.toFloat false) := by
  obtain ⟨cs, digits, places, htext, hwritten, hpos, hrounds⟩ := exists_text m negative
  refine ⟨cs, htext, hwritten.numeral, ?_, ?_⟩
  · rw [hwritten.ofText?, Magnitude.ofDecimal_eq hpos hrounds]
  · cases negative with
    | false => exact m.beq_self false
    | true =>
        rw [if_pos rfl, m.neg_toFloat]
        exact m.beq_self true

/-- Both zeros are written without a sign. -/
theorem reads_zero {x : Float} {negative : Bool} {scale : Int}
    (h : Parts.ofFloat x = .finite negative 0 scale) : Reads x false ['0'] 0 := by
  have hinteger : integer? x = some 0 := by
    rw [integer?, h]
    cases scale <;> cases negative <;> simp [Parts.integer?]
  have htext : text x = "0" := by
    rw [text, hinteger]
    rfl
  refine ⟨?_, ?_, ?_, beq_zero h⟩
  · rw [htext]
    rfl
  · exact (positional_toString 0).numeral
  · exact (positional_toString 0).ofText?

theorem exists_reads {x : Float} (h : x.isFinite) :
    ∃ signed digits size, Reads x signed digits size := by
  obtain ⟨negative, units, scale, hparts⟩ := parts_of_isFinite h
  by_cases hzero : units = 0
  · rw [hzero] at hparts
    exact ⟨_, _, _, reads_zero hparts⟩
  · obtain ⟨m, -, -, rfl⟩ := exists_magnitude hparts (Nat.pos_of_ne_zero hzero)
    obtain ⟨digits, hreads⟩ := reads_magnitude m negative
    exact ⟨_, _, _, hreads⟩

/-- Whether a number is written with a sign. -/
def isSigned (x : Float) : Bool :=
  (text x).toList.head? == some '-'

/-- How a number is written, its sign apart. -/
def digits (x : Float) : List Char :=
  if isSigned x then (text x).toList.tail else (text x).toList

/-- What the digits of a number are read as. -/
def size (x : Float) : Float :=
  (ofText? (String.ofList (digits x))).getD 0

theorem Reads.eq {x shown : Float} {signed : Bool} {cs : List Char} (h : Reads x signed cs shown) :
    isSigned x = signed ∧ digits x = cs ∧ size x = shown := by
  have hsigned : isSigned x = signed := by
    rw [isSigned, h.text]
    cases signed with
    | true => rfl
    | false =>
        have hnumeral := h.numeral
        cases cs with
        | nil => rfl
        | cons c cs =>
            have hne : c ≠ '-' := by
              rintro rfl
              cases hnumeral.isDigit_head
            simpa using hne
  have hdigits : digits x = cs := by
    rw [digits, hsigned, h.text]
    cases signed <;> rfl
  refine ⟨hsigned, hdigits, ?_⟩
  rw [size, hdigits, h.read, Option.getD_some]

theorem reads {x : Float} (h : x.isFinite) : Reads x (isSigned x) (digits x) (size x) := by
  obtain ⟨signed, cs, shown, hreads⟩ := exists_reads h
  obtain ⟨rfl, rfl, rfl⟩ := hreads.eq
  exact hreads

end Number

namespace Key

theorem ofNumber_toFloat (m : Magnitude) (negative : Bool) :
    ofNumber (m.toFloat negative) = .number (m.toFloat negative).toBits := by
  rw [ofNumber, zero_eq, m.add_zero negative ofFloat_zero]

/-- The key of a number that is not negative is written as digits, and these are read as a number
with that key. -/
theorem exists_reads {x : Float} (hfinite : x.isFinite) (hle : 0 ≤ x) :
    ∃ shown digits size, (ofNumber x).toValue = .number shown ∧ shown.isFinite ∧
      Number.Reads shown false digits size ∧ ofValue (.number size) = .ok (ofNumber x) := by
  obtain ⟨negative, units, scale, hparts⟩ := parts_of_isFinite hfinite
  by_cases hzero : units = 0
  · rw [hzero] at hparts
    have hkey : ofNumber x = .number 0 := by
      rw [ofNumber, zero_eq, add_zero_of_zero hparts]
      decide +kernel
    have hbits : Float.ofBits 0 = 0 := by decide +kernel
    have hread : ofValue (.number 0) = .ok (.number 0) := by decide +kernel
    have hshown : (0 : Float).isFinite := by decide +kernel
    rw [hkey]
    exact ⟨0, ['0'], 0, congrArg Value.number hbits, hshown, Number.reads_zero ofFloat_zero, hread⟩
  · obtain ⟨m, -, -, rfl⟩ := exists_magnitude hparts (Nat.pos_of_ne_zero hzero)
    cases negative with
    | true => exact absurd hle m.not_nonneg
    | false =>
        obtain ⟨digits, hreads⟩ := Number.reads_magnitude m false
        refine ⟨_, digits, _, ?_, hfinite, hreads, ?_⟩
        · rw [ofNumber_toFloat, toValue, m.ofBits_toBits]
        · rw [ofValue, m.isNaN_toFloat]
          rfl

end Key

end TableScript
