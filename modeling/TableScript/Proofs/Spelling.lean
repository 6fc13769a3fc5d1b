import TableScript.Token.Lexer

/-!
How tokens are spelled, said without the lexer: names, numbers, strings, reserved words, operators
and punctuation, and the ways in which a text fails to start with any of them. The lexer looks at one
character to tell these apart and at one or two more to tell where a spelling ends; here is proved
that what it finds at the front of a text is the longest spelling there.
-/

namespace TableScript

/-- What a token is and what it says, wherever it stands. -/
structure Word where
  kind : Kind
  text : Option String
deriving DecidableEq, Repr

def Token.word (token : Token) : Word :=
  ⟨token.kind, token.text⟩

/-- A text does not start with a character of the given class. -/
def Clear (p : Char → Bool) (cs : List Char) : Prop :=
  ∀ c ∈ cs.head?, p c = false

namespace Spelling

/-- A letter or underscore, and then letters, numerals and underscores. -/
def Name (cs : List Char) : Prop :=
  (∃ c ∈ cs.head?, Piece.isNameStart c) ∧ ∀ c ∈ cs, Piece.isNamePart c

instance (cs : List Char) : Decidable (Name cs) :=
  decidable_of_decidable_of_iff
    (p := cs.head?.any Piece.isNameStart = true ∧ cs.all Piece.isNamePart = true) <| by
      simp only [Name, Option.any_eq_true, Option.mem_def, List.all_eq_true]

/-- `[0-9]+`. -/
def Digits (cs : List Char) : Prop :=
  cs ≠ [] ∧ ∀ c ∈ cs, c.isDigit

instance (cs : List Char) : Decidable (Digits cs) :=
  decidable_of_decidable_of_iff (p := cs ≠ [] ∧ cs.all Char.isDigit = true) <| by
    rw [Digits, List.all_eq_true]

/-- `('.'[0-9]+)?`. -/
inductive Fraction : List Char → Prop where
  | none : Fraction []
  | some {digits : List Char} (hdigits : Digits digits) : Fraction ('.' :: digits)

def isSign (c : Char) : Bool :=
  c = '+' || c = '-'

def isExponentMark (c : Char) : Bool :=
  c = 'e' || c = 'E'

/-- `[+-]?`. -/
inductive Sign : List Char → Prop where
  | none : Sign []
  | some {c : Char} (hsign : isSign c) : Sign [c]

/-- `([eE][+-]?[0-9]+)?`. -/
inductive Exponent : List Char → Prop where
  | none : Exponent []
  | some {mark : Char} {sign digits : List Char} (hmark : isExponentMark mark) (hsign : Sign sign)
      (hdigits : Digits digits) : Exponent (mark :: (sign ++ digits))

/-- `[0-9]+('.'[0-9]+)?([eE][+-]?[0-9]+)?`. -/
inductive Numeral : List Char → Prop where
  | mk {whole fraction exponent : List Char} (hwhole : Digits whole) (hfraction : Fraction fraction)
      (hexponent : Exponent exponent) : Numeral (whole ++ (fraction ++ exponent))

/-- The characters that can follow a backslash in a string, and what they mean there. -/
inductive Escape : Char → Char → Prop where
  | tab : Escape 't' '\t'
  | carriageReturn : Escape 'r' '\r'
  | lineFeed : Escape 'n' '\n'
  | backspace : Escape 'b' '\x08'
  | quote : Escape '"' '"'
  | backslash : Escape '\\' '\\'

/-- Whether a character stands for itself in a string. -/
def isPlain (c : Char) : Bool :=
  c ≠ '"' && c ≠ '\\' && c ≠ '\r' && c ≠ '\n'

/-- What stands after the opening quote of a string, and what it reads as. -/
inductive StringBody : List Char → List Char → Prop where
  | nil : StringBody [] []
  | plain {c : Char} {cs text : List Char} (hplain : isPlain c) (hrest : StringBody cs text) :
      StringBody (c :: cs) (c :: text)
  | escape {c meant : Char} {cs text : List Char} (hescape : Escape c meant)
      (hrest : StringBody cs text) : StringBody ('\\' :: c :: cs) (meant :: text)

end Spelling

open Spelling

/-- The spellings of tokens. The negation has two. -/
inductive Spells : List Char → Word → Prop where
  | name {cs : List Char} (hname : Name cs)
      (hfree : ∀ keyword : Keyword, keyword.spelling.toList ≠ cs) :
      Spells cs ⟨.identifier, some (String.ofList cs)⟩
  | number {cs : List Char} (hnumeral : Numeral cs) : Spells cs ⟨.number, some (String.ofList cs)⟩
  | string {cs text : List Char} (hbody : StringBody cs text) :
      Spells ('"' :: (cs ++ ['"'])) ⟨.string, some (String.ofList text)⟩
  | keyword (keyword : Keyword) : Spells keyword.spelling.toList ⟨.keyword keyword, none⟩
  | symbol (mark : Symbol) : Spells mark.spelling.toList ⟨.symbol mark, none⟩
  | bang : Spells ['!'] ⟨.keyword .not, none⟩

/-- Texts that start neither with a token nor with a gap between tokens, and what is wrong. -/
inductive Faulty : List Char → LexicalProblem → Prop where
  | unclosed {cs text rest : List Char} (hbody : StringBody cs text)
      (hend : rest = [] ∨ rest = ['\\'] ∨ ∃ c ∈ rest.head?, c = '\r' ∨ c = '\n') :
      Faulty ('"' :: (cs ++ rest)) .unterminatedString
  | escape {cs text rest : List Char} {c : Char} (hbody : StringBody cs text)
      (hescape : ∀ meant, ¬Escape c meant) :
      Faulty ('"' :: (cs ++ '\\' :: c :: rest)) (.invalidEscape c)
  | number {whole fraction sign rest : List Char} {mark : Char} (hwhole : Digits whole)
      (hfraction : Fraction fraction) (hmark : isExponentMark mark) (hsign : Sign sign)
      (hwholeSign : sign = [] → Clear isSign rest) (hdigits : Clear Char.isDigit rest) :
      Faulty (whole ++ (fraction ++ mark :: (sign ++ rest)))
        (.malformedNumber (String.ofList (whole ++ (fraction ++ mark :: sign))))
  | character {c : Char} {rest : List Char} (hgap : isBlank c = false ∧ c ≠ '#')
      (htoken : ∀ cs word, ¬Spells (c :: cs) word) :
      Faulty (c :: rest) (.unexpectedCharacter c)

/-! ### Classes of characters -/

theorem CodePoints.exists_of_covers {intervals : List (Nat × Nat)} {n : Nat}
    (hcovers : covers intervals n) : ∃ i ∈ intervals, i.1 ≤ n ∧ n ≤ i.2 := by
  induction intervals with
  | nil => simp [covers] at hcovers
  | cons head tail ih =>
      obtain ⟨low, high⟩ := head
      simp only [covers] at hcovers
      split at hcovers
      · cases hcovers
      · split at hcovers
        · exact ⟨(low, high), List.mem_cons_self, by omega, by omega⟩
        · obtain ⟨i, hi, hbounds⟩ := ih hcovers
          exact ⟨i, List.mem_cons_of_mem _ hi, hbounds⟩

/-- What separates tokens is not part of a name. -/
theorem isNamePart_of_isBlank {c : Char} (hblank : isBlank c) : Piece.isNamePart c = false := by
  have hapart : ∀ i ∈ blanks.intervals, ∀ k < i.2 + 1 - i.1,
      CodePoints.covers letters.intervals (i.1 + k) = false ∧
        CodePoints.covers numerals.intervals (i.1 + k) = false ∧ i.1 + k ≠ '_'.toNat := by
    decide +kernel
  obtain ⟨i, hi, hlow, hhigh⟩ := CodePoints.exists_of_covers hblank
  obtain ⟨hletter, hnumeral, hscore⟩ := hapart i hi (c.toNat - i.1) (by omega)
  rw [show i.1 + (c.toNat - i.1) = c.toNat by omega] at hletter hnumeral hscore
  have hne : c ≠ '_' := fun h => hscore (congrArg Char.toNat h)
  simp [Piece.isNamePart, isLetter, isNumeral, CodePoints.contains, hletter, hnumeral, hne]

theorem isBlank_of_isNamePart {c : Char} (hpart : Piece.isNamePart c) : isBlank c = false := by
  cases hblank : isBlank c with
  | false => rfl
  | true =>
      rw [isNamePart_of_isBlank hblank] at hpart
      cases hpart

theorem isNamePart_of_isNameStart {c : Char} (hstart : Piece.isNameStart c) :
    Piece.isNamePart c := by
  simp only [Piece.isNameStart, Bool.or_eq_true] at hstart
  rcases hstart with hletter | hscore
  · simp [Piece.isNamePart, hletter]
  · simp [Piece.isNamePart, hscore]

/-- Digits are parts of names, but no name starts with one. -/
theorem isDigit_name {c : Char} (hdigit : c.isDigit) :
    Piece.isNameStart c = false ∧ Piece.isNamePart c := by
  have hdigits : ∀ k < 10, CodePoints.covers letters.intervals (48 + k) = false ∧
      CodePoints.covers numerals.intervals (48 + k) ∧ 48 + k ≠ '_'.toNat := by
    decide +kernel
  have hbounds : 48 ≤ c.toNat ∧ c.toNat ≤ 57 := by
    simpa [Char.isDigit, UInt32.le_iff_toNat_le] using hdigit
  obtain ⟨hletter, hnumeral, hscore⟩ := hdigits (c.toNat - 48) (by omega)
  rw [show 48 + (c.toNat - 48) = c.toNat by omega] at hletter hnumeral hscore
  have hne : c ≠ '_' := fun h => hscore (congrArg Char.toNat h)
  simp [Piece.isNameStart, Piece.isNamePart, isLetter, isNumeral, CodePoints.contains, hletter,
    hnumeral, hne]

/-! ### Runs of one class -/

theorem takeWhile_append_clear {p : Char → Bool} {cs rest : List Char} (hall : ∀ c ∈ cs, p c)
    (hclear : Clear p rest) : (cs ++ rest).takeWhile p = cs := by
  rw [List.takeWhile_append_of_pos hall]
  cases rest with
  | nil => simp
  | cons c rest => simp [hclear c rfl]

theorem length_le_takeWhile {p : Char → Bool} {cs : List Char} (hall : ∀ c ∈ cs, p c)
    (rest : List Char) : cs.length ≤ ((cs ++ rest).takeWhile p).length := by
  rw [List.takeWhile_append_of_pos hall, List.length_append]
  exact Nat.le_add_right _ _

/-- A text is the run of a class at its front and a rest that does not start with that class. -/
theorem exists_run (p : Char → Bool) (cs : List Char) :
    ∃ run rest, cs = run ++ rest ∧ (∀ c ∈ run, p c) ∧ Clear p rest := by
  induction cs with
  | nil => exact ⟨[], [], rfl, by simp, by simp [Clear]⟩
  | cons c cs ih =>
      cases hc : p c with
      | false => exact ⟨[], c :: cs, rfl, by simp, by simp [Clear, hc]⟩
      | true =>
          obtain ⟨run, rest, rfl, hall, hclear⟩ := ih
          exact ⟨c :: run, rest, rfl, by simpa [hc] using hall, hclear⟩

theorem clear_cons {p : Char → Bool} {c : Char} {cs : List Char} :
    Clear p (c :: cs) ↔ p c = false := by
  simp [Clear]

theorem Spelling.Digits.append {digits more : List Char} (h : Digits digits)
    (hmore : ∀ c ∈ more, c.isDigit) : Digits (digits ++ more) := by
  constructor
  · simp [h.1]
  · intro c hc
    rcases List.mem_append.mp hc with hc | hc
    · exact h.2 c hc
    · exact hmore c hc

theorem Spelling.Digits.clear_isSign {digits : List Char} (h : Digits digits)
    (rest : List Char) : Clear isSign (digits ++ rest) := by
  cases digits with
  | nil => exact absurd rfl h.1
  | cons d digits =>
      have hd : d.isDigit := h.2 d List.mem_cons_self
      rw [List.cons_append, clear_cons]
      cases hs : isSign d with
      | false => rfl
      | true =>
          simp only [isSign, Bool.or_eq_true, decide_eq_true_eq] at hs
          rcases hs with rfl | rfl <;> cases hd

theorem Spelling.Numeral.isDigit_head {c : Char} {cs : List Char} (h : Numeral (c :: cs)) :
    c.isDigit := by
  generalize hs : c :: cs = s at h
  cases h with
  | @mk whole _ _ hwhole _ _ =>
      cases whole with
      | nil => exact absurd rfl hwhole.1
      | cons d whole =>
          obtain rfl : c = d := (List.cons.inj hs).1
          exact hwhole.2 c List.mem_cons_self

namespace Piece

/-- How many characters a piece takes. -/
def length : Piece → Nat
  | gap length => length
  | token _ _ length => length
  | error _ length => length

/-! ### Numbers -/

theorem sign_append {sign rest : List Char} (hsign : Sign sign)
    (hwhole : sign = [] → Clear isSign rest) : Piece.sign (sign ++ rest) = sign := by
  cases hsign with
  | some hsign =>
      simp only [isSign, Bool.or_eq_true, decide_eq_true_eq] at hsign
      rcases hsign with rfl | rfl <;> rfl
  | none =>
      cases rest with
      | nil => rfl
      | cons c rest =>
          have hclear := clear_cons.mp (hwhole rfl)
          simp only [isSign, Bool.or_eq_false_iff, decide_eq_false_iff_not] at hclear
          simp [Piece.sign, hclear]

theorem exists_sign (cs : List Char) :
    ∃ sign rest, cs = sign ++ rest ∧ Sign sign ∧ (sign = [] → Clear isSign rest) := by
  cases cs with
  | nil => exact ⟨[], [], rfl, .none, fun _ => by simp [Clear]⟩
  | cons c cs =>
      cases hc : isSign c with
      | false => exact ⟨[], c :: cs, rfl, .none, fun _ => clear_cons.mpr hc⟩
      | true => exact ⟨[c], cs, rfl, .some hc, fun h => by cases h⟩

/-- A mark, a sign and what follows up to the first character that is no digit. -/
theorem exponent_append {mark : Char} {sign digits rest : List Char} (hmark : isExponentMark mark)
    (hsign : Sign sign) (hwhole : sign = [] → Clear isSign (digits ++ rest))
    (hdigits : ∀ c ∈ digits, c.isDigit) (hclear : Clear Char.isDigit rest) :
    exponent (mark :: (sign ++ (digits ++ rest))) = (mark :: (sign ++ digits), !digits.isEmpty) := by
  have hmark : mark = 'e' ∨ mark = 'E' := by simpa [isExponentMark] using hmark
  simp only [exponent, if_pos hmark, sign_append hsign hwhole, List.drop_left,
    takeWhile_append_clear hdigits hclear]

theorem clear_of_exponentMark {mark : Char} (hmark : isExponentMark mark) (cs : List Char) :
    Clear Char.isDigit (mark :: cs) ∧ Clear (· = '.') (mark :: cs) := by
  simp only [isExponentMark, Bool.or_eq_true, decide_eq_true_eq] at hmark
  rcases hmark with rfl | rfl <;> exact ⟨clear_cons.mpr rfl, clear_cons.mpr rfl⟩

theorem exponent_eq_nil {cs : List Char} (hclear : Clear isExponentMark cs) :
    exponent cs = ([], true) := by
  cases cs with
  | nil => rfl
  | cons c cs =>
      have hmark : ¬(c = 'e' ∨ c = 'E') := by simpa [isExponentMark] using clear_cons.mp hclear
      simp only [exponent, if_neg hmark]

theorem fraction_append {digits rest : List Char} (hdigits : Digits digits)
    (hclear : Clear Char.isDigit rest) : fraction ('.' :: (digits ++ rest)) = '.' :: digits := by
  simp only [fraction, takeWhile_append_clear hdigits.2 hclear]
  split
  · exact absurd rfl hdigits.1
  · rfl

theorem fraction_eq_nil {cs : List Char} (hclear : Clear (· = '.') cs) : fraction cs = [] := by
  cases cs with
  | nil => rfl
  | cons c cs =>
      have hne : c ≠ '.' := by simpa using clear_cons.mp hclear
      simp [fraction, hne]

/-- A number is read part by part, each as long as it can be. -/
theorem number_append {whole fraction tail : List Char} (hwhole : Digits whole)
    (hfraction : Fraction fraction) (hdigit : Clear Char.isDigit tail)
    (hpoint : fraction = [] → Piece.fraction tail = []) :
    number (whole ++ (fraction ++ tail)) =
      let literal := whole ++ (fraction ++ (exponent tail).1)
      if (exponent tail).2 then token .number (some (String.ofList literal)) literal.length
      else error (.malformedNumber (String.ofList literal)) literal.length := by
  have hclear : Clear Char.isDigit (fraction ++ tail) := by
    cases hfraction with
    | none => exact hdigit
    | some _ => exact clear_cons.mpr rfl
  have hpart : Piece.fraction (fraction ++ tail) = fraction := by
    cases hfraction with
    | none => exact hpoint rfl
    | some hdigits => exact fraction_append hdigits hdigit
  have hdrop : (whole ++ (fraction ++ tail)).drop (whole.length + fraction.length) = tail := by
    rw [← List.append_assoc, ← List.length_append, List.drop_left]
  simp only [number, takeWhile_append_clear hwhole.2 hclear, List.drop_left, hpart, hdrop,
    List.append_assoc]

theorem exists_number_parts {c : Char} (hc : c.isDigit) (cs : List Char) :
    ∃ whole fraction tail, c :: cs = whole ++ (fraction ++ tail) ∧ Digits whole ∧
      Fraction fraction ∧ Clear Char.isDigit tail ∧ (fraction = [] → Piece.fraction tail = []) := by
  obtain ⟨whole, rest, rfl, hwhole, hrest⟩ := exists_run Char.isDigit cs
  have hdigits : Digits (c :: whole) := ⟨by simp, by simpa [hc] using hwhole⟩
  by_cases hpoint : Piece.fraction rest = []
  · exact ⟨c :: whole, [], rest, rfl, hdigits, .none, hrest, fun _ => hpoint⟩
  · -- Without a point there would be no fraction.
    obtain ⟨rest, rfl⟩ : ∃ cs, rest = '.' :: cs := by
      cases rest with
      | nil => exact absurd rfl hpoint
      | cons d rest =>
          by_cases hd : d = '.'
          · exact ⟨rest, by rw [hd]⟩
          · exact absurd (fraction_eq_nil (clear_cons.mpr (by simpa using hd))) hpoint
    obtain ⟨digits, tail, rfl, hall, htail⟩ := exists_run Char.isDigit rest
    have hne : digits ≠ [] := by
      rintro rfl
      exact hpoint (by rw [Piece.fraction, takeWhile_append_clear hall htail])
    exact ⟨c :: whole, '.' :: digits, tail, rfl, hdigits, .some ⟨hne, hall⟩, htail,
      fun h => by cases h⟩

/-- What a digit starts is a number, or a number that an exponent mark without digits spoils. -/
theorem number_cases {c : Char} (hc : c.isDigit) (cs : List Char) :
    (∃ s rest, c :: cs = s ++ rest ∧ Numeral s ∧
        number (c :: cs) = token .number (some (String.ofList s)) s.length) ∨
      ∃ problem length, number (c :: cs) = error problem length ∧ Faulty (c :: cs) problem := by
  obtain ⟨whole, fraction, tail, heq, hwhole, hfraction, hdigit, hpoint⟩ :=
    exists_number_parts hc cs
  rw [heq, number_append hwhole hfraction hdigit hpoint]
  cases tail with
  | nil => exact .inl ⟨_, [], by simp, .mk hwhole hfraction .none, rfl⟩
  | cons mark tail =>
      cases hmark : isExponentMark mark with
      | false =>
          rw [exponent_eq_nil (clear_cons.mpr hmark)]
          exact .inl ⟨_, mark :: tail, by simp, .mk hwhole hfraction .none, rfl⟩
      | true =>
          obtain ⟨sign, tail, rfl, hsign, hwholeSign⟩ := exists_sign tail
          obtain ⟨digits, rest, rfl, hall, hclear⟩ := exists_run Char.isDigit tail
          rw [exponent_append hmark hsign hwholeSign hall hclear]
          cases digits with
          | nil =>
              refine .inr ⟨_, _, rfl, ?_⟩
              simpa using Faulty.number hwhole hfraction hmark hsign hwholeSign hclear
          | cons d digits =>
              exact .inl ⟨_, rest, by simp, .mk hwhole hfraction
                (.some hmark hsign ⟨by simp, hall⟩), rfl⟩

theorem length_number (cs : List Char) :
    let whole := cs.takeWhile Char.isDigit
    let fraction := fraction (cs.drop whole.length)
    (number cs).length = whole.length + (fraction.length +
      (exponent (cs.drop (whole.length + fraction.length))).1.length) := by
  simp only [number]
  split <;> simp [length]

theorem length_le_exponent {exponent : List Char} (hexponent : Exponent exponent)
    (rest : List Char) : exponent.length ≤ (Piece.exponent (exponent ++ rest)).1.length := by
  cases hexponent with
  | none => exact Nat.zero_le _
  | @some mark sign digits hmark hsign hdigits =>
      obtain ⟨more, rest, rfl, hall, hclear⟩ := exists_run Char.isDigit rest
      have hdigits' := hdigits.append hall
      rw [List.cons_append, List.append_assoc, ← List.append_assoc digits,
        exponent_append hmark hsign (fun _ => hdigits'.clear_isSign rest) hdigits'.2 hclear]
      simp

theorem length_le_fraction {digits : List Char} (hdigits : Digits digits) (rest : List Char) :
    digits.length + 1 ≤ (fraction ('.' :: (digits ++ rest))).length := by
  obtain ⟨more, rest, rfl, hall, hclear⟩ := exists_run Char.isDigit rest
  rw [← List.append_assoc, fraction_append (hdigits.append hall) hclear, List.length_cons,
    List.length_append]
  omega

/-- No number at the front of a text is longer than the one that is read. -/
theorem length_le_number {s : List Char} (hs : Numeral s) (rest : List Char) :
    s.length ≤ (number (s ++ rest)).length := by
  obtain ⟨hwhole, hfraction, hexponent⟩ := hs
  rename_i whole fraction exponent
  cases hexponent with
  | none =>
      rw [length_number, List.append_nil]
      cases hfraction with
      | none =>
          rw [List.append_nil]
          exact Nat.le_add_right_of_le (length_le_takeWhile hwhole.2 rest)
      | @some digits hdigits =>
          have hrun : (whole ++ ('.' :: (digits ++ rest))).takeWhile Char.isDigit = whole :=
            takeWhile_append_clear hwhole.2 (clear_cons.mpr rfl)
          have hlength := length_le_fraction hdigits rest
          simp only [List.append_assoc, List.cons_append, hrun, List.drop_left, List.length_append,
            List.length_cons]
          omega
  | some hmark hsign hdigits =>
      have hlength := length_le_exponent (.some hmark hsign hdigits) rest
      rename_i mark sign digits
      obtain ⟨hclear, hpoint⟩ := clear_of_exponentMark hmark (sign ++ digits ++ rest)
      rw [List.append_assoc, List.append_assoc, List.cons_append,
        number_append hwhole hfraction hclear (fun _ => fraction_eq_nil hpoint)]
      rw [List.cons_append] at hlength
      dsimp only
      split <;> simp only [length, List.length_append] at hlength ⊢ <;> omega

/-- An exponent mark without digits after it is an error. -/
theorem number_of_faulty {whole fraction sign rest : List Char} {mark : Char}
    (hwhole : Digits whole) (hfraction : Fraction fraction) (hmark : isExponentMark mark)
    (hsign : Sign sign) (hwholeSign : sign = [] → Clear isSign rest)
    (hdigits : Clear Char.isDigit rest) :
    number (whole ++ (fraction ++ mark :: (sign ++ rest))) =
      error (.malformedNumber (String.ofList (whole ++ (fraction ++ mark :: sign))))
        (whole ++ (fraction ++ mark :: sign)).length := by
  obtain ⟨hclear, hpoint⟩ := clear_of_exponentMark hmark (sign ++ rest)
  have hexponent : exponent (mark :: (sign ++ ([] ++ rest))) = (mark :: (sign ++ []), false) :=
    exponent_append hmark hsign hwholeSign (by simp) hdigits
  rw [List.nil_append, List.append_nil] at hexponent
  rw [number_append hwhole hfraction hclear (fun _ => fraction_eq_nil hpoint), hexponent]
  simp

/-! ### Strings -/

attribute [simp] stringTail

theorem unescape?_eq_some_iff {c meant : Char} : unescape? c = some meant ↔ Escape c meant := by
  constructor
  · intro h
    unfold unescape? at h
    split at h
    case h_7 => cases h
    all_goals
      cases h
      constructor
  · rintro (_ | _ | _ | _ | _ | _) <;> rfl

/-- The body of a string is read up to its end, whatever follows. -/
theorem stringTail_append {cs text : List Char} (hbody : StringBody cs text)
    (read : List Char) (length : Nat) (rest : List Char) :
    stringTail read length (cs ++ rest) =
      stringTail (text.reverse ++ read) (length + cs.length) rest := by
  induction hbody generalizing read length with
  | nil => rfl
  | @plain c cs text hplain _ ih =>
      have hlength : length + 1 + cs.length = length + (c :: cs).length := by simp; omega
      simp only [isPlain, Bool.and_eq_true, decide_eq_true_eq] at hplain
      rw [List.cons_append, stringTail, ih, hlength]
      · simp
      all_goals simp_all
  | @escape c meant cs text hescape _ ih =>
      have hlength : length + 2 + cs.length = length + ('\\' :: c :: cs).length := by simp; omega
      rw [List.cons_append, List.cons_append, stringTail, unescape?_eq_some_iff.mpr hescape]
      dsimp only
      rw [ih, hlength]
      simp

theorem stringTail_closed {cs text : List Char} (hbody : StringBody cs text) (rest : List Char) :
    stringTail [] 1 (cs ++ ['"'] ++ rest) =
      token .string (some (String.ofList text)) ('"' :: (cs ++ ['"'])).length := by
  have hlength : ('"' :: (cs ++ ['"'])).length = 1 + cs.length + 1 := by
    rw [List.length_cons, List.length_append, List.length_singleton]
    omega
  rw [List.append_assoc, stringTail_append hbody, List.singleton_append, stringTail,
    List.append_nil, List.reverse_reverse, hlength]

/-- A text after a quote is the body of a string, as long as it can be, and a rest. -/
theorem exists_stringBody : ∀ cs : List Char, ∃ body text rest, cs = body ++ rest ∧
    StringBody body text ∧ Clear isPlain rest ∧
      ∀ c meant more, rest = '\\' :: c :: more → ¬Escape c meant
  | [] => ⟨[], [], [], rfl, .nil, by simp [Clear], by simp⟩
  | c :: cs => by
    cases hplain : isPlain c with
    | true =>
        obtain ⟨body, text, rest, rfl, hbody, hend⟩ := exists_stringBody cs
        exact ⟨c :: body, c :: text, rest, rfl, .plain hplain hbody, hend⟩
    | false =>
        match cs with
        | [] => exact ⟨[], [], [c], rfl, .nil, clear_cons.mpr hplain, by simp⟩
        | d :: cs =>
          by_cases hescape : c = '\\' ∧ ∃ meant, Escape d meant
          · obtain ⟨rfl, meant, hescape⟩ := hescape
            obtain ⟨body, text, rest, rfl, hbody, hend⟩ := exists_stringBody cs
            exact ⟨'\\' :: d :: body, meant :: text, rest, rfl, .escape hescape hbody, hend⟩
          · refine ⟨[], [], c :: d :: cs, rfl, .nil, clear_cons.mpr hplain, ?_⟩
            rintro e meant more heq hmeant
            obtain ⟨rfl, rfl, rfl⟩ : c = '\\' ∧ d = e ∧ cs = more := by simpa using heq
            exact hescape ⟨rfl, meant, hmeant⟩

/-- A line cannot end inside a string. -/
theorem stringTail_lineEnd {c : Char} (hc : c = '\r' ∨ c = '\n') (read : List Char) (length : Nat)
    (rest : List Char) : ∃ n, stringTail read length (c :: rest) = error .unterminatedString n := by
  rcases hc with rfl | rfl
  · cases rest with
    | nil => exact ⟨_, rfl⟩
    | cons d rest =>
        by_cases hd : d = '\n'
        · subst hd
          exact ⟨_, rfl⟩
        · exact ⟨length + 1, by simp [hd]⟩
  · exact ⟨_, rfl⟩

/-- What a quote starts is a string that is closed, or an error. -/
theorem string_cases (cs : List Char) :
    (∃ body text rest, cs = body ++ '"' :: rest ∧ StringBody body text ∧
        stringTail [] 1 cs = token .string (some (String.ofList text)) (body.length + 2)) ∨
      ∃ problem length, stringTail [] 1 cs = error problem length ∧ Faulty ('"' :: cs) problem := by
  obtain ⟨body, text, rest, rfl, hbody, hclear, hescape⟩ := exists_stringBody cs
  rw [stringTail_append hbody]
  cases rest with
  | nil => exact .inr ⟨_, _, rfl, .unclosed hbody (.inl rfl)⟩
  | cons c rest =>
      have hend : c = '"' ∨ c = '\\' ∨ c = '\r' ∨ c = '\n' := by
        have hplain := clear_cons.mp hclear
        simp only [isPlain] at hplain
        grind
      rcases hend with rfl | rfl | hend
      · refine .inl ⟨body, text, rest, rfl, hbody, ?_⟩
        have hlength : 1 + body.length + 1 = body.length + 2 := by omega
        simp [hlength]
      · cases rest with
        | nil => exact .inr ⟨_, _, rfl, .unclosed hbody (.inr (.inl rfl))⟩
        | cons c rest =>
            have hnone : unescape? c = none := by
              cases h : unescape? c with
              | none => rfl
              | some meant => exact absurd (unescape?_eq_some_iff.mp h) (hescape c meant rest rfl)
            refine .inr ⟨.invalidEscape c, 1 + body.length + 1, ?_, ?_⟩
            · rw [stringTail, hnone]
            · exact .escape hbody fun meant => hescape c meant rest rfl
      · obtain ⟨n, hread⟩ := stringTail_lineEnd hend (text.reverse ++ []) (1 + body.length) rest
        exact .inr ⟨_, n, hread, .unclosed hbody (.inr (.inr ⟨c, rfl, hend⟩))⟩

/-! ### Names and reserved words -/

theorem name_keyword (keyword : Keyword) : Name keyword.spelling.toList := by
  cases keyword <;> decide

theorem ofSpelling?_spelling (keyword : Keyword) :
    Keyword.ofSpelling? keyword.spelling = some keyword := by
  cases keyword <;> decide

theorem ofSpelling?_eq_none {cs : List Char}
    (hfree : ∀ keyword : Keyword, keyword.spelling.toList ≠ cs) :
    Keyword.ofSpelling? (String.ofList cs) = none := by
  rw [Keyword.ofSpelling?, List.find?_eq_none]
  intro keyword _ heq
  have heq : keyword.spelling = String.ofList cs := by simpa using heq
  exact hfree keyword (by rw [heq, String.toList_ofList])

theorem word_name {cs rest : List Char} (hname : Name cs)
    (hfree : ∀ keyword : Keyword, keyword.spelling.toList ≠ cs) (hclear : Clear isNamePart rest) :
    word (cs ++ rest) = token .identifier (some (String.ofList cs)) cs.length := by
  rw [word, takeWhile_append_clear hname.2 hclear, ofSpelling?_eq_none hfree]

theorem word_keyword (keyword : Keyword) {rest : List Char} (hclear : Clear isNamePart rest) :
    word (keyword.spelling.toList ++ rest) =
      token (.keyword keyword) none keyword.spelling.toList.length := by
  rw [word, takeWhile_append_clear (name_keyword keyword).2 hclear, String.ofList_toList,
    ofSpelling?_spelling]

/-- What starts like a name is a name or a reserved word. -/
theorem word_cases {c : Char} (hc : isNameStart c) (cs : List Char) :
    ∃ s rest found, c :: cs = s ++ rest ∧ Spells s found ∧
      word (c :: cs) = token found.kind found.text s.length := by
  obtain ⟨run, rest, rfl, hall, hclear⟩ := exists_run isNamePart cs
  have hname : Name (c :: run) := by
    refine ⟨⟨c, rfl, hc⟩, ?_⟩
    simpa [isNamePart_of_isNameStart hc] using hall
  by_cases hkeyword : ∃ keyword : Keyword, keyword.spelling.toList = c :: run
  · obtain ⟨keyword, hkeyword⟩ := hkeyword
    refine ⟨c :: run, rest, ⟨.keyword keyword, none⟩, rfl, hkeyword ▸ .keyword keyword, ?_⟩
    rw [← List.cons_append, ← hkeyword, word_keyword keyword hclear]
  · have hfree : ∀ keyword : Keyword, keyword.spelling.toList ≠ c :: run :=
      fun keyword heq => hkeyword ⟨keyword, heq⟩
    exact ⟨c :: run, rest, ⟨.identifier, some (String.ofList (c :: run))⟩, rfl,
      .name hname hfree, word_name hname hfree hclear⟩

theorem length_word (cs : List Char) : (word cs).length = (cs.takeWhile isNamePart).length := by
  simp only [word]
  split <;> rfl

/-! ### Operators and punctuation -/

theorem spells_of_mem_marks {cs : List Char} {kind : Kind} (hmem : (cs, kind) ∈ marks) :
    Spells cs ⟨kind, none⟩ := by
  simp only [marks, List.mem_append, List.mem_map, Prod.mk.injEq, List.mem_singleton] at hmem
  rcases hmem with ⟨mark, _, rfl, rfl⟩ | ⟨rfl, rfl⟩
  · exact .symbol mark
  · exact .bang

theorem symbol_mem_marks (mark : Symbol) : (mark.spelling.toList, .symbol mark) ∈ marks := by
  cases mark <;> decide

/-- The characters of a mark occur at the front of nothing else, and each is a mark by itself. -/
theorem marks_apart {entry : List Char × Kind} (hentry : entry ∈ marks) {c : Char}
    (hc : c ∈ entry.1) : [c] ∈ marks.map Prod.fst ∧ isBlank c = false ∧ c ≠ '#' ∧ c ≠ '"' ∧
      isNameStart c = false ∧ c.isDigit = false := by
  have hall : (marks.all fun entry => entry.1.all fun c =>
      (marks.map Prod.fst).contains [c] && !isBlank c && c != '#' && c != '"' &&
        !isNameStart c && !c.isDigit) = true := by
    decide +kernel
  have hapart := List.all_eq_true.mp (List.all_eq_true.mp hall entry hentry) c hc
  simpa only [Bool.and_eq_true, Bool.not_eq_true', bne_iff_ne, List.contains_iff_mem, and_assoc]
    using hapart

theorem marks_descending :
    marks.Pairwise fun earlier later => later.1.length ≤ earlier.1.length := by
  decide

/-- What else a text starts with is a mark, as long as it can be, or no token. -/
theorem mark_cases (c : Char) (cs : List Char) :
    (∃ s kind, (s, kind) ∈ marks ∧ s <+: c :: cs ∧ mark c cs = token kind none s.length ∧
        ∀ entry ∈ marks, entry.1 <+: c :: cs → entry.1.length ≤ s.length) ∨
      (mark c cs = error (.unexpectedCharacter c) 1 ∧ ∀ entry ∈ marks, ¬entry.1 <+: c :: cs) := by
  cases hfind : marks.find? fun entry => entry.1.isPrefixOf (c :: cs) with
  | none =>
      refine .inr ⟨by rw [mark, hfind], fun entry hentry hfront => ?_⟩
      have := List.find?_eq_none.mp hfind entry hentry
      exact this (List.isPrefixOf_iff_prefix.mpr hfront)
  | some found =>
      obtain ⟨s, kind⟩ := found
      obtain ⟨hfront, before, after, hmarks, hbefore⟩ := List.find?_eq_some_iff_append.mp hfind
      refine .inl ⟨s, kind, List.mem_of_find?_eq_some hfind,
        List.isPrefixOf_iff_prefix.mp hfront, by rw [mark, hfind], fun entry hentry hpre => ?_⟩
      have hordered := hmarks ▸ marks_descending
      rw [hmarks, List.mem_append, List.mem_cons] at hentry
      rcases hentry with hentry | rfl | hentry
      · have := hbefore entry hentry
        rw [List.isPrefixOf_iff_prefix.mpr hpre] at this
        cases this
      · exact Nat.le_refl _
      · exact (List.pairwise_cons.mp (List.pairwise_append.mp hordered).2.1).1 entry hentry

/-! ### The piece at the front of a text -/

theorem first_name {c : Char} (hc : isNameStart c) (cs : List Char) :
    first c cs = word (c :: cs) := by
  have hblank : isBlank c = false := isBlank_of_isNamePart (isNamePart_of_isNameStart hc)
  have hcomment : c ≠ '#' := by rintro rfl; revert hc; decide
  have hquote : c ≠ '"' := by rintro rfl; revert hc; decide
  simp [first, hblank, hcomment, hquote, hc]

theorem first_digit {c : Char} (hc : c.isDigit) (cs : List Char) :
    first c cs = number (c :: cs) := by
  obtain ⟨hname, hpart⟩ := isDigit_name hc
  have hcomment : c ≠ '#' := by rintro rfl; cases hc
  have hquote : c ≠ '"' := by rintro rfl; cases hc
  simp [first, isBlank_of_isNamePart hpart, hcomment, hquote, hname, hc]

theorem first_quote (cs : List Char) : first '"' cs = stringTail [] 1 cs := by
  have hblank : isBlank '"' = false := by decide
  simp [first, hblank]

theorem first_mark {c : Char} {cs : List Char} {kind : Kind} (hmem : (c :: cs, kind) ∈ marks)
    (rest : List Char) : first c rest = mark c rest := by
  obtain ⟨_, hblank, hcomment, hquote, hname, hdigit⟩ := marks_apart hmem List.mem_cons_self
  simp [first, hblank, hcomment, hquote, hname, hdigit]

end Piece

/-- How the spelling of a token starts. -/
theorem Spells.cons_cases {c : Char} {cs : List Char} {word : Word} (h : Spells (c :: cs) word) :
    (Piece.isNameStart c ∧ ∀ d ∈ c :: cs, Piece.isNamePart d) ∨ (c.isDigit ∧ Numeral (c :: cs)) ∨
      (c = '"' ∧ ∃ body text, cs = body ++ ['"'] ∧ StringBody body text) ∨
      ∃ kind, (c :: cs, kind) ∈ Piece.marks := by
  generalize hs : c :: cs = s at h
  have hstart : ∀ {s}, Name s → c :: cs = s →
      Piece.isNameStart c ∧ ∀ d ∈ s, Piece.isNamePart d := by
    rintro s ⟨⟨d, hd, hname⟩, hall⟩ rfl
    obtain rfl : c = d := by simpa using hd
    exact ⟨hname, hall⟩
  cases h with
  | name hname _ => exact .inl (hstart hname hs)
  | keyword keyword => exact .inl (hstart (Piece.name_keyword keyword) hs)
  | number hnumeral =>
      subst hs
      exact .inr (.inl ⟨hnumeral.isDigit_head, hnumeral⟩)
  | string hbody =>
      obtain ⟨rfl, rfl⟩ := List.cons.inj hs
      exact .inr (.inr (.inl ⟨rfl, _, _, rfl, hbody⟩))
  | symbol mark => exact .inr (.inr (.inr ⟨_, Piece.symbol_mem_marks mark⟩))
  | bang => exact .inr (.inr (.inr ⟨.keyword .not, by decide⟩))

theorem Spells.ne_nil {s : List Char} {word : Word} (h : Spells s word) : s ≠ [] := by
  cases h with
  | name hname _ =>
      rintro rfl
      obtain ⟨⟨c, hc, _⟩, _⟩ := hname
      cases hc
  | number hnumeral =>
      cases hnumeral with
      | mk hwhole _ _ => simp [hwhole.1]
  | string _ => simp
  | keyword keyword => cases keyword <;> decide
  | symbol mark => cases mark <;> decide
  | bang => simp

namespace Piece

/-- No spelling at the front of a text is longer than the piece there. -/
theorem length_le_first {c : Char} {cs s : List Char} {word : Word} (hspells : Spells s word)
    (hfront : s <+: c :: cs) : s.length ≤ (first c cs).length := by
  cases s with
  | nil => exact Nat.zero_le _
  | cons d s =>
      obtain ⟨rest, hrest⟩ := hfront
      rw [List.cons_append] at hrest
      obtain ⟨rfl, rfl⟩ := List.cons.inj hrest
      rcases hspells.cons_cases with ⟨hname, hall⟩ | ⟨hdigit, hnumeral⟩ |
        ⟨rfl, body, text, rfl, hbody⟩ | ⟨kind, hmark⟩
      · rw [first_name hname, length_word]
        exact length_le_takeWhile hall rest
      · rw [first_digit hdigit]
        exact length_le_number hnumeral rest
      · rw [first_quote, stringTail_closed hbody]
        exact Nat.le_refl _
      · rw [first_mark hmark]
        rcases mark_cases d (s ++ rest) with ⟨found, kind, _, _, hread, hlongest⟩ | ⟨_, hnone⟩
        · rw [hread]
          exact hlongest _ hmark (List.prefix_append (d :: s) rest)
        · exact absurd (List.prefix_append (d :: s) rest) (hnone _ hmark)

/-- What the piece at the front of a text can be: a blank, a comment, a token that is spelled there,
or an error that the text shows. -/
theorem first_cases (c : Char) (cs : List Char) :
    (isBlank c ∧ first c cs = gap 1) ∨
      (c = '#' ∧ first c cs = gap ((cs.takeWhile isCommentPart).length + 1)) ∨
      (∃ s rest word, c :: cs = s ++ rest ∧ Spells s word ∧
        first c cs = token word.kind word.text s.length) ∨
      ∃ problem length, first c cs = error problem length ∧ Faulty (c :: cs) problem := by
  cases hblank : isBlank c with
  | true => exact .inl ⟨rfl, by simp [first, hblank]⟩
  | false =>
      by_cases hcomment : c = '#'
      · subst hcomment
        exact .inr (.inl ⟨rfl, by simp [first, hblank, isCommentPart]⟩)
      by_cases hquote : c = '"'
      · subst hquote
        rw [first_quote]
        rcases string_cases cs with ⟨body, text, rest, rfl, hbody, hread⟩ | hfault
        · refine .inr (.inr (.inl ⟨_, rest, _, ?_, .string hbody, ?_⟩))
          · simp
          · simpa using hread
        · exact .inr (.inr (.inr hfault))
      cases hname : isNameStart c with
      | true =>
          rw [first_name hname]
          exact .inr (.inr (.inl (word_cases hname cs)))
      | false =>
          cases hdigit : c.isDigit with
          | true =>
              rw [first_digit hdigit]
              rcases number_cases hdigit cs with ⟨s, rest, heq, hnumeral, hread⟩ | hfault
              · exact .inr (.inr (.inl ⟨s, rest, _, heq, .number hnumeral, hread⟩))
              · exact .inr (.inr (.inr hfault))
          | false =>
              have hfirst : first c cs = mark c cs := by
                simp [first, hblank, hcomment, hquote, hname, hdigit]
              rw [hfirst]
              rcases mark_cases c cs with ⟨s, kind, hmem, ⟨rest, heq⟩, hread, _⟩ | ⟨hread, hnone⟩
              · exact .inr (.inr (.inl ⟨s, rest, _, heq.symm, spells_of_mem_marks hmem, hread⟩))
              · refine .inr (.inr (.inr ⟨_, _, hread, .character ⟨hblank, hcomment⟩ ?_⟩))
                intro s word hspells
                rcases hspells.cons_cases with ⟨hc, _⟩ | ⟨hc, _⟩ | ⟨hc, _⟩ | ⟨kind, hmem⟩
                · rw [hname] at hc
                  cases hc
                · rw [hdigit] at hc
                  cases hc
                · exact hquote hc
                · -- The first character of a mark would be a mark by itself.
                  obtain ⟨hsingle, _⟩ := marks_apart hmem List.mem_cons_self
                  obtain ⟨entry, hentry, heq⟩ := List.mem_map.mp hsingle
                  refine hnone entry hentry ?_
                  rw [heq]
                  exact List.prefix_append [c] cs

/-- A text that shows an error is read as that error. -/
theorem first_of_faulty {c : Char} {cs : List Char} {problem : LexicalProblem}
    (h : Faulty (c :: cs) problem) : ∃ length, first c cs = error problem length := by
  generalize htext : c :: cs = text at h
  cases h with
  | unclosed hbody hend =>
      obtain ⟨rfl, rfl⟩ := List.cons.inj htext
      rw [first_quote, stringTail_append hbody]
      rcases hend with rfl | rfl | ⟨d, hd, hend⟩
      · exact ⟨_, rfl⟩
      · exact ⟨_, rfl⟩
      · obtain ⟨rest, rfl⟩ := List.head?_eq_some_iff.mp hd
        exact stringTail_lineEnd hend _ _ rest
  | @escape _ _ _ d hbody hescape =>
      obtain ⟨rfl, rfl⟩ := List.cons.inj htext
      have hnone : unescape? d = none := by
        cases hd : unescape? d with
        | none => rfl
        | some meant => exact absurd (unescape?_eq_some_iff.mp hd) (hescape meant)
      rw [first_quote, stringTail_append hbody, stringTail, hnone]
      exact ⟨_, rfl⟩
  | @number whole fraction sign rest mark hwhole hfraction hmark hsign hwholeSign hdigits =>
      cases whole with
      | nil => exact absurd rfl hwhole.1
      | cons d whole =>
          rw [List.cons_append] at htext
          obtain ⟨rfl, rfl⟩ := List.cons.inj htext
          rw [first_digit (hwhole.2 c List.mem_cons_self), ← List.cons_append,
            number_of_faulty hwhole hfraction hmark hsign hwholeSign hdigits]
          exact ⟨_, rfl⟩
  | character hgap htoken =>
      obtain ⟨rfl, rfl⟩ := List.cons.inj htext
      rcases first_cases c cs with ⟨hblank, _⟩ | ⟨hcomment, _⟩ |
        ⟨s, rest, word, heq, hspells, _⟩ | ⟨problem, length, hread, hfault⟩
      · rw [hgap.1] at hblank
        cases hblank
      · exact absurd hcomment hgap.2
      · cases s with
        | nil => exact absurd rfl hspells.ne_nil
        | cons d s =>
            obtain rfl : c = d := (List.cons.inj heq).1
            exact absurd hspells (htoken s word)
      · -- No other error starts with a character that starts no token.
        generalize htext : c :: cs = text at hfault
        cases hfault with
        | unclosed _ _ =>
            obtain ⟨rfl, _⟩ := List.cons.inj htext
            exact absurd (.string .nil) (htoken ['"'] _)
        | escape _ _ =>
            obtain ⟨rfl, _⟩ := List.cons.inj htext
            exact absurd (.string .nil) (htoken ['"'] _)
        | @number whole _ _ _ _ hwhole _ _ _ _ _ =>
            cases whole with
            | nil => exact absurd rfl hwhole.1
            | cons d whole =>
                obtain rfl : c = d := (List.cons.inj htext).1
                have hdigit : Digits [c] := ⟨by simp, by simpa using hwhole.2 c List.mem_cons_self⟩
                exact absurd (.number (.mk hdigit .none .none)) (htoken [] _)
        | character _ _ =>
            obtain ⟨rfl, _⟩ := List.cons.inj htext
            exact ⟨length, hread⟩

end Piece

/-- A text is empty, or starts with what separates tokens. -/
def Separated (cs : List Char) : Prop :=
  ∀ c ∈ cs.head?, isBlank c ∨ c = '#'

theorem Separated.clear {cs : List Char} (h : Separated cs) {p : Char → Bool}
    (hp : ∀ c, p c → isBlank c = false ∧ c ≠ '#') : Clear p cs := by
  intro c hc
  cases hpc : p c with
  | false => rfl
  | true =>
      obtain ⟨hblank, hcomment⟩ := hp c hpc
      rcases h c hc with hc | hc
      · rw [hblank] at hc
        cases hc
      · exact absurd hc hcomment

theorem Separated.clear_isNamePart {cs : List Char} (h : Separated cs) :
    Clear Piece.isNamePart cs := by
  refine h.clear fun c hc => ⟨isBlank_of_isNamePart hc, ?_⟩
  rintro rfl
  revert hc
  decide

/-- What separates tokens does not go on with a number. -/
theorem Separated.clear_number {cs : List Char} (h : Separated cs) :
    Clear Char.isDigit cs ∧ Clear isExponentMark cs ∧ Clear (· = '.') cs := by
  refine ⟨h.clear fun c hc => ⟨isBlank_of_isNamePart (isDigit_name hc).2, ?_⟩,
    h.clear fun c hc => ?_, h.clear fun c hc => ?_⟩
  · rintro rfl
    cases hc
  · simp only [isExponentMark, Bool.or_eq_true, decide_eq_true_eq] at hc
    rcases hc with rfl | rfl <;> decide
  · obtain rfl : c = '.' := by simpa using hc
    decide

namespace Piece

theorem number_of_numeral {s rest : List Char} (hs : Numeral s)
    (hrest : Clear Char.isDigit rest ∧ Clear isExponentMark rest ∧ Clear (· = '.') rest) :
    number (s ++ rest) = token .number (some (String.ofList s)) s.length := by
  obtain ⟨hdigit, hmark, hpoint⟩ := hrest
  cases hs with
  | mk hwhole hfraction hexponent =>
      rw [List.append_assoc, List.append_assoc]
      cases hexponent with
      | none =>
          rw [List.nil_append, number_append hwhole hfraction hdigit fun _ => fraction_eq_nil hpoint,
            exponent_eq_nil hmark]
          rfl
      | @some mark sign digits hmark hsign hdigits =>
          obtain ⟨hclear, hpoint⟩ := clear_of_exponentMark hmark (sign ++ digits ++ rest)
          have hne : digits.isEmpty = false := by simpa using hdigits.1
          rw [List.cons_append, number_append hwhole hfraction hclear fun _ => fraction_eq_nil hpoint,
            List.append_assoc,
            exponent_append hmark hsign (fun _ => hdigits.clear_isSign rest) hdigits.2 hdigit, hne]
          rfl

theorem mark_of_mem {c : Char} {cs rest : List Char} {kind : Kind} (hmem : (c :: cs, kind) ∈ marks)
    (hrest : Separated rest) : mark c (cs ++ rest) = token kind none (c :: cs).length := by
  have hdistinct : ∀ one ∈ marks, ∀ other ∈ marks, one.1 = other.1 → one.2 = other.2 := by
    decide
  have hfront : c :: cs <+: c :: (cs ++ rest) := List.prefix_append (c :: cs) rest
  rcases mark_cases c (cs ++ rest) with ⟨s, kind', hs, hpre, hread, hlongest⟩ | ⟨_, hnone⟩
  · obtain ⟨more, rfl⟩ := List.prefix_of_prefix_length_le hfront hpre (hlongest _ hmem hfront)
    -- A longer mark would go on with what separates tokens.
    obtain rfl : more = [] := by
      cases more with
      | nil => rfl
      | cons d more =>
          obtain ⟨tail, htail⟩ := hpre
          have hd : rest = d :: (more ++ tail) := by simpa using htail.symm
          obtain ⟨_, hblank, hcomment, _⟩ := marks_apart hs (c := d) (by simp)
          rcases hrest d (by simp [hd]) with hd | hd
          · rw [hblank] at hd
            cases hd
          · exact absurd hd hcomment
    rw [List.append_nil] at hs hread
    obtain rfl : kind' = kind := hdistinct _ hs _ hmem rfl
    exact hread
  · exact absurd hfront (hnone _ hmem)

/-- The spelling of a token is read as that token, if what separates tokens follows. -/
theorem first_of_spells {c : Char} {cs rest : List Char} {found : Word}
    (h : Spells (c :: cs) found) (hrest : Separated rest) :
    first c (cs ++ rest) = token found.kind found.text (c :: cs).length := by
  have hclear := hrest.clear_isNamePart
  have hmarks : ∀ kind, (c :: cs, kind) ∈ marks →
      first c (cs ++ rest) = token kind none (c :: cs).length := by
    intro kind hmem
    rw [first_mark hmem, mark_of_mem hmem hrest]
  generalize hs : c :: cs = s at h hmarks ⊢
  have hword : ∀ {s}, Name s → c :: cs = s → first c (cs ++ rest) = word (s ++ rest) := by
    rintro s ⟨⟨d, hd, hstart⟩, _⟩ rfl
    obtain rfl : c = d := by simpa using hd
    exact first_name hstart (cs ++ rest)
  cases h with
  | name hname hfree =>
      rw [hword hname hs, word_name hname hfree hclear]
  | keyword keyword =>
      rw [hword (name_keyword keyword) hs, word_keyword keyword hclear]
  | number hnumeral =>
      subst hs
      rw [first_digit hnumeral.isDigit_head, ← List.cons_append, number_of_numeral hnumeral hrest.clear_number]
  | string hbody =>
      obtain ⟨rfl, rfl⟩ := List.cons.inj hs
      rw [first_quote, stringTail_closed hbody]
  | symbol mark => exact hmarks _ (symbol_mem_marks mark)
  | bang => exact hmarks _ (by decide)

end Piece

end TableScript
