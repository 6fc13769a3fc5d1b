import TableScript.Proofs.Rounding
import TableScript.Proofs.Steps

/-!
Sums of doubles. The steps of two doubles are added without error and the sum is rounded to 53 bits. So
a sum that needs no more bits is exact, and every other has the sign of the exact one.
-/

namespace TableScript

open Float.Model Float.Model.UnpackedFloat

/-! ### Rounding to 53 bits -/

/-- The whole number nearest to a quotient, the even one of two. -/
def halfEven (num den : Nat) : Nat :=
  if 2 * (num % den) < den then num / den
  else if den < 2 * (num % den) then num / den + 1
  else num / den + num / den % 2

theorem Stands.roundedMantissa_eq_halfEven {em : ExtendedMantissa} {num den : Nat}
    (h : Stands em num den) : em.roundedMantissa = halfEven num den := by
  obtain ⟨mantissa, roundBit, stickyBit⟩ := em
  obtain ⟨hwhole, hround, hsticky⟩ := h
  simp only at hwhole hround hsticky
  subst hwhole
  rw [ExtendedMantissa.roundedMantissa, halfEven]
  cases roundBit <;> cases stickyBit <;>
    simp [ExtendedMantissa.accuracy, Accuracy.roundToNearestEven] at hround hsticky ⊢ <;> grind

theorem halfEven_mul_right (num den : Nat) {c : Nat} (hc : 0 < c) :
    halfEven (num * c) (den * c) = halfEven num den := by
  have hless : 2 * (num % den * c) < den * c ↔ 2 * (num % den) < den := by
    rw [← Nat.mul_assoc, Nat.mul_lt_mul_right hc]
  have hmore : den * c < 2 * (num % den * c) ↔ den < 2 * (num % den) := by
    rw [← Nat.mul_assoc, Nat.mul_lt_mul_right hc]
  rw [halfEven, halfEven, Nat.mul_div_mul_right _ _ hc, Nat.mul_mod_mul_right]
  simp only [hless, hmore]

theorem halfEven_one (n : Nat) : halfEven n 1 = n := by
  rw [halfEven, Nat.mod_one, Nat.div_one, if_pos (by decide)]

theorem div_le_halfEven (num den : Nat) : num / den ≤ halfEven num den := by
  rw [halfEven]
  split
  · exact le_rfl
  · split <;> omega

theorem halfEven_le (num den : Nat) : halfEven num den ≤ num / den + 1 := by
  rw [halfEven]
  split
  · omega
  · split <;> omega

/-- A number of steps rounded to 53 bits. -/
def nearest (n : Nat) : Nat :=
  halfEven n (2 ^ (n.log2 - 52)) * 2 ^ (n.log2 - 52)

theorem log2_mul_two_pow {n : Nat} (hpos : 0 < n) (k : Nat) : (n * 2 ^ k).log2 = n.log2 + k := by
  apply (Nat.log2_eq_iff (Nat.mul_pos hpos (Nat.two_pow_pos k)).ne').2
  rw [Nat.pow_add, Nat.add_right_comm, Nat.pow_add]
  exact ⟨Nat.mul_le_mul_right _ (Nat.log2_self_le hpos.ne'),
    Nat.mul_lt_mul_of_pos_right Nat.lt_log2_self (Nat.two_pow_pos k)⟩

/-- What has no more than 53 bits before its last zeros stays as it is. -/
theorem nearest_eq {n : Nat} (hn : n < 2 ^ 53) (k : Nat) : nearest (n * 2 ^ k) = n * 2 ^ k := by
  rcases Nat.eq_zero_or_pos n with rfl | hpos
  · rw [Nat.zero_mul]
    rfl
  have hlog : n.log2 < 53 := (Nat.log2_lt hpos.ne').2 hn
  obtain ⟨j, hj⟩ : ∃ j, (n * 2 ^ k).log2 - 52 + j = k := by
    rw [log2_mul_two_pow hpos]
    exact Nat.le.dest (by omega)
  have hsplit : n * 2 ^ k = n * 2 ^ j * 2 ^ ((n * 2 ^ k).log2 - 52) := by
    rw [Nat.mul_assoc, ← Nat.pow_add, Nat.add_comm j, hj]
  have hround := halfEven_mul_right (n * 2 ^ j) 1 (Nat.two_pow_pos ((n * 2 ^ k).log2 - 52))
  rw [← hsplit, Nat.one_mul, halfEven_one] at hround
  rw [nearest, hround, ← hsplit]

/-- A number of steps, taken at any scale, rounds by one division. -/
theorem nearest_mul_two_pow {n : Nat} (hpos : 0 < n) {k shift : Nat}
    (hshift : n.log2 + k - 52 = shift + k) :
    nearest (n * 2 ^ k) = halfEven n (2 ^ shift) * 2 ^ (shift + k) := by
  rw [nearest, log2_mul_two_pow hpos, hshift, Nat.pow_add,
    halfEven_mul_right _ _ (Nat.two_pow_pos k)]

/-- What is left of a number of steps after rounding: units and a scale, with fewer than 53 bits only at
the least scale. -/
structure Rounded (n units : Nat) (scale : Int) : Prop where
  units_pos : 0 < units
  units_lt : units < 2 ^ 53
  le_scale : -1074 ≤ scale
  normal : -1074 < scale → 2 ^ 52 ≤ units
  steps_eq : units * 2 ^ (scale + 1074).toNat = nearest n

theorem exists_roundWithAccuracy (sign : Sign) {n : Nat} {e target : Int} (hpos : 0 < n)
    (he : -1074 ≤ e) (hle : e ≤ target)
    (htarget : max ((n.log2 : Int) + e - 52) (-1074) = target) :
    ∃ units scale, ∃ h : Rounded (n * 2 ^ (e + 1074).toNat) units scale,
      roundWithAccuracy .binary64 sign n e .exact = .finite sign units scale h.units_pos := by
  obtain ⟨shift, hshift⟩ := Int.eq_ofNat_of_zero_le (show 0 ≤ target - e by omega)
  obtain ⟨em, hem, hstands⟩ : ∃ em, _ = (em, e + shift) ∧ Stands em n (1 * 2 ^ shift) :=
    exists_stands one_pos (by rwa [Nat.div_one]) (show (target - e).toNat = shift by omega)
  rw [Nat.div_one, Nat.mod_one, show e + shift = target by omega] at hem
  rw [Nat.one_mul] at hstands
  have hrounded := hstands.roundedMantissa_eq_halfEven
  have hsteps : nearest (n * 2 ^ (e + 1074).toNat) =
      halfEven n (2 ^ shift) * 2 ^ (target + 1074).toNat := by
    rw [nearest_mul_two_pow hpos (show n.log2 + (e + 1074).toNat - 52 = shift + (e + 1074).toNat by
      omega), show shift + (e + 1074).toNat = (target + 1074).toNat by omega]
  have hlow := div_le_halfEven n (2 ^ shift)
  have hhigh := halfEven_le n (2 ^ shift)
  have hlt : n / 2 ^ shift < 2 ^ 53 := by
    rw [Nat.div_lt_iff_lt_mul (Nat.two_pow_pos shift), ← Nat.pow_add]
    exact Nat.lt_of_lt_of_le Nat.lt_log2_self (Nat.pow_le_pow_right (by decide) (by omega))
  have hnormal : -1074 < target → 2 ^ 52 ≤ n / 2 ^ shift := by
    intro hgt
    rw [Nat.le_div_iff_mul_le (Nat.two_pow_pos shift), ← Nat.pow_add,
      show 52 + shift = n.log2 by omega]
    exact Nat.log2_self_le hpos.ne'
  have hunits : 0 < halfEven n (2 ^ shift) := by
    by_cases hgt : -1074 < target
    · exact Nat.lt_of_lt_of_le (Nat.lt_of_lt_of_le (Nat.two_pow_pos 52) (hnormal hgt)) hlow
    · rw [show shift = 0 by omega, Nat.pow_zero, halfEven_one]
      exact hpos
  by_cases hfits : halfEven n (2 ^ shift) < 2 ^ 53
  · refine ⟨_, target, ⟨hunits, hfits, by omega, fun hgt => (hnormal hgt).trans hlow, hsteps.symm⟩, ?_⟩
    exact roundWithAccuracy_fits hem hrounded hunits hfits (by omega)
  · -- the rounded units have one bit too many, so they are a power of two
    have hcarry : halfEven n (2 ^ shift) = 2 ^ 53 := by omega
    refine ⟨2 ^ 52, target + 1, ⟨by decide, by decide, by omega, fun _ => le_rfl, ?_⟩, ?_⟩
    · rw [hsteps, hcarry, show (target + 1 + 1074).toNat = 1 + (target + 1074).toNat by omega,
        Nat.pow_add 2 1, ← Nat.mul_assoc, ← Nat.pow_add]
    · exact roundWithAccuracy_carry hem (hrounded.trans hcarry) (by omega)

theorem exists_round (sign : Sign) {n : Nat} {e : Int} (hpos : 0 < n) (he : -1074 ≤ e) :
    ∃ units scale, ∃ h : Rounded (n * 2 ^ (e + 1074).toNat) units scale,
      round .binary64 sign n e = .finite sign units scale h.units_pos := by
  generalize htarget : max ((n.log2 : Int) + e - 52) (-1074) = target
  obtain ⟨down, hdown⟩ : ∃ down, (e - target).toNat = down := ⟨_, rfl⟩
  have hlog : ((n * 2 ^ down).log2 : Int) = n.log2 + down := by
    exact_mod_cast log2_mul_two_pow hpos down
  obtain ⟨units, scale, h, hround⟩ :=
    exists_roundWithAccuracy sign (Nat.mul_pos hpos (Nat.two_pow_pos down))
      (show -1074 ≤ e - down by omega) (show e - down ≤ target by omega) (by omega)
  have hsteps : n * 2 ^ down * 2 ^ (e - down + 1074).toNat = n * 2 ^ (e + 1074).toNat := by
    rw [Nat.mul_assoc, ← Nat.pow_add,
      show down + (e - down + 1074).toNat = (e + 1074).toNat by omega]
  rw [hsteps] at h
  refine ⟨units, scale, h, ?_⟩
  rw [UnpackedFloat.round, targetExponent_eq, htarget, decreaseExponent, hdown, Nat.shiftLeft_eq]
  exact hround

/-- Rounded units make a double, unless their scale is beyond all doubles. -/
theorem Rounded.ofFloat_pack {n units : Nat} {scale : Int} (h : Rounded n units scale) (negative : Bool) :
    Parts.ofFloat (.ofModel (.pack (.finite (signOf negative) units scale h.units_pos))) =
      if scale ≤ 971 then .finite negative units scale else .infinite negative := by
  by_cases hscale : scale ≤ 971
  · rw [if_pos hscale]
    exact Magnitude.ofFloat_toFloat
      ⟨units, scale, h.units_pos, h.units_lt, h.le_scale, hscale, h.normal⟩ negative
  · have hbias : 2 ^ 11 ≤ (scale + (Format.binary64.exponentBias : Int) + (52 : Nat)).toNat + 1 := by
      rw [show ((Format.binary64.exponentBias : Nat) : Int) = 1023 from rfl]
      omega
    have hpack : UnpackedFloat.pack .binary64 (.finite (signOf negative) units scale h.units_pos) =
        UnpackedFloat.pack .binary64 (.infinity (signOf negative)) := by
      rw [UnpackedFloat.pack]
      exact if_pos hbias
    rw [if_neg hscale]
    change Parts.ofBits (UnpackedFloat.pack .binary64 _).toNat = _
    rw [hpack]
    cases negative <;> decide +kernel

/-! ### Addition -/

theorem normalize_eq (mantissa exponent : Int) :
    normalize .binary64 mantissa exponent .positive =
      if mantissa = 0 then .zero .positive
      else round .binary64 (signOf (mantissa < 0)) mantissa.natAbs exponent := by
  rw [UnpackedFloat.normalize]
  rcases lt_trichotomy mantissa 0 with h | h | h
  · rw [Int.compare_eq_lt.2 h, if_neg h.ne, decide_eq_true h, show (-mantissa).toNat = mantissa.natAbs by omega]
    rfl
  · rw [Int.compare_eq_eq.2 h, if_pos h]
  · rw [Int.compare_eq_gt.2 h, if_neg h.ne', decide_eq_false (by omega),
      show mantissa.toNat = mantissa.natAbs by omega]
    rfl

theorem apply_signOf (negative : Bool) (n : Nat) : (signOf negative).apply n = withSign negative n := by
  cases negative <;> rfl

/-- The mantissas of two magnitudes, at the smaller of their scales, add up to their steps. -/
theorem Magnitude.steps_add (one other : Magnitude) (negative negative' : Bool) :
    ∃ (mantissa : Int) (exponent : Int), -1074 ≤ exponent ∧
      mantissa * 2 ^ (exponent + 1074).toNat =
        withSign negative one.steps + withSign negative' other.steps ∧
      UnpackedFloat.add .binary64 (one.unpacked negative) (other.unpacked negative') =
        normalize .binary64 mantissa exponent .positive := by
  have hone := one.le_scale
  have hother := other.le_scale
  have halign : ∀ (m : Magnitude) (negative : Bool) (exponent : Int), -1074 ≤ exponent →
      exponent ≤ m.scale →
      withSign negative (m.units <<< (m.scale - exponent).toNat) * 2 ^ (exponent + 1074).toNat =
        withSign negative m.steps := by
    intro m negative exponent hlow hle
    rw [steps, Nat.shiftLeft_eq, show (m.scale + 1074).toNat =
      (m.scale - exponent).toNat + (exponent + 1074).toNat by omega, Nat.pow_add, ← Nat.mul_assoc,
      withSign_mul _ (m.units * _)]
    push_cast
    rfl
  refine ⟨withSign negative (one.units <<< (one.scale - min one.scale other.scale).toNat) +
    withSign negative' (other.units <<< (other.scale - min one.scale other.scale).toNat),
    min one.scale other.scale, by omega, ?_, ?_⟩
  · rw [add_mul, halign one negative _ (by omega) (by omega),
      halign other negative' _ (by omega) (by omega)]
  · rw [← apply_signOf, ← apply_signOf]
    rfl

/-- Two sizes that are not opposite add up to what their exact sum rounds to. -/
theorem Magnitude.ofFloat_add (one other : Magnitude) (negative negative' : Bool) {sum : Int}
    (hsum : withSign negative one.steps + withSign negative' other.steps = sum) (hne : sum ≠ 0) :
    ∃ units scale, Rounded sum.natAbs units scale ∧
      Parts.ofFloat (one.toFloat negative + other.toFloat negative') =
        if scale ≤ 971 then .finite (sum < 0) units scale else .infinite (sum < 0) := by
  obtain ⟨mantissa, exponent, hexponent, hvalue, hadd⟩ := one.steps_add other negative negative'
  rw [hsum] at hvalue
  have hpos : (0 : Int) < 2 ^ (exponent + 1074).toNat := by positivity
  have hmantissa : mantissa ≠ 0 := by
    rintro rfl
    exact hne (by rw [← hvalue, zero_mul])
  have hsign : decide (mantissa < 0) = decide (sum < 0) := by
    rw [← hvalue]
    simp [mul_neg_iff, hpos, not_lt.2 hpos.le]
  have hsize : mantissa.natAbs * 2 ^ (exponent + 1074).toNat = sum.natAbs := by
    rw [← hvalue, Int.natAbs_mul, Int.natAbs_pow]
    rfl
  obtain ⟨units, scale, h, hround⟩ :=
    exists_round (signOf (mantissa < 0)) (Int.natAbs_pos.2 hmantissa) hexponent
  rw [hsize] at h
  refine ⟨units, scale, h, ?_⟩
  change Parts.ofFloat (.ofModel (.pack (UnpackedFloat.add .binary64 (one.toFloat negative).toModel.unpack
    (other.toFloat negative').toModel.unpack))) = _
  rw [unpack_toFloat, unpack_toFloat, hadd, normalize_eq, if_neg hmantissa, hround, h.ofFloat_pack, hsign]

theorem Magnitude.rounded (m : Magnitude) : Rounded m.steps m.units m.scale :=
  ⟨m.units_pos, m.units_lt, m.le_scale, m.normal, (nearest_eq m.units_lt _).symm⟩

theorem Magnitude.withSign_lt_zero (m : Magnitude) (negative : Bool) :
    decide (withSign negative m.steps < 0) = negative := by
  have hpos := m.steps_pos
  cases negative with
  | false => exact decide_eq_false (by rw [withSign]; omega)
  | true => exact decide_eq_true (by rw [withSign]; omega)

variable {x y : Float} {a b : Int}

/-- The sum of two finite doubles is what the sum of their steps rounds to. -/
theorem ofFloat_add (hx : steps? x = some a) (hy : steps? y = some b) (hne : a + b ≠ 0) :
    ∃ units scale, Rounded (a + b).natAbs units scale ∧
      Parts.ofFloat (x + y) =
        if scale ≤ 971 then .finite (a + b < 0) units scale else .infinite (a + b < 0) := by
  rcases finite_cases hx with ⟨rfl, negative, scale, hparts⟩ | ⟨m, negative, rfl, rfl⟩ <;>
    rcases finite_cases hy with ⟨rfl, negative', scale', hparts'⟩ | ⟨m', negative', rfl, rfl⟩
  · exact absurd rfl hne
  · refine ⟨m'.units, m'.scale, ?_, ?_⟩
    · rw [Int.zero_add, natAbs_withSign]
      exact m'.rounded
    · rw [m'.zero_add negative' hparts, if_pos m'.scale_le, Int.zero_add, m'.withSign_lt_zero,
        m'.ofFloat_toFloat]
  · refine ⟨m.units, m.scale, ?_, ?_⟩
    · rw [Int.add_zero, natAbs_withSign]
      exact m.rounded
    · rw [m.add_zero negative hparts', if_pos m.scale_le, Int.add_zero, m.withSign_lt_zero,
        m.ofFloat_toFloat]
  · exact m.ofFloat_add m' negative negative' rfl hne

theorem steps?_zero (sign : Sign) : steps? (.ofModel (.pack (.zero sign))) = some 0 := by
  cases sign <;> decide +kernel

theorem Magnitude.withSign_ne_zero (m : Magnitude) (negative : Bool) : withSign negative m.steps ≠ 0 := by
  rw [← Int.natAbs_ne_zero, natAbs_withSign]
  exact m.steps_pos.ne'

theorem steps?_add_of_eq_zero (hx : steps? x = some a) (hy : steps? y = some b) (h : a + b = 0) :
    steps? (x + y) = some 0 := by
  change steps? (.ofModel (.pack (UnpackedFloat.add .binary64 x.toModel.unpack y.toModel.unpack))) = _
  rcases finite_cases hx with ⟨rfl, negative, scale, hparts⟩ | ⟨m, negative, rfl, rfl⟩ <;>
    rcases finite_cases hy with ⟨rfl, negative', scale', hparts'⟩ | ⟨m', negative', rfl, rfl⟩
  · rw [Parts.unpack_toModel, Parts.unpack_toModel, hparts, hparts']
    cases negative <;> cases negative' <;> exact steps?_zero _
  · rw [Int.zero_add] at h
    exact absurd h (m'.withSign_ne_zero negative')
  · rw [Int.add_zero] at h
    exact absurd h (m.withSign_ne_zero negative)
  · obtain ⟨mantissa, exponent, -, hvalue, hadd⟩ := m.steps_add m' negative negative'
    have hmantissa : mantissa = 0 := by
      rw [h] at hvalue
      exact (mul_eq_zero.1 hvalue).resolve_right (by positivity)
    rw [m.unpack_toFloat, m'.unpack_toFloat, hadd, normalize_eq, if_pos hmantissa]
    exact steps?_zero _

/-- A sum that fits 53 bits is exact. -/
theorem steps?_add (hx : steps? x = some a) (hy : steps? y = some b) {n k : Nat} (hn : n < 2 ^ 53)
    (hk : k ≤ 2045) (hsum : (a + b).natAbs = n * 2 ^ k) : steps? (x + y) = some (a + b) := by
  by_cases hne : a + b = 0
  · rw [hne]
    exact steps?_add_of_eq_zero hx hy hne
  obtain ⟨units, scale, h, hparts⟩ := ofFloat_add hx hy hne
  have hsteps := h.steps_eq
  rw [hsum, nearest_eq hn] at hsteps
  have hscale : scale ≤ 971 := by
    by_contra hgt
    have hlow : 2 ^ (52 + (scale + 1074).toNat) ≤ units * 2 ^ (scale + 1074).toNat := by
      rw [Nat.pow_add]
      exact Nat.mul_le_mul_right _ (h.normal (by omega))
    have hhigh : n * 2 ^ k < 2 ^ (53 + k) := by
      rw [Nat.pow_add]
      exact Nat.mul_lt_mul_of_pos_right hn (Nat.two_pow_pos k)
    rw [hsteps] at hlow
    have hpow := (Nat.pow_lt_pow_iff_right (by decide : 1 < 2)).1 (Nat.lt_of_le_of_lt hlow hhigh)
    omega
  rw [steps?, hparts, if_pos hscale, Parts.steps?, hsteps, ← hsum]
  by_cases hneg : a + b < 0
  · rw [decide_eq_true hneg, withSign, Int.ofNat_natAbs_of_nonpos hneg.le, Int.neg_neg]
  · rw [decide_eq_false hneg, withSign, Int.natAbs_of_nonneg (not_lt.1 hneg)]

/-- No sum rounds to the other sign. -/
theorem not_nonneg_add (hx : steps? x = some a) (hy : steps? y = some b) (h : a + b < 0) :
    ¬0 ≤ x + y := by
  obtain ⟨units, scale, hrounded, hparts⟩ := ofFloat_add hx hy h.ne
  rw [le_iff, ofFloat_zero, hparts, decide_eq_true h]
  by_cases hscale : scale ≤ 971
  · rw [if_pos hscale, Parts.unpacked, Parts.unpacked, dif_pos rfl, dif_neg hrounded.units_pos.ne']
    exact Bool.false_ne_true
  · rw [if_neg hscale]
    exact Bool.false_ne_true

/-! ### Whole numbers -/

/-- Whole numbers add up exactly as far as `2 ^ 53`. -/
theorem integer?_add (hx : Number.integer? x = some a) (hy : Number.integer? y = some b)
    (hsum : (a + b).natAbs ≤ 2 ^ 53) : Number.integer? (x + y) = some (a + b) := by
  rw [integer?_eq_some_iff] at hx hy ⊢
  have hsteps : (a * oneSteps + b * oneSteps).natAbs = (a + b).natAbs * 2 ^ lowest := by
    rw [← add_mul, Int.natAbs_mul, Int.natAbs_natCast, oneSteps]
  have hlowest : 53 + lowest ≤ 2045 := by
    unfold lowest
    decide
  rw [add_mul]
  rcases Nat.lt_or_eq_of_le hsum with hlt | heq
  · exact steps?_add hx hy hlt (by omega) hsteps
  · -- `2 ^ 53` itself has a single bit
    rw [heq, ← Nat.pow_add, ← Nat.one_mul (2 ^ _)] at hsteps
    exact steps?_add hx hy (by decide) hlowest hsteps

end TableScript
