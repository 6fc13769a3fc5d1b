import Mathlib.Algebra.Order.Field.Power
import Mathlib.Algebra.Order.Ring.Rat
import Mathlib.Tactic.FieldSimp
import Mathlib.Tactic.Linarith
import Mathlib.Tactic.LinearCombination
import Mathlib.Tactic.GCongr
import Mathlib.Tactic.Positivity
import Mathlib.Tactic.Ring
import TableScript.Proofs.Magnitude

/-!
How doubles are rounded. A quotient is cut off at the scale of a double, with two bits for what is
lost, and rounded to the nearest double, a tie to the one with even units. So every number near enough
to a double comes out as that double: as a product, as a quotient, and as a decimal.
-/

namespace TableScript

open Float.Model Float.Model.UnpackedFloat

/-- A mantissa with its two residual bits stands for a quotient: the mantissa is its whole part, and
the bits tell whether the rest reaches one half and whether it is neither nothing nor one half. -/
structure Stands (em : ExtendedMantissa) (num den : Nat) : Prop where
  whole : em.mantissa = num / den
  round : em.roundBit = true ↔ den ≤ 2 * (num % den)
  sticky : em.stickyBit = true ↔ num % den ≠ 0 ∧ 2 * (num % den) ≠ den

theorem stands_of_fraction (num : Nat) {den : Nat} (hden : 0 < den) :
    Stands (.ofMantissaAndAccuracy (num / den) (accuracyOfFraction (num % den) den)) num den := by
  rw [accuracyOfFraction]
  by_cases hexact : num % den = 0
  · rw [if_pos hexact]
    refine ⟨rfl, ?_, ?_⟩
    · simpa [ExtendedMantissa.ofMantissaAndAccuracy, hexact] using Nat.ne_of_gt hden
    · simp [ExtendedMantissa.ofMantissaAndAccuracy, hexact]
  · rw [if_neg hexact]
    rcases hcompare : compare (2 * (num % den)) den with _ | _ | _
    · have := Nat.compare_eq_lt.1 hcompare
      refine ⟨rfl, ?_, ?_⟩ <;> simp [ExtendedMantissa.ofMantissaAndAccuracy] <;> omega
    · have := Nat.compare_eq_eq.1 hcompare
      refine ⟨rfl, ?_, ?_⟩ <;> simp [ExtendedMantissa.ofMantissaAndAccuracy] <;> omega
    · have := Nat.compare_eq_gt.1 hcompare
      refine ⟨rfl, ?_, ?_⟩ <;> simp [ExtendedMantissa.ofMantissaAndAccuracy] <;> omega

namespace Stands

variable {em : ExtendedMantissa} {num den : Nat}

theorem shiftRightOne (h : Stands em num den) (hden : 0 < den) :
    Stands em.shiftRightOne num (den * 2) := by
  have hlt := Nat.mod_lt num hden
  have hmod : num % (den * 2) = num % den + den * (num / den % 2) := Nat.mod_mul
  have hbit := Nat.mod_two_eq_zero_or_one (num / den)
  constructor
  · rw [ExtendedMantissa.shiftRightOne, h.whole, Nat.div_div_eq_div_mul]
  · rw [ExtendedMantissa.shiftRightOne, h.whole, hmod]
    rcases hbit with hbit | hbit <;> simp [hbit] <;> omega
  · have hrest : (em.roundBit || em.stickyBit) = true ↔ num % den ≠ 0 := by
      rw [Bool.or_eq_true, h.round, h.sticky]
      omega
    rw [ExtendedMantissa.shiftRightOne, hrest, hmod]
    rcases hbit with hbit | hbit <;> simp only [hbit] <;> omega

theorem shiftRight (h : Stands em num den) (hden : 0 < den) (k : Nat) :
    Stands (em >>> k) num (den * 2 ^ k) := by
  induction k with
  | zero =>
      rw [Nat.pow_zero, Nat.mul_one]
      exact h
  | succ k ih =>
      rw [Nat.pow_succ, ← Nat.mul_assoc]
      exact ih.shiftRightOne (Nat.mul_pos hden (Nat.two_pow_pos k))

/-- The rounded mantissa is the whole number nearest to the quotient, the even one of two. -/
theorem roundedMantissa_eq {units : Nat} (h : Stands em num den) (hden : 0 < den)
    (hlow : 2 * (units * den) ≤ 2 * num + den) (hhigh : 2 * num ≤ 2 * (units * den) + den)
    (htie : units % 2 = 1 → 2 * (units * den) ≠ 2 * num + den ∧ 2 * num ≠ 2 * (units * den) + den) :
    em.roundedMantissa = units := by
  obtain ⟨mantissa, roundBit, stickyBit⟩ := em
  obtain ⟨hwhole, hround, hsticky⟩ := h
  simp only at hwhole hround hsticky
  subst hwhole
  have hlt := Nat.mod_lt num hden
  have hnum := Nat.div_add_mod num den
  have hcases : num / den = units ∨ num / den + 1 = units := by
    have hle : num / den ≤ units := by
      by_contra hgt
      have hmul := Nat.mul_le_mul_left den (Nat.lt_of_not_le hgt)
      rw [Nat.mul_succ, Nat.mul_comm den units] at hmul
      omega
    have hge : units ≤ num / den + 1 := by
      by_contra hgt
      have hmul := Nat.mul_le_mul_left den (Nat.lt_of_not_le hgt)
      rw [Nat.mul_succ, Nat.mul_succ, Nat.mul_comm den units] at hmul
      omega
    omega
  rw [ExtendedMantissa.roundedMantissa]
  rcases hcases with rfl | rfl
  · rw [Nat.mul_comm (num / den)] at hlow hhigh htie
    cases roundBit <;> cases stickyBit <;>
      simp [ExtendedMantissa.accuracy, Accuracy.roundToNearestEven] at hround hsticky ⊢ <;> omega
  · rw [Nat.add_mul, Nat.mul_comm (num / den)] at hlow hhigh htie
    cases roundBit <;> cases stickyBit <;>
      simp [ExtendedMantissa.accuracy, Accuracy.roundToNearestEven] at hround hsticky ⊢ <;> omega

end Stands

/-! ### Rounding -/

theorem targetExponent_eq (mantissa : Nat) (exponent : Int) :
    Format.binary64.targetExponent (totalExponent mantissa exponent) =
      max (mantissa.log2 + exponent - 52) (-1074) := by
  rw [Format.targetExponent, totalExponent, show (Format.binary64.mantissaBits : Int) = 53 from rfl,
    show Format.binary64.minExponent = -1074 from rfl]
  congr 1
  omega

theorem shiftToTargetExponent_eq {mantissa shift : Nat} {exponent target : Int} {accuracy : Accuracy}
    (htarget : max ((mantissa.log2 : Int) + exponent - 52) (-1074) = target)
    (hshift : (target - exponent).toNat = shift) :
    shiftToTargetExponent .binary64 mantissa exponent accuracy =
      (ExtendedMantissa.ofMantissaAndAccuracy mantissa accuracy >>> shift, exponent + shift) := by
  rw [shiftToTargetExponent, targetExponent_eq, htarget, shiftToExponent, hshift]

/-- A quotient that is brought to the scale of a double is a quotient by as much more. -/
theorem exists_stands {num den shift : Nat} {exponent target : Int} (hden : 0 < den)
    (htarget : max (((num / den).log2 : Int) + exponent - 52) (-1074) = target)
    (hshift : (target - exponent).toNat = shift) :
    ∃ em, shiftToTargetExponent .binary64 (num / den) exponent (accuracyOfFraction (num % den) den) =
      (em, exponent + shift) ∧ Stands em num (den * 2 ^ shift) :=
  ⟨_, shiftToTargetExponent_eq htarget hshift, (stands_of_fraction num hden).shiftRight hden shift⟩

/-- What fits 53 bits at an allowed scale stays as it is. -/
theorem shiftToTargetExponent_fits {units : Nat} {scale : Int} (hunits : units < 2 ^ 53)
    (hscale : -1074 ≤ scale) :
    shiftToTargetExponent .binary64 units scale .exact = (⟨units, false, false⟩, scale) := by
  have hlog : units.log2 ≤ 52 := by
    by_cases hzero : units = 0
    · rw [hzero]
      decide
    · exact Nat.le_of_lt_succ ((Nat.log2_lt hzero).2 hunits)
  have hnone : (max ((units.log2 : Int) + scale - 52) (-1074) - scale).toNat = 0 := by omega
  rw [shiftToTargetExponent_eq rfl hnone, Nat.cast_zero, add_zero]
  rfl

/-- A carry into the next bit moves the scale by one. -/
theorem shiftToTargetExponent_carry {scale : Int} (hscale : -1074 ≤ scale) :
    shiftToTargetExponent .binary64 (2 ^ 53) scale .exact =
      (⟨2 ^ 52, false, false⟩, scale + 1) := by
  have hone : (max (((2 ^ 53 : Nat).log2 : Int) + scale - 52) (-1074) - scale).toNat = 1 := by
    rw [Nat.log2_two_pow]
    omega
  rw [shiftToTargetExponent_eq rfl hone]
  rfl

theorem roundWithAccuracy_fits {sign : Sign} {mantissa units : Nat} {exponent scale : Int}
    {accuracy : Accuracy} {em : ExtendedMantissa}
    (hshift : shiftToTargetExponent .binary64 mantissa exponent accuracy = (em, scale))
    (hrounded : em.roundedMantissa = units) (hpos : 0 < units) (hunits : units < 2 ^ 53)
    (hscale : -1074 ≤ scale) :
    roundWithAccuracy .binary64 sign mantissa exponent accuracy = .finite sign units scale hpos := by
  rw [roundWithAccuracy, hshift]
  dsimp only
  rw [hrounded, shiftToTargetExponent_fits hunits hscale]
  exact dif_neg (Nat.ne_of_gt hpos)

theorem roundWithAccuracy_carry {sign : Sign} {mantissa : Nat} {exponent scale : Int}
    {accuracy : Accuracy} {em : ExtendedMantissa}
    (hshift : shiftToTargetExponent .binary64 mantissa exponent accuracy = (em, scale))
    (hrounded : em.roundedMantissa = 2 ^ 53) (hscale : -1074 ≤ scale) :
    roundWithAccuracy .binary64 sign mantissa exponent accuracy =
      .finite sign (2 ^ 52) (scale + 1) (by decide) := by
  rw [roundWithAccuracy, hshift]
  dsimp only
  rw [hrounded, shiftToTargetExponent_carry hscale]
  rfl

namespace Magnitude

/-- How far down the numbers reach that round to a magnitude, in quarters of a unit: half a unit,
but half of that below a power of two, where doubles are twice as dense. -/
def below (m : Magnitude) : Nat :=
  if m.units = 2 ^ 52 ∧ -1074 < m.scale then 1 else 2

/-- The quotient of two whole numbers, in units, rounds to a magnitude. -/
structure Attracts (m : Magnitude) (num den : Nat) : Prop where
  low : 4 * (m.units * den) ≤ 4 * num + m.below * den
  high : 4 * num ≤ 4 * (m.units * den) + 2 * den
  tie : m.units % 2 = 1 → 4 * (m.units * den) ≠ 4 * num + m.below * den ∧
    4 * num ≠ 4 * (m.units * den) + 2 * den

theorem log2_div {num den n : Nat} (hden : 0 < den) (hlow : 2 ^ n * den ≤ num)
    (hhigh : num < 2 ^ (n + 1) * den) : (num / den).log2 = n := by
  have hle : 2 ^ n ≤ num / den := (Nat.le_div_iff_mul_le hden).2 hlow
  have hpos : num / den ≠ 0 := Nat.ne_of_gt (Nat.lt_of_lt_of_le (Nat.two_pow_pos n) hle)
  exact (Nat.log2_eq_iff hpos).2 ⟨hle, (Nat.div_lt_iff_lt_mul hden).2 hhigh⟩

variable {m : Magnitude} {num den k : Nat}

theorem Attracts.lt (h : m.Attracts num den) (hden : 0 < den) : num < 2 ^ 53 * den := by
  have hmul := Nat.mul_le_mul_right den (Nat.le_of_lt_succ m.units_lt)
  have hhigh := h.high
  omega

theorem below_le_two (m : Magnitude) : m.below ≤ 2 := by
  rw [below]
  split <;> decide

theorem below_of_odd (hodd : m.units % 2 = 1) : m.below = 2 := by
  apply if_neg
  rintro ⟨hunits, -⟩
  rw [hunits] at hodd
  cases hodd

/-- The usual case: one step of rounding leads to the magnitude. -/
theorem roundWithAccuracy_of_le (sign : Sign) (hden : 0 < den) (h : m.Attracts num (den * 2 ^ k))
    (hle : -1074 < m.scale → 2 ^ 52 * (den * 2 ^ k) ≤ num) :
    roundWithAccuracy .binary64 sign (num / den) (m.scale - k) (accuracyOfFraction (num % den) den) =
      .finite sign m.units m.scale m.units_pos := by
  have hwide : 0 < den * 2 ^ k := Nat.mul_pos hden (Nat.two_pow_pos k)
  have hpow : ∀ n, 2 ^ n * (den * 2 ^ k) = 2 ^ (n + k) * den := by
    intro n
    rw [Nat.pow_add, Nat.mul_assoc, Nat.mul_comm den]
  have hlt : num < 2 ^ (53 + k) * den := by
    rw [← hpow]
    exact h.lt hwide
  have htarget : max (((num / den).log2 : Int) + (m.scale - k) - 52) (-1074) = m.scale := by
    have hscale := m.le_scale
    by_cases hnormal : -1074 < m.scale
    · have hlow := hle hnormal
      rw [hpow] at hlow
      have hlog : (num / den).log2 = 52 + k := log2_div hden hlow (by rwa [Nat.add_right_comm])
      omega
    · have hlog : (num / den).log2 < 53 + k := by
        by_cases hzero : num / den = 0
        · rw [hzero, Nat.log2_zero]
          omega
        · exact (Nat.log2_lt hzero).2 ((Nat.div_lt_iff_lt_mul hden).2 hlt)
      omega
  obtain ⟨em, hshift, hstands⟩ := exists_stands hden htarget (by omega : (m.scale - (m.scale - k)).toNat = k)
  rw [sub_add_cancel] at hshift
  have hrounded : em.roundedMantissa = m.units := by
    apply hstands.roundedMantissa_eq hwide
    · have hlow := h.low
      have hbelow := Nat.mul_le_mul_right (den * 2 ^ k) m.below_le_two
      omega
    · have hhigh := h.high
      omega
    · intro hodd
      have htie := h.tie hodd
      rw [below_of_odd hodd] at htie
      omega
  exact roundWithAccuracy_fits hshift hrounded m.units_pos m.units_lt m.le_scale

/-- Just below a power of two, rounding leads to that power by way of a carry. -/
theorem roundWithAccuracy_of_lt (sign : Sign) (hden : 0 < den) (h : m.Attracts num (den * 2 ^ k))
    (hscale : -1074 < m.scale) (hlt : num < 2 ^ 52 * (den * 2 ^ k)) :
    roundWithAccuracy .binary64 sign (num / den) (m.scale - k) (accuracyOfFraction (num % den) den) =
      .finite sign m.units m.scale m.units_pos := by
  have hwide : 0 < den * 2 ^ k := Nat.mul_pos hden (Nat.two_pow_pos k)
  have hlow := h.low
  have hunits : m.units = 2 ^ 52 := by
    have hbelow := Nat.mul_le_mul_right (den * 2 ^ k) m.below_le_two
    by_contra hne
    have hmul := Nat.mul_le_mul_right (den * 2 ^ k) (Nat.lt_of_le_of_ne (m.normal hscale) (Ne.symm hne))
    omega
  have hbelow : m.below = 1 := if_pos ⟨hunits, hscale⟩
  rw [hunits, hbelow] at hlow
  have hlog : (num / den).log2 = 51 + k := by
    apply log2_div hden
    · rw [Nat.pow_add, Nat.mul_assoc, Nat.mul_comm (2 ^ k)]
      omega
    · rw [Nat.add_right_comm, Nat.pow_add, Nat.mul_assoc, Nat.mul_comm (2 ^ k)]
      exact hlt
  have htarget : max (((num / den).log2 : Int) + (m.scale - k) - 52) (-1074) = m.scale - 1 := by
    omega
  cases k with
  | zero =>
      -- there is no finer scale, but the quotient is nearest to the magnitude all the same
      obtain ⟨em, hshift, hstands⟩ : ∃ em, _ = (em, m.scale - (0 : Nat) + (0 : Nat)) ∧ _ :=
        exists_stands hden htarget (by omega)
      have hrounded : em.roundedMantissa = m.units := by
        rw [hunits]
        apply hstands.roundedMantissa_eq hwide
        · omega
        · omega
        · intro hodd
          cases hodd
      rw [roundWithAccuracy_fits hshift hrounded m.units_pos m.units_lt (by omega)]
      exact Parts.finite_congr rfl rfl (by omega)
  | succ k =>
      obtain ⟨em, hshift, hstands⟩ : ∃ em, _ = (em, m.scale - (k + 1 : Nat) + k) ∧ _ :=
        exists_stands hden htarget (by omega)
      have hhalf : 0 < den * 2 ^ k := Nat.mul_pos hden (Nat.two_pow_pos k)
      have htwice : den * 2 ^ (k + 1) = 2 * (den * 2 ^ k) := by
        rw [Nat.pow_succ, ← Nat.mul_assoc, Nat.mul_comm]
      rw [htwice] at hlow hlt
      have hrounded : em.roundedMantissa = 2 ^ 53 := by
        apply hstands.roundedMantissa_eq hhalf
        · omega
        · omega
        · intro hodd
          cases hodd
      rw [roundWithAccuracy_carry hshift hrounded (by omega)]
      exact Parts.finite_congr rfl hunits.symm (by omega)

theorem roundWithAccuracy_eq (sign : Sign) (hden : 0 < den) (h : m.Attracts num (den * 2 ^ k)) :
    roundWithAccuracy .binary64 sign (num / den) (m.scale - k) (accuracyOfFraction (num % den) den) =
      .finite sign m.units m.scale m.units_pos := by
  by_cases hnear : -1074 < m.scale ∧ num < 2 ^ 52 * (den * 2 ^ k)
  · exact roundWithAccuracy_of_lt sign hden h hnear.1 hnear.2
  · apply roundWithAccuracy_of_le sign hden h
    intro hscale
    exact Nat.le_of_not_lt fun hlt => hnear ⟨hscale, hlt⟩

/-! ### Numbers that round to a magnitude -/

/-- A number rounds to a magnitude: it is at most half a unit away, or less below a power of two, and
in the middle between two magnitudes it goes to the one with even units. -/
structure Rounds (m : Magnitude) (x : ℚ) : Prop where
  low : (m.units - m.below / 4) * 2 ^ m.scale ≤ x
  high : x ≤ (m.units + 1 / 2) * 2 ^ m.scale
  tie : m.units % 2 = 1 →
    x ≠ (m.units - m.below / 4) * 2 ^ m.scale ∧ x ≠ (m.units + 1 / 2) * 2 ^ m.scale

theorem rounds_iff (hden : 0 < den) :
    m.Rounds (num / den * 2 ^ m.scale) ↔ m.Attracts num den := by
  have hunit : (0 : ℚ) < 2 ^ m.scale := by positivity
  have hden' : (0 : ℚ) < den := by exact_mod_cast hden
  have hlow : (m.units - m.below / 4 : ℚ) * 2 ^ m.scale ≤ num / den * 2 ^ m.scale ↔
      4 * (m.units * den) ≤ 4 * num + m.below * den := by
    rw [mul_le_mul_iff_left₀ hunit, le_div_iff₀ hden', ← Nat.cast_le (α := ℚ)]
    push_cast
    constructor <;> intro h <;> linarith
  have hhigh : (num / den * 2 ^ m.scale : ℚ) ≤ (m.units + 1 / 2) * 2 ^ m.scale ↔
      4 * num ≤ 4 * (m.units * den) + 2 * den := by
    rw [mul_le_mul_iff_left₀ hunit, div_le_iff₀ hden', ← Nat.cast_le (α := ℚ)]
    push_cast
    constructor <;> intro h <;> linarith
  have hlowtie : (num / den * 2 ^ m.scale : ℚ) = (m.units - m.below / 4) * 2 ^ m.scale ↔
      4 * (m.units * den) = 4 * num + m.below * den := by
    rw [mul_left_inj' hunit.ne', div_eq_iff hden'.ne', ← Nat.cast_inj (R := ℚ)]
    push_cast
    constructor <;> intro h <;> linarith
  have hhightie : (num / den * 2 ^ m.scale : ℚ) = (m.units + 1 / 2) * 2 ^ m.scale ↔
      4 * num = 4 * (m.units * den) + 2 * den := by
    rw [mul_left_inj' hunit.ne', div_eq_iff hden'.ne', ← Nat.cast_inj (R := ℚ)]
    push_cast
    constructor <;> intro h <;> linarith
  constructor
  · intro h
    exact ⟨hlow.1 h.low, hhigh.1 h.high, fun hodd => ⟨mt hlowtie.2 (h.tie hodd).1,
      mt hhightie.2 (h.tie hodd).2⟩⟩
  · intro h
    exact ⟨hlow.2 h.low, hhigh.2 h.high, fun hodd => ⟨mt hlowtie.1 (h.tie hodd).1,
      mt hhightie.1 (h.tie hodd).2⟩⟩

theorem Rounds.lt {x : ℚ} (h : m.Rounds x) : x < 2 ^ (m.scale + 53) := by
  have hunit : (0 : ℚ) < 2 ^ m.scale := by positivity
  have hunits : (m.units : ℚ) + 1 ≤ 2 ^ 53 := by exact_mod_cast m.units_lt
  have hhigh := h.high
  rw [zpow_add₀ two_ne_zero, mul_comm]
  refine lt_of_le_of_lt hhigh ?_
  rw [mul_comm, mul_comm _ ((2 : ℚ) ^ m.scale)]
  exact mul_lt_mul_of_pos_left (by norm_num at hunits ⊢; linarith) hunit

theorem Rounds.le {x : ℚ} (h : m.Rounds x) : 2 ^ (m.scale - 1) ≤ x := by
  have hunit : (0 : ℚ) < 2 ^ m.scale := by positivity
  have hunits : (1 : ℚ) ≤ m.units := by exact_mod_cast m.units_pos
  have hbelow : (m.below : ℚ) ≤ 2 := by exact_mod_cast m.below_le_two
  apply le_trans _ h.low
  rw [zpow_sub₀ two_ne_zero, zpow_one, div_eq_mul_inv, mul_comm]
  exact mul_le_mul_of_nonneg_right (by linarith) hunit.le

/-- A number of at least `2 ^ n` rounds to a magnitude of a scale above `n - 53`. -/
theorem Rounds.lt_scale {x : ℚ} {n : Int} (h : m.Rounds x) (hle : 2 ^ n ≤ x) :
    n < m.scale + 53 :=
  (zpow_lt_zpow_iff_right₀ one_lt_two).1 (lt_of_le_of_lt hle h.lt)

/-! ### Products and quotients -/

theorem zpow_scale {exponent scale : Int} {k : Nat} (hexponent : exponent = scale - k) :
    (2 : ℚ) ^ exponent = 2 ^ scale / 2 ^ k := by
  rw [hexponent, zpow_sub₀ two_ne_zero, zpow_natCast]

theorem mul_eq (sign₁ sign₂ : Sign) {units₁ units₂ : Nat} {scale₁ scale₂ : Int} (hpos₁ : 0 < units₁)
    (hpos₂ : 0 < units₂) (hwide : 2 ^ 53 ≤ units₁ * units₂)
    (h : m.Rounds (units₁ * 2 ^ scale₁ * (units₂ * 2 ^ scale₂))) :
    mul .binary64 (.finite sign₁ units₁ scale₁ hpos₁) (.finite sign₂ units₂ scale₂ hpos₂) =
      .finite (sign₁ * sign₂) m.units m.scale m.units_pos := by
  have hvalue : (units₁ * 2 ^ scale₁ * (units₂ * 2 ^ scale₂) : ℚ) =
      (units₁ * units₂ : Nat) * 2 ^ (scale₁ + scale₂) := by
    rw [zpow_add₀ two_ne_zero]
    push_cast
    ring
  rw [hvalue] at h
  have hlarge : (2 : ℚ) ^ (scale₁ + scale₂ + 53) ≤ (units₁ * units₂ : Nat) * 2 ^ (scale₁ + scale₂) := by
    rw [zpow_add₀ two_ne_zero, mul_comm]
    exact mul_le_mul_of_nonneg_right (by exact_mod_cast hwide) (by positivity)
  have hscale := h.lt_scale hlarge
  obtain ⟨k, hk⟩ := Int.le.dest (show scale₁ + scale₂ ≤ m.scale by omega)
  have hexponent : scale₁ + scale₂ = m.scale - k := by omega
  rw [zpow_scale hexponent] at h
  have hattracts : m.Attracts (units₁ * units₂) (1 * 2 ^ k) := by
    apply (rounds_iff (Nat.mul_pos one_pos (Nat.two_pow_pos k))).1
    convert h using 1
    push_cast
    ring
  have hround := roundWithAccuracy_eq (sign₁ * sign₂) one_pos hattracts
  rw [Nat.div_one, Nat.mod_one, ← hexponent] at hround
  exact hround

/-- A quotient lies within a factor of two of what the lengths of its terms tell. -/
theorem two_zpow_le_div {units₁ units₂ : Nat} {scale₁ scale₂ : Int} (hpos₁ : 0 < units₁)
    (hpos₂ : 0 < units₂) :
    (2 : ℚ) ^ (totalExponent units₁ scale₁ - totalExponent units₂ scale₂ - 1) ≤
      units₁ * 2 ^ scale₁ / (units₂ * 2 ^ scale₂) := by
  have hlow : (2 : ℚ) ^ units₁.log2 ≤ units₁ := by
    exact_mod_cast Nat.log2_self_le (Nat.ne_of_gt hpos₁)
  have hhigh : (units₂ : ℚ) ≤ 2 ^ (units₂.log2 + 1) := by
    exact_mod_cast Nat.le_of_lt Nat.lt_log2_self
  have hpos : (0 : ℚ) < units₂ := by exact_mod_cast hpos₂
  have hpow : (2 : ℚ) ^ (totalExponent units₁ scale₁ - totalExponent units₂ scale₂ - 1) =
      2 ^ units₁.log2 * 2 ^ scale₁ / (2 ^ (units₂.log2 + 1) * 2 ^ scale₂) := by
    rw [← zpow_natCast, ← zpow_natCast, ← zpow_add₀ two_ne_zero, ← zpow_add₀ two_ne_zero,
      ← zpow_sub₀ two_ne_zero, totalExponent, totalExponent]
    congr 1
    push_cast
    ring
  rw [hpow]
  gcongr

theorem div_eq (sign₁ sign₂ : Sign) {units₁ units₂ : Nat} {scale₁ scale₂ : Int} (hpos₁ : 0 < units₁)
    (hpos₂ : 0 < units₂) (h : m.Rounds (units₁ * 2 ^ scale₁ / (units₂ * 2 ^ scale₂))) :
    div .binary64 (.finite sign₁ units₁ scale₁ hpos₁) (.finite sign₂ units₂ scale₂ hpos₂) =
      .finite (sign₁ / sign₂) m.units m.scale m.units_pos := by
  have hlarge := h.lt_scale (two_zpow_le_div hpos₁ hpos₂)
  have hleast := m.le_scale
  generalize htarget : min (scale₁ - scale₂) (Format.binary64.targetExponent
    (totalExponent units₁ scale₁ - totalExponent units₂ scale₂)) = target
  have hle : target ≤ m.scale := by
    rw [Format.targetExponent, show (Format.binary64.mantissaBits : Int) = 53 from rfl,
      show Format.binary64.minExponent = -1074 from rfl] at htarget
    omega
  obtain ⟨k, hk⟩ := Int.le.dest hle
  obtain ⟨shift, hshift⟩ := Int.le.dest (show target ≤ scale₁ - scale₂ by omega)
  have hexponent : target = m.scale - k := by omega
  have hattracts : m.Attracts (units₁ * 2 ^ shift) (units₂ * 2 ^ k) := by
    apply (rounds_iff (Nat.mul_pos hpos₂ (Nat.two_pow_pos k))).1
    have hpow : (2 : ℚ) ^ shift * 2 ^ m.scale * 2 ^ scale₂ = 2 ^ scale₁ * 2 ^ k := by
      rw [← zpow_natCast, ← zpow_natCast, ← zpow_add₀ two_ne_zero, ← zpow_add₀ two_ne_zero,
        ← zpow_add₀ two_ne_zero]
      congr 1
      omega
    have hpos : (0 : ℚ) < units₂ := by exact_mod_cast hpos₂
    convert h using 1
    rw [div_mul_eq_mul_div, div_eq_div_iff (by positivity) (by positivity)]
    push_cast
    linear_combination (units₁ * units₂ : ℚ) * hpow
  have hround := roundWithAccuracy_eq (sign₁ / sign₂) hpos₂ hattracts
  rw [UnpackedFloat.div, divCore]
  dsimp only
  rw [htarget, show (scale₁ - scale₂ - target).toNat = shift by omega, Nat.shiftLeft_eq, hexponent]
  exact hround

/-! ### Decimals -/

theorem zpow_eq_div {a : ℚ} (ha : a ≠ 0) (n : Int) :
    a ^ n = a ^ n.toNat / a ^ (-n).toNat := by
  rw [← zpow_natCast, ← zpow_natCast, ← zpow_sub₀ ha]
  congr 1
  omega

theorem Rounds.place_le {digits : Nat} {place : Int} (h : m.Rounds (digits * 10 ^ place))
    (hpos : 0 < digits) : place ≤ 2048 := by
  by_contra hgt
  have hscale := m.scale_le
  have hdigits : (1 : ℚ) ≤ digits := by exact_mod_cast hpos
  have hlarge : (2 : ℚ) ^ (1024 : Int) ≤ digits * 10 ^ place := calc
    (2 : ℚ) ^ (1024 : Int) ≤ 10 ^ (1024 : Int) := by
      apply zpow_le_zpow_left₀ <;> norm_num
    _ ≤ 10 ^ place := zpow_le_zpow_right₀ (by norm_num) (by omega)
    _ ≤ digits * 10 ^ place := le_mul_of_one_le_left (by positivity) hdigits
  have := h.lt_scale hlarge
  omega

theorem Rounds.le_place {digits : Nat} {place : Int} (h : m.Rounds (digits * 10 ^ place)) :
    -(2048 + digits.log2 : Int) ≤ place := by
  by_contra hlt
  have hscale := m.le_scale
  have hdigits : (digits : ℚ) ≤ 2 ^ (digits.log2 + 1 : Int) := by
    exact_mod_cast Nat.le_of_lt Nat.lt_log2_self
  have hplace : (10 : ℚ) ^ place ≤ 2 ^ place := by
    obtain ⟨n, rfl⟩ : ∃ n : Nat, place = -n := ⟨place.natAbs, by omega⟩
    rw [zpow_neg, zpow_neg, zpow_natCast, zpow_natCast]
    gcongr
    norm_num
  have hsmall : (digits * 10 ^ place : ℚ) ≤ 2 ^ (digits.log2 + 1 + place : Int) := by
    rw [zpow_add₀ two_ne_zero]
    gcongr
  have hle := (zpow_le_zpow_iff_right₀ one_lt_two).1 (h.le.trans hsmall)
  omega

theorem ofScientific_eq {digits : Nat} {place : Int} (hpos : 0 < digits)
    (h : m.Rounds (digits * 10 ^ place)) :
    UnpackedFloat.ofScientific .binary64 digits place = m.unpacked false := by
  have hlow := h.le_place
  have hhigh := h.place_le hpos
  have hshift : digits <<< Format.binary64.mantissaBits = digits * 2 ^ 53 :=
    Nat.shiftLeft_eq digits 53
  rw [UnpackedFloat.ofScientific, dif_neg (Nat.ne_of_gt hpos), if_neg (by norm_num; omega),
    if_neg (by norm_num; omega)]
  split
  next hplace =>
    apply mul_eq
    · rw [hshift, Nat.mul_right_comm]
      exact Nat.le_mul_of_pos_left _ (Nat.mul_pos hpos (Nat.pow_pos (by decide)))
    · have hvalue : ((digits <<< Format.binary64.mantissaBits : Nat) *
          2 ^ (-Format.binary64.mantissaBits : Int) * ((10 ^ place.toNat : Nat) * 2 ^ (0 : Int)) : ℚ) =
          digits * 10 ^ place := by
        rw [hshift, zpow_eq_div (by norm_num : (10 : ℚ) ≠ 0), show (-place).toNat = 0 by omega,
          show (Format.binary64.mantissaBits : Int) = (53 : Nat) from rfl, zpow_neg, zpow_natCast]
        push_cast
        field_simp
        norm_num
      rw [hvalue]
      exact h
  next hplace =>
    apply div_eq
    have hvalue : (digits * 2 ^ (0 : Int) / ((10 ^ (-place).toNat : Nat) * 2 ^ (0 : Int)) : ℚ) =
        digits * 10 ^ place := by
      rw [zpow_eq_div (by norm_num : (10 : ℚ) ≠ 0), show place.toNat = 0 by omega]
      push_cast
      field_simp
    rw [hvalue]
    exact h

theorem shifted_bounds {n : Nat} (hpos : 0 < n) (hlt : n < 2 ^ 53) :
    n.log2 ≤ 52 ∧ 2 ^ 52 ≤ n * 2 ^ (52 - n.log2) ∧ n * 2 ^ (52 - n.log2) < 2 ^ 53 := by
  have hlog : n.log2 < 53 := (Nat.log2_lt (Nat.ne_of_gt hpos)).2 hlt
  refine ⟨by omega, ?_, ?_⟩
  · calc 2 ^ 52 = 2 ^ n.log2 * 2 ^ (52 - n.log2) := by rw [← Nat.pow_add]; congr 1; omega
      _ ≤ n * 2 ^ (52 - n.log2) := Nat.mul_le_mul_right _ (Nat.log2_self_le (Nat.ne_of_gt hpos))
  · calc n * 2 ^ (52 - n.log2) < 2 ^ (n.log2 + 1) * 2 ^ (52 - n.log2) :=
          Nat.mul_lt_mul_of_pos_right Nat.lt_log2_self (Nat.two_pow_pos _)
      _ = 2 ^ 53 := by rw [← Nat.pow_add]; congr 1; omega

/-- The magnitude of a whole number that fits 53 bits. -/
def ofNat (n : Nat) (hpos : 0 < n) (hlt : n < 2 ^ 53) : Magnitude where
  units := n * 2 ^ (52 - n.log2)
  scale := n.log2 - 52
  units_pos := Nat.mul_pos hpos (Nat.two_pow_pos _)
  units_lt := (shifted_bounds hpos hlt).2.2
  le_scale := by omega
  scale_le := by
    have hlog := (shifted_bounds hpos hlt).1
    omega
  normal _ := (shifted_bounds hpos hlt).2.1

theorem attracts_self (m : Magnitude) : m.Attracts m.units 1 := by
  have hbelow : 0 < m.below := by
    rw [below]
    split <;> decide
  constructor <;> omega

theorem toFloat_ofNat {n : Nat} (hpos : 0 < n) (hlt : n < 2 ^ 53) :
    n.toUInt64.toFloat = (ofNat n hpos hlt).toFloat false := by
  have htoNat : n.toUInt64.toNat = n := by
    rw [Nat.toUInt64, UInt64.toNat_ofNat']
    omega
  have hlog := (shifted_bounds hpos hlt).1
  have htarget : Format.binary64.targetExponent (totalExponent n 0) = n.log2 - 52 := by
    rw [targetExponent_eq]
    omega
  have hround := roundWithAccuracy_eq (k := 0) .positive one_pos
    (ofNat n hpos hlt).attracts_self
  rw [Nat.div_one, Nat.mod_one, Nat.cast_zero, sub_zero] at hround
  change Float.ofModel
    (.pack (UnpackedFloat.normalize .binary64 (n.toUInt64.toNat : Int) 0 .positive)) = _
  rw [htoNat, UnpackedFloat.normalize,
    show compare (n : Int) 0 = .gt from Int.compare_eq_gt.2 (by omega)]
  dsimp only
  rw [UnpackedFloat.round, Int.toNat_natCast, htarget, decreaseExponent, Nat.shiftLeft_eq,
    show (0 - ((n.log2 : Int) - 52)).toNat = 52 - n.log2 by omega,
    show 0 - ((52 - n.log2 : Nat) : Int) = n.log2 - 52 by omega]
  exact congrArg (fun unpacked => Float.ofModel (.pack unpacked)) hround

/-- The units of a power of ten, at the scale where they fill 53 bits. -/
def powerUnits (place : Nat) : Nat :=
  10 ^ place * 2 ^ 52 / 2 ^ (10 ^ place).log2

/-- The powers of ten in the table are exact. -/
theorem exists_powerOfTen (place : Fin 23) :
    ∃ m : Magnitude, Float.exactlyRepresentablePowersOfTen[place.val] = m.toFloat false ∧
      2 ^ 52 ≤ m.units ∧ (m.units * 2 ^ m.scale : ℚ) = 10 ^ place.val := by
  have htable : ∀ place : Fin 23,
      Parts.ofFloat Float.exactlyRepresentablePowersOfTen[place.val] =
        .finite false (powerUnits place) ((10 ^ place.val : Nat).log2 - 52) ∧
      2 ^ 52 ≤ powerUnits place ∧
      powerUnits place * 2 ^ (10 ^ place.val).log2 = 10 ^ place.val * 2 ^ 52 := by
    decide +kernel
  obtain ⟨hparts, hlarge, hexact⟩ := htable place
  obtain ⟨m, hunits, hscale, hfloat⟩ :=
    exists_magnitude hparts (Nat.lt_of_lt_of_le (Nat.two_pow_pos 52) hlarge)
  refine ⟨m, hfloat, hunits ▸ hlarge, ?_⟩
  have hexact' : (powerUnits place * 2 ^ (10 ^ place.val).log2 : ℚ) = 10 ^ place.val * 2 ^ 52 := by
    exact_mod_cast hexact
  rw [hunits, hscale, zpow_sub₀ two_ne_zero, zpow_natCast, ← mul_div_assoc, hexact']
  norm_num

theorem value_ofNat {n : Nat} (hpos : 0 < n) (hlt : n < 2 ^ 53) :
    ((ofNat n hpos hlt).units * 2 ^ (ofNat n hpos hlt).scale : ℚ) = n := by
  have hlog := (shifted_bounds hpos hlt).1
  have hpow : (2 : ℚ) ^ (52 - n.log2) * 2 ^ (n.log2 - 52 : Int) = 1 := by
    rw [← zpow_natCast, ← zpow_add₀ two_ne_zero, show ((52 - n.log2 : Nat) : Int) +
      (n.log2 - 52) = 0 by omega, zpow_zero]
  simp only [ofNat]
  push_cast
  rw [mul_assoc, hpow, mul_one]

theorem mul_toFloat {one other : Magnitude} (hwide : 2 ^ 53 ≤ one.units * other.units)
    (h : m.Rounds (one.units * 2 ^ one.scale * (other.units * 2 ^ other.scale))) :
    one.toFloat false * other.toFloat false = m.toFloat false := by
  have hmul := mul_eq .positive .positive one.units_pos other.units_pos hwide h
  change Float.ofModel (.pack (UnpackedFloat.mul .binary64 (one.toFloat false).toModel.unpack
    (other.toFloat false).toModel.unpack)) = _
  rw [unpack_toFloat, unpack_toFloat]
  exact congrArg (fun unpacked => Float.ofModel (.pack unpacked)) hmul

theorem div_toFloat {one other : Magnitude}
    (h : m.Rounds (one.units * 2 ^ one.scale / (other.units * 2 ^ other.scale))) :
    one.toFloat false / other.toFloat false = m.toFloat false := by
  have hdiv := div_eq .positive .positive one.units_pos other.units_pos h
  change Float.ofModel (.pack (UnpackedFloat.div .binary64 (one.toFloat false).toModel.unpack
    (other.toFloat false).toModel.unpack)) = _
  rw [unpack_toFloat, unpack_toFloat]
  exact congrArg (fun unpacked => Float.ofModel (.pack unpacked)) hdiv

theorem ofScientific_toFloat {digits : Nat} {place : Int} (hpos : 0 < digits)
    (h : m.Rounds (digits * 10 ^ place)) :
    Float.ofScientific digits (place < 0) place.natAbs = m.toFloat false := by
  rw [Float.ofScientific]
  split
  next hexact =>
    obtain ⟨power, hpower, hlarge, hvalue⟩ :=
      exists_powerOfTen ⟨place.natAbs, Nat.lt_succ_of_le hexact.2⟩
    dsimp only at hpower hvalue
    rw [hpower, toFloat_ofNat hpos hexact.1]
    by_cases hplace : place < 0
    · rw [if_pos (decide_eq_true hplace)]
      apply div_toFloat
      rw [value_ofNat, hvalue]
      convert h using 1
      rw [div_eq_mul_inv, ← zpow_natCast, ← zpow_neg]
      congr 2
      omega
    · rw [if_neg (by rw [decide_eq_false hplace]; decide)]
      apply mul_toFloat
      · have hfull := (shifted_bounds hpos hexact.1).2.1
        calc 2 ^ 53 ≤ 2 ^ 52 * 2 ^ 52 := by decide
          _ ≤ (ofNat digits hpos hexact.1).units * power.units := Nat.mul_le_mul hfull hlarge
      · rw [value_ofNat, hvalue]
        convert h using 1
        rw [← zpow_natCast]
        congr 2
        omega
  next =>
    have hplace : (if decide (place < 0) = true then Int.negOfNat place.natAbs
        else Int.ofNat place.natAbs) = place := by
      by_cases hneg : place < 0
      · rw [if_pos (decide_eq_true hneg), Int.negOfNat_eq, Int.ofNat_eq_natCast]
        omega
      · rw [if_neg (by rw [decide_eq_false hneg]; decide), Int.ofNat_eq_natCast]
        omega
    rw [hplace]
    change Float.ofModel (.pack (UnpackedFloat.ofScientific .binary64 digits place)) = _
    rw [ofScientific_eq hpos h]
    rfl

end Magnitude

end TableScript
