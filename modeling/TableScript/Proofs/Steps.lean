import TableScript.Number.Whole
import TableScript.Proofs.Magnitude

/-!
Finite doubles as whole numbers. Each is a multiple of the least positive one, so its parts come down to
one integer: how many steps of that size it is away from zero. Doubles compare as their steps do.
-/

namespace TableScript

open Float.Model Float.Model.UnpackedFloat

/-- A size with its sign. -/
def withSign : Bool → Nat → Int
  | false, size => size
  | true, size => -size

/-- How many times `2 ^ -1074` the parts are. -/
def Parts.steps? : Parts → Option Int
  | .finite negative units scale => some (withSign negative (units * 2 ^ (scale + 1074).toNat))
  | _ => none

/-- How many steps of the least positive double lie between zero and a finite one. -/
def steps? (x : Float) : Option Int :=
  (Parts.ofFloat x).steps?

namespace Magnitude

def steps (m : Magnitude) : Nat :=
  m.units * 2 ^ (m.scale + 1074).toNat

theorem steps_pos (m : Magnitude) : 0 < m.steps :=
  Nat.mul_pos m.units_pos (Nat.two_pow_pos _)

@[simp]
theorem steps?_toFloat (m : Magnitude) (negative : Bool) :
    steps? (m.toFloat negative) = some (withSign negative m.steps) := by
  rw [steps?, ofFloat_toFloat]
  rfl

/-- A larger scale outweighs the units. -/
theorem steps_lt_steps {m m' : Magnitude} (h : m.scale < m'.scale) : m.steps < m'.steps := by
  have hlow := m.le_scale
  obtain ⟨k, hk⟩ := Int.le.dest h
  have hshift : (m'.scale + 1074).toNat = (m.scale + 1074).toNat + 1 + k := by omega
  calc m.steps < 2 ^ 53 * 2 ^ (m.scale + 1074).toNat :=
        Nat.mul_lt_mul_of_pos_right m.units_lt (Nat.two_pow_pos _)
    _ = 2 ^ 52 * 2 ^ ((m.scale + 1074).toNat + 1) := by rw [Nat.pow_succ, Nat.pow_succ]; ring
    _ ≤ m'.units * 2 ^ (m'.scale + 1074).toNat := by
        apply Nat.mul_le_mul (m'.normal (by omega))
        rw [hshift]
        exact Nat.pow_le_pow_right (by decide) (Nat.le_add_right _ _)

/-- Magnitudes compare by their scales and then by their units, which is as their steps compare. -/
theorem compare_steps (m m' : Magnitude) :
    (compare m.scale m'.scale).then (compare m.units m'.units) = compare m.steps m'.steps := by
  rcases lt_trichotomy m.scale m'.scale with h | h | h
  · rw [Int.compare_eq_lt.2 h, Nat.compare_eq_lt.2 (steps_lt_steps h)]
    rfl
  · rw [Int.compare_eq_eq.2 h, steps, steps, h]
    have hpos : 0 < 2 ^ (m'.scale + 1074).toNat := Nat.two_pow_pos _
    rcases lt_trichotomy m.units m'.units with hunits | hunits | hunits
    · rw [Nat.compare_eq_lt.2 hunits, Nat.compare_eq_lt.2 (Nat.mul_lt_mul_of_pos_right hunits hpos)]
      rfl
    · rw [hunits, Nat.compare_eq_eq.2 rfl, Nat.compare_eq_eq.2 rfl]
      rfl
    · rw [Nat.compare_eq_gt.2 hunits, Nat.compare_eq_gt.2 (Nat.mul_lt_mul_of_pos_right hunits hpos)]
      rfl
  · rw [Int.compare_eq_gt.2 h, Nat.compare_eq_gt.2 (steps_lt_steps h)]
    rfl

end Magnitude

/-- A finite double is a zero, or a magnitude with a sign. -/
theorem finite_cases {x : Float} {a : Int} (h : steps? x = some a) :
    (a = 0 ∧ ∃ negative scale, Parts.ofFloat x = .finite negative 0 scale) ∨
      ∃ (m : Magnitude) (negative : Bool), x = m.toFloat negative ∧ a = withSign negative m.steps := by
  rw [steps?] at h
  cases hparts : Parts.ofFloat x with
  | finite negative units scale =>
      rw [hparts, Parts.steps?] at h
      cases h
      rcases Nat.eq_zero_or_pos units with rfl | hpos
      · refine .inl ⟨?_, negative, scale, rfl⟩
        rw [Nat.zero_mul]
        cases negative <;> rfl
      · obtain ⟨m, rfl, rfl, hx⟩ := exists_magnitude hparts hpos
        exact .inr ⟨m, negative, hx, rfl⟩
  | infinite negative =>
      rw [hparts] at h
      cases h
  | notANumber =>
      rw [hparts] at h
      cases h

/-! ### Order -/

theorem lt_iff (x y : Float) :
    x < y ↔ (Parts.ofFloat x).unpacked.compare (Parts.ofFloat y).unpacked = some .lt := by
  rw [← Parts.unpack_toModel, ← Parts.unpack_toModel]
  exact decide_eq_true_iff.trans beq_iff_eq

theorem Magnitude.unpacked_ofFloat (m : Magnitude) (negative : Bool) :
    (Parts.ofFloat (m.toFloat negative)).unpacked = m.unpacked negative := by
  rw [← Parts.unpack_toModel, unpack_toFloat]

theorem compare_withSign (negative negative' : Bool) (m m' : Magnitude) :
    (m.unpacked negative).compare (m'.unpacked negative') =
      some (compare (withSign negative m.steps) (withSign negative' m'.steps)) := by
  have hsteps := m.compare_steps m'
  have hpos : (0 : Int) < m.steps := by exact_mod_cast m.steps_pos
  have hpos' : (0 : Int) < m'.steps := by exact_mod_cast m'.steps_pos
  cases negative with
  | false =>
      cases negative' with
      | false =>
          have hcompare : compare (m.steps : Int) m'.steps = compare m.steps m'.steps := by
            simp [Int.compare_eq_ite_lt, Nat.compare_eq_ite_lt]
          rw [withSign, withSign, hcompare, ← hsteps]
          rfl
      | true =>
          have hgt : compare (withSign false m.steps) (withSign true m'.steps) = .gt :=
            Int.compare_eq_gt.2 (by simp only [withSign]; omega)
          rw [hgt]
          rfl
  | true =>
      cases negative' with
      | false =>
          have hlt : compare (withSign true m.steps) (withSign false m'.steps) = .lt :=
            Int.compare_eq_lt.2 (by simp only [withSign]; omega)
          rw [hlt]
          rfl
      | true =>
          have hcompare : compare (-(m.steps : Int)) (-m'.steps) = (compare m.steps m'.steps).swap := by
            rw [Nat.compare_swap]
            simp [Int.compare_eq_ite_lt, Nat.compare_eq_ite_lt]
          rw [withSign, withSign, hcompare, ← hsteps]
          rfl

theorem Magnitude.zero_compare (m : Magnitude) (negative : Bool) :
    compare 0 (withSign negative m.steps) = if negative then .gt else .lt := by
  have hpos : (0 : Int) < m.steps := by exact_mod_cast m.steps_pos
  cases negative with
  | false => exact Int.compare_eq_lt.2 hpos
  | true => exact Int.compare_eq_gt.2 (by rw [withSign]; omega)

theorem compare_unpacked {x y : Float} {a b : Int} (hx : steps? x = some a) (hy : steps? y = some b) :
    (Parts.ofFloat x).unpacked.compare (Parts.ofFloat y).unpacked = some (compare a b) := by
  rcases finite_cases hx with ⟨rfl, negative, scale, hparts⟩ | ⟨m, negative, rfl, rfl⟩ <;>
    rcases finite_cases hy with ⟨rfl, negative', scale', hparts'⟩ | ⟨m', negative', rfl, rfl⟩
  · rw [hparts, hparts']
    rfl
  · rw [hparts, m'.unpacked_ofFloat, m'.zero_compare]
    cases negative' <;> rfl
  · rw [hparts', m.unpacked_ofFloat, ← Int.compare_swap, m.zero_compare]
    cases negative <;> rfl
  · rw [m.unpacked_ofFloat, m'.unpacked_ofFloat, compare_withSign]

variable {x y : Float} {a b : Int}

theorem lt_iff_steps (hx : steps? x = some a) (hy : steps? y = some b) : x < y ↔ a < b := by
  rw [lt_iff, compare_unpacked hx hy, Option.some.injEq, Int.compare_eq_lt]

theorem le_iff_steps (hx : steps? x = some a) (hy : steps? y = some b) : x ≤ y ↔ a ≤ b := by
  rw [le_iff, compare_unpacked hx hy, Option.any_some, Int.isLE_compare]

/-- What equals a finite double is finite, with as many steps. -/
theorem beq_iff_steps (hy : steps? y = some b) : (x == y) = true ↔ steps? x = some b := by
  cases hx : steps? x with
  | some a =>
      rw [beq_eq, compare_unpacked hx hy, beq_iff_eq, Option.some.injEq, Option.some.injEq,
        Int.compare_eq_eq]
  | none =>
      have hinfinite : ∀ negative, Parts.ofFloat x = .infinite negative → (x == y) = false := by
        intro negative hparts
        rw [beq_eq, hparts]
        rcases finite_cases hy with ⟨rfl, negative', scale, hparts'⟩ | ⟨m, negative', rfl, rfl⟩
        · rw [hparts']
          cases negative <;> rfl
        · rw [m.unpacked_ofFloat]
          cases negative <;> rfl
      have hother : (x == y) = false := by
        rw [steps?] at hx
        cases hparts : Parts.ofFloat x with
        | finite negative units scale =>
            rw [hparts] at hx
            cases hx
        | infinite negative => exact hinfinite negative hparts
        | notANumber =>
            rw [beq_eq, hparts]
            rfl
      simp [hother]

/-! ### Whole numbers -/

/-- The least scale is `-lowest`. As an exponent it is not to be computed with. -/
@[irreducible]
def lowest : Nat :=
  1074

/-- How many steps make up one. -/
def oneSteps : Nat :=
  2 ^ lowest

theorem oneSteps_pos : 0 < oneSteps :=
  Nat.two_pow_pos lowest

theorem oneSteps_eq {n m : Nat} (h : n + m = 1074) : oneSteps = 2 ^ n * 2 ^ m := by
  have hlowest : n + m = lowest := by
    unfold lowest
    exact h
  rw [oneSteps, ← Nat.pow_add, hlowest]

theorem natAbs_withSign (negative : Bool) (n : Nat) : (withSign negative n).natAbs = n := by
  cases negative <;> simp [withSign]

theorem withSign_mul (negative : Bool) (n m : Nat) :
    withSign negative (n * m) = withSign negative n * (m : Int) := by
  cases negative <;> simp [withSign]

theorem withSign_mul_inj {negative : Bool} {n : Nat} {k : Int} :
    withSign negative (n * oneSteps) = k * oneSteps ↔ withSign negative n = k := by
  have hne : (oneSteps : Int) ≠ 0 := by exact_mod_cast oneSteps_pos.ne'
  rw [withSign_mul, mul_left_inj' hne]

theorem withSign_eq_ite (negative : Bool) (n : Nat) :
    (if negative then -(n : Int) else n) = withSign negative n := by
  cases negative <;> rfl

theorem Parts.le_scale {negative : Bool} {units : Nat} {scale : Int}
    (h : Parts.ofFloat x = .finite negative units scale) : -1074 ≤ scale := by
  rw [ofFloat, ofBits] at h
  split at h
  · split at h <;> cases h
  · split at h
    · cases h
      exact le_rfl
    · cases h
      omega

theorem Parts.integer?_eq_some_iff {negative : Bool} {units : Nat} {scale k : Int}
    (hscale : -1074 ≤ scale) :
    (Parts.finite negative units scale).integer? = some k ↔
      (Parts.finite negative units scale).steps? = some (k * oneSteps) := by
  obtain ⟨shift, hshift⟩ := Int.eq_ofNat_of_zero_le (show 0 ≤ scale + 1074 by omega)
  rw [steps?, Option.some.injEq, hshift, Int.toNat_natCast]
  cases scale with
  | ofNat up =>
      rw [Int.ofNat_eq_natCast] at hshift
      obtain ⟨n, rfl⟩ : ∃ n, shift = up + n := ⟨shift - up, by omega⟩
      have hone : oneSteps = 2 ^ n * 2 ^ 0 := oneSteps_eq (by omega)
      rw [Nat.pow_zero, Nat.mul_one] at hone
      rw [integer?, Option.some.injEq, Nat.pow_eq, withSign_eq_ite, Nat.pow_add, ← Nat.mul_assoc, ← hone,
        withSign_mul_inj]
  | negSucc less =>
      have hone : oneSteps = 2 ^ (less + 1) * 2 ^ shift := oneSteps_eq (by omega)
      have hpos : 0 < 2 ^ (less + 1) := Nat.two_pow_pos _
      rw [integer?, Nat.pow_eq]
      by_cases hwhole : units % 2 ^ (less + 1) = 0
      · obtain ⟨n, rfl⟩ := Nat.dvd_of_mod_eq_zero hwhole
        rw [if_pos hwhole, Option.some.injEq, withSign_eq_ite, Nat.mul_div_cancel_left n hpos,
          Nat.mul_right_comm, ← hone, Nat.mul_comm, withSign_mul_inj]
      · rw [if_neg hwhole]
        refine ⟨nofun, fun h => absurd ?_ hwhole⟩
        have hsize : units * 2 ^ shift = k.natAbs * 2 ^ (less + 1) * 2 ^ shift := by
          rw [Nat.mul_assoc, ← hone, ← Int.natAbs_natCast oneSteps, ← Int.natAbs_mul, ← h,
            natAbs_withSign]
        rw [Nat.eq_of_mul_eq_mul_right (Nat.two_pow_pos shift) hsize]
        exact Nat.mul_mod_left _ _

/-- A double is a whole number if its steps make up whole ones. -/
theorem integer?_eq_some_iff {k : Int} :
    Number.integer? x = some k ↔ steps? x = some (k * oneSteps) := by
  rw [Number.integer?, steps?]
  cases hparts : Parts.ofFloat x with
  | finite negative units scale => exact Parts.integer?_eq_some_iff (Parts.le_scale hparts)
  | infinite negative => simp [Parts.integer?, Parts.steps?]
  | notANumber => simp [Parts.integer?, Parts.steps?]

end TableScript
