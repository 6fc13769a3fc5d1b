import TableScript.Number.Shortest
import TableScript.Proofs.Rounding

/-!
The shortest decimal of a double reads back. A decimal lies in the interval of a double exactly if it
rounds to that double; the search for one ends with a hit, since its last grid is finer than half a
unit.
-/

namespace TableScript

namespace Shortest

variable {m : Magnitude} {i : Interval} {n d : Nat}

/-- An interval that is given in quarters of units holds what rounds to the magnitude. -/
theorem holds_iff (hlow : i.low = (4 * m.units - m.below) * d)
    (hhigh : i.high = (4 * m.units + 2) * d) (hclosed : i.closed = decide (m.units % 2 = 0)) :
    i.holds n = true ↔ m.Attracts n (4 * d) := by
  have hmul : m.below * d ≤ 4 * (m.units * d) := by
    rw [← Nat.mul_assoc]
    apply Nat.mul_le_mul_right
    have hpos := m.units_pos
    have hbelow := m.below_le_two
    omega
  rw [Nat.sub_mul, Nat.mul_assoc] at hlow
  rw [Nat.add_mul, Nat.mul_assoc] at hhigh
  have hattracts : m.Attracts n (4 * d) ↔ 4 * (m.units * d) ≤ n + m.below * d ∧
      n ≤ 4 * (m.units * d) + 2 * d ∧ (m.units % 2 = 1 →
        4 * (m.units * d) ≠ n + m.below * d ∧ n ≠ 4 * (m.units * d) + 2 * d) := by
    have hunits : m.units * (4 * d) = 4 * (m.units * d) := Nat.mul_left_comm _ _ _
    have hbelow : m.below * (4 * d) = 4 * (m.below * d) := Nat.mul_left_comm _ _ _
    constructor
    · rintro ⟨hlow, hhigh, htie⟩
      rw [hunits] at hlow hhigh htie
      rw [hbelow] at hlow htie
      omega
    · rintro ⟨hlow, hhigh, htie⟩
      constructor <;> rw [hunits] <;> omega
  rw [hattracts, Interval.holds, hlow, hhigh, hclosed]
  by_cases heven : m.units % 2 = 0
  · rw [if_pos (decide_eq_true heven), Bool.and_eq_true, decide_eq_true_iff, decide_eq_true_iff]
    omega
  · rw [if_neg (by rw [decide_eq_false heven]; decide), Bool.and_eq_true, decide_eq_true_iff,
      decide_eq_true_iff]
    omega

/-- The interval of a magnitude over the denominator of a grid. -/
def scaled (m : Magnitude) (place : Int) : Interval :=
  let i := interval m.units m.scale
  let grow := Nat.pow 10 (-place).toNat
  { i with value := i.value * grow, low := i.low * grow, high := i.high * grow }

/-- What one step of a grid is over that denominator. -/
def gridStep (m : Magnitude) (place : Int) : Nat :=
  (interval m.units m.scale).denominator * Nat.pow 10 place.toNat

/-- One quarter of a unit over that denominator. -/
def quarter (m : Magnitude) (place : Int) : Nat :=
  2 ^ m.scale.toNat * 10 ^ (-place).toNat

theorem scaled_holds_iff (m : Magnitude) (place : Int) (n : Nat) :
    (scaled m place).holds n = true ↔ m.Attracts n (4 * quarter m place) := by
  apply holds_iff
  · exact Nat.mul_assoc _ _ _
  · exact Nat.mul_assoc _ _ _
  · rfl

theorem quarter_pos (m : Magnitude) (place : Int) : 0 < quarter m place :=
  Nat.mul_pos (Nat.two_pow_pos _) (Nat.pow_pos (by decide))

/-- The points of a grid that the scaled interval holds are the decimals that round to the
magnitude. -/
theorem attracts_grid_iff (m : Magnitude) (place : Int) (digits : Nat) :
    m.Attracts (digits * gridStep m place) (4 * quarter m place) ↔
      m.Rounds (digits * 10 ^ place) := by
  rw [← Magnitude.rounds_iff (Nat.mul_pos (by decide) (quarter_pos m place))]
  have hvalue : ((digits * gridStep m place : Nat) / (4 * quarter m place : Nat) * 2 ^ m.scale : ℚ) =
      digits * 10 ^ place := by
    rw [Magnitude.zpow_eq_div two_ne_zero m.scale,
      Magnitude.zpow_eq_div (by norm_num : (10 : ℚ) ≠ 0) place, gridStep, quarter, interval]
    simp only [Nat.pow_eq]
    push_cast
    field_simp
  rw [hvalue]

theorem onGrid_eq (m : Magnitude) (place : Int) :
    onGrid (interval m.units m.scale) place =
      let i := scaled m place
      let step := gridStep m place
      let down := i.value / step
      let up := down + 1
      match 0 < down && i.holds (down * step), i.holds (up * step) with
      | true, true => if i.value - down * step < up * step - i.value then some down else some up
      | true, false => some down
      | false, true => some up
      | false, false => none :=
  rfl

theorem onGrid_rounds {place : Int} {digits : Nat}
    (h : onGrid (interval m.units m.scale) place = some digits) :
    0 < digits ∧ m.Rounds (digits * 10 ^ place) := by
  rw [← attracts_grid_iff, ← scaled_holds_iff]
  have hdown : ∀ down : Nat, (decide (0 < down) && (scaled m place).holds (down * gridStep m place)) =
      true → 0 < down ∧ (scaled m place).holds (down * gridStep m place) = true := by
    intro down hholds
    rwa [Bool.and_eq_true, decide_eq_true_iff] at hholds
  rw [onGrid_eq] at h
  dsimp only at h
  split at h
  next hlower hupper =>
    split at h
    · cases h
      exact hdown _ hlower
    · cases h
      exact ⟨Nat.succ_pos _, hupper⟩
  next hlower hupper =>
    cases h
    exact hdown _ hlower
  next hlower hupper =>
    cases h
    exact ⟨Nat.succ_pos _, hupper⟩
  next => cases h

/-- On a grid finer than half a unit there is a decimal that rounds to the magnitude. -/
theorem onGrid_isSome {place : Int} (hfine : 2 * (10 : ℚ) ^ place < 2 ^ m.scale) :
    (onGrid (interval m.units m.scale) place).isSome := by
  have hstep : gridStep m place < 2 * quarter m place := by
    rw [Magnitude.zpow_eq_div two_ne_zero m.scale,
      Magnitude.zpow_eq_div (by norm_num : (10 : ℚ) ≠ 0) place, ← mul_div_assoc,
      div_lt_div_iff₀ (by positivity) (by positivity)] at hfine
    have hnat : 2 * 10 ^ place.toNat * 2 ^ (-m.scale).toNat <
        2 ^ m.scale.toNat * 10 ^ (-place).toNat := by
      exact_mod_cast hfine
    simp only [gridStep, interval, quarter, Nat.pow_eq]
    linarith
  have hvalue : (scaled m place).value = 4 * m.units * quarter m place := by
    simp only [scaled, interval, quarter, Nat.pow_eq]
    ring
  have hpos : 0 < gridStep m place :=
    Nat.mul_pos (Nat.mul_pos (by decide) (Nat.two_pow_pos _)) (Nat.pow_pos (by decide))
  have hupper : (scaled m place).holds
      (((scaled m place).value / gridStep m place + 1) * gridStep m place) = true := by
    rw [scaled_holds_iff]
    have hdiv := Nat.div_add_mod (scaled m place).value (gridStep m place)
    have hmod := Nat.mod_lt (scaled m place).value hpos
    rw [Nat.add_mul, Nat.one_mul, Nat.mul_comm (_ / _)]
    rw [Nat.mul_assoc] at hvalue
    have hassoc : m.units * (4 * quarter m place) = 4 * (m.units * quarter m place) :=
      Nat.mul_left_comm _ _ _
    constructor
    · rw [hassoc]; omega
    · rw [hassoc]; omega
    · rw [hassoc]; omega
  rw [onGrid_eq]
  dsimp only
  rw [hupper]
  split
  · split <;> rfl
  · rfl
  · rfl
  next h => cases h

/-- A search that comes to a grid with a hit ends with a hit, there or before. -/
theorem search_eq_some {i : Interval} {count : Nat} {place : Int} {less : Nat} (hless : less < count)
    (h : (onGrid i (place - less)).isSome) :
    ∃ d, search i count place = some d ∧ onGrid i d.place = some d.digits := by
  induction count generalizing place less with
  | zero => exact absurd hless (Nat.not_lt_zero less)
  | succ count ih =>
      rw [search]
      cases hgrid : onGrid i place with
      | some digits => exact ⟨⟨digits, place⟩, rfl, hgrid⟩
      | none =>
          cases less with
          | zero =>
              rw [Nat.cast_zero, sub_zero, hgrid] at h
              cases h
          | succ less =>
              apply ih (Nat.lt_of_succ_lt_succ hless)
              rwa [show place - 1 - (less : Int) = place - (less + 1 : Nat) by omega]

/-- The last grid of the search is fine enough, for all the lengths that numbers can have. -/
theorem topPlace_fine (m : Magnitude) :
    2 * (10 : ℚ) ^ (topPlace m.units m.scale - 20) < 2 ^ m.scale := by
  have hlarge : ∀ bits < 1025, 2 ^ 54 * 10 ^ (bits * 30103 / 100000 + 1) < 2 ^ bits * 10 ^ 20 := by
    decide +kernel
  have hsmall : ∀ bits < 1074, 2 ^ (bits + 55) < 10 ^ ((bits + 1) * 30102 / 100000 + 20) := by
    decide +kernel
  have hlog : m.units.log2 < 53 := (Nat.log2_lt (Nat.ne_of_gt m.units_pos)).2 m.units_lt
  have hleast := m.le_scale
  have hmost := m.scale_le
  have hten : (10 : ℚ) ≠ 0 := by norm_num
  rw [topPlace]
  generalize hlength : (m.units.log2 : Int) + 1 + m.scale = length
  have hscale : (2 : ℚ) ^ (length - 53) ≤ 2 ^ m.scale :=
    zpow_le_zpow_right₀ one_le_two (by omega)
  refine lt_of_lt_of_le ?_ hscale
  cases length with
  | ofNat bits =>
      rw [Int.ofNat_eq_natCast] at hlength ⊢
      have hbits : (2 ^ 54 * 10 ^ (bits * 30103 / 100000 + 1) : ℚ) < 2 ^ bits * 10 ^ 20 := by
        exact_mod_cast hlarge bits (by omega)
      dsimp only
      rw [zpow_sub₀ hten, zpow_sub₀ two_ne_zero, zpow_natCast, zpow_natCast, zpow_ofNat, zpow_ofNat,
        ← mul_div_assoc, div_lt_div_iff₀ (by positivity) (by positivity)]
      calc (2 * 10 ^ (bits * 30103 / 100000 + 1) * 2 ^ 53 : ℚ)
          = 2 ^ 54 * 10 ^ (bits * 30103 / 100000 + 1) := by ring
        _ < 2 ^ bits * 10 ^ 20 := hbits
  | negSucc bits =>
      have hbits : (2 ^ (bits + 55) : ℚ) < 10 ^ ((bits + 1) * 30102 / 100000 + 20) := by
        exact_mod_cast hsmall bits (by omega)
      dsimp only
      rw [← neg_add', show (((bits + 1) * 30102 / 100000 : Nat) + 20 : Int) =
          ((bits + 1) * 30102 / 100000 + 20 : Nat) from rfl,
        show Int.negSucc bits - 53 = -((bits + 54 : Nat) : Int) by omega, zpow_neg, zpow_neg,
        zpow_natCast, zpow_natCast, ← div_eq_mul_inv, inv_eq_one_div,
        div_lt_div_iff₀ (by positivity) (by positivity), one_mul, ← pow_succ']
      exact hbits

/-- The shortest decimal of a magnitude rounds to it. -/
theorem decimal_rounds (m : Magnitude) :
    0 < (decimal m.units m.scale).digits ∧
      m.Rounds ((decimal m.units m.scale).digits * 10 ^ (decimal m.units m.scale).place) := by
  have hlast : (onGrid (interval m.units m.scale)
      (topPlace m.units m.scale - 1 - (19 : Nat))).isSome := by
    apply onGrid_isSome
    convert topPlace_fine m using 3
    omega
  obtain ⟨d, hsearch, hgrid⟩ := search_eq_some (by decide : 19 < 20) hlast
  rw [decimal, hsearch]
  exact onGrid_rounds hgrid

end Shortest

end TableScript
