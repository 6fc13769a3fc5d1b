import TableScript.Proofs.Sums

/-!
The order of all doubles. The finite ones compare as their steps do, the infinities lie before and after
them, and not-a-number compares with nothing. So every double that is a number has a rank among the
integers. Rounding keeps the order of ranks, and a sum is on the side of its first part that the second
points to.
-/

namespace TableScript

open Float.Model Float.Model.UnpackedFloat

/-- Every finite double is less than `2 ^ highest` steps from zero. As an exponent it is not to be computed
with. -/
@[irreducible]
def highest : Nat :=
  2098

/-- The rank of the positive infinity. -/
def topRank : Nat :=
  2 ^ highest

theorem topRank_pos : 0 < topRank :=
  Nat.two_pow_pos highest

theorem highest_eq : highest = 2098 := by
  unfold highest
  rfl

/-- The place of the parts in the order of doubles. -/
def Parts.rank? : Parts → Option Int
  | .infinite negative => some (withSign negative topRank)
  | parts => parts.steps?

/-- The place of a double in the order of doubles. Not-a-number has none. -/
def rank? (x : Float) : Option Int :=
  (Parts.ofFloat x).rank?

def infinity (negative : Bool) : Float :=
  .ofModel (.pack (.infinity (signOf negative)))

theorem ofFloat_infinity (negative : Bool) : Parts.ofFloat (infinity negative) = .infinite negative := by
  cases negative <;> decide +kernel

variable {x y : Float} {a b c : Int}

/-! ### Doubles by rank -/

theorem rank?_infinity (negative : Bool) : rank? (infinity negative) = some (withSign negative topRank) := by
  rw [rank?, ofFloat_infinity]
  rfl

theorem rank?_of_steps (h : steps? x = some a) : rank? x = some a := by
  rw [steps?] at h
  rw [rank?]
  cases hparts : Parts.ofFloat x with
  | finite negative units scale => rwa [hparts] at h
  | infinite negative =>
      rw [hparts] at h
      cases h
  | notANumber =>
      rw [hparts] at h
      cases h

theorem eq_infinity {negative : Bool} (h : Parts.ofFloat x = .infinite negative) :
    x = infinity negative := by
  have hbits := assemble_fields x.toBits.toNat_lt
  rw [Parts.ofFloat, Parts.ofBits] at h
  simp only [Nat.pow_eq] at h
  generalize x.toBits.toNat / 2 ^ 52 % 2 ^ 11 = high at h hbits
  generalize x.toBits.toNat % 2 ^ 52 = low at h hbits
  have hinfinity : (infinity negative).toBits.toNat = assemble negative 2047 0 := by
    cases negative <;> decide +kernel
  split at h
  next hhigh =>
    split at h
    next hlow =>
      cases h
      rw [hhigh, hlow] at hbits
      exact float_ext (hbits.trans hinfinity.symm)
    next => cases h
  next => split at h <;> cases h

theorem rank_cases (h : rank? x = some a) :
    (∃ negative, x = infinity negative ∧ a = withSign negative topRank) ∨ steps? x = some a := by
  rw [rank?] at h
  cases hparts : Parts.ofFloat x with
  | finite negative units scale =>
      rw [hparts] at h
      right
      rw [steps?, hparts]
      exact h
  | infinite negative =>
      rw [hparts] at h
      cases h
      exact .inl ⟨negative, eq_infinity hparts, rfl⟩
  | notANumber =>
      rw [hparts] at h
      cases h

theorem Magnitude.steps_lt_topRank (m : Magnitude) : m.steps < topRank := by
  have hscale := m.scale_le
  have hlow := m.le_scale
  calc m.steps < 2 ^ 53 * 2 ^ (m.scale + 1074).toNat :=
        Nat.mul_lt_mul_of_pos_right m.units_lt (Nat.two_pow_pos _)
    _ = 2 ^ (53 + (m.scale + 1074).toNat) := (Nat.pow_add 2 53 _).symm
    _ ≤ topRank := Nat.pow_le_pow_right (by decide) (by rw [highest_eq]; omega)

theorem natAbs_steps_lt (h : steps? x = some a) : a.natAbs < topRank := by
  rcases finite_cases h with ⟨rfl, -⟩ | ⟨m, negative, -, rfl⟩
  · exact topRank_pos
  · rw [natAbs_withSign]
    exact m.steps_lt_topRank

theorem natAbs_rank_le (h : rank? x = some a) : a.natAbs ≤ topRank := by
  rcases rank_cases h with ⟨negative, -, rfl⟩ | hsteps
  · rw [natAbs_withSign]
  · exact (natAbs_steps_lt hsteps).le

theorem Magnitude.eq_of_steps_eq {m m' : Magnitude} (h : m.steps = m'.steps) : m = m' := by
  have hscale : m.scale = m'.scale := by
    rcases lt_trichotomy m.scale m'.scale with hlt | heq | hgt
    · exact absurd h (steps_lt_steps hlt).ne
    · exact heq
    · exact absurd h (steps_lt_steps hgt).ne'
  rw [steps, steps, hscale] at h
  have hunits := Nat.eq_of_mul_eq_mul_right (Nat.two_pow_pos _) h
  cases m
  cases m'
  subst hscale hunits
  rfl

theorem withSign_inj {negative negative' : Bool} {n n' : Nat} (hpos : 0 < n)
    (h : withSign negative n = withSign negative' n') : negative = negative' ∧ n = n' := by
  cases negative <;> cases negative' <;> simp only [withSign] at h <;> simp <;> omega

/-- Only the two zeros share their rank. -/
theorem eq_of_rank_eq (hx : rank? x = some a) (hy : rank? y = some a) (hne : a ≠ 0) : x = y := by
  rcases rank_cases hx with ⟨negative, rfl, rfl⟩ | hx
  · rcases rank_cases hy with ⟨negative', rfl, hrank⟩ | hy
    · rw [(withSign_inj topRank_pos hrank).1]
    · have hlt := natAbs_steps_lt hy
      rw [natAbs_withSign] at hlt
      exact absurd hlt (lt_irrefl _)
  · rcases rank_cases hy with ⟨negative, rfl, rfl⟩ | hy
    · have hlt := natAbs_steps_lt hx
      rw [natAbs_withSign] at hlt
      exact absurd hlt (lt_irrefl _)
    · obtain ⟨m, negative, rfl, rfl⟩ := (finite_cases hx).resolve_left fun h => hne h.1
      obtain ⟨m', negative', rfl, hrank⟩ := (finite_cases hy).resolve_left fun h => hne h.1
      obtain ⟨rfl, hsteps⟩ := withSign_inj m.steps_pos hrank
      rw [Magnitude.eq_of_steps_eq hsteps]

theorem rank?_eq_none_iff : rank? x = none ↔ x.isNaN = true := by
  have hnan : x.isNaN = (Parts.ofFloat x).unpacked.isNaN := by
    rw [← Parts.unpack_toModel]
    rfl
  rw [hnan, rank?]
  cases Parts.ofFloat x with
  | finite negative units scale =>
      rw [Parts.unpacked]
      split <;> simp [Parts.rank?, Parts.steps?, UnpackedFloat.isNaN]
  | infinite negative => simp [Parts.rank?, Parts.unpacked, UnpackedFloat.isNaN]
  | notANumber => simp [Parts.rank?, Parts.steps?, Parts.unpacked, UnpackedFloat.isNaN]

theorem exists_rank (h : x.isNaN = false) : ∃ a, rank? x = some a := by
  apply Option.ne_none_iff_exists'.1
  rw [ne_eq, rank?_eq_none_iff, h]
  exact Bool.false_ne_true

/-! ### Comparison -/

theorem infinity_compare (negative : Bool) (hy : steps? y = some b) :
    (UnpackedFloat.infinity (signOf negative)).compare (Parts.ofFloat y).unpacked =
      some (compare (withSign negative topRank) b) := by
  have hlt := natAbs_steps_lt hy
  have hcompare : compare (withSign negative topRank) b = if negative then .lt else .gt := by
    cases negative with
    | false => exact Int.compare_eq_gt.2 (by rw [withSign]; omega)
    | true => exact Int.compare_eq_lt.2 (by rw [withSign]; omega)
  rw [hcompare]
  rcases finite_cases hy with ⟨-, negative', scale, hparts⟩ | ⟨m, negative', rfl, -⟩
  · rw [hparts]
    cases negative <;> rfl
  · rw [m.unpacked_ofFloat]
    cases negative <;> rfl

theorem compare_infinity (negative : Bool) (hx : steps? x = some a) :
    (Parts.ofFloat x).unpacked.compare (.infinity (signOf negative)) =
      some (compare a (withSign negative topRank)) := by
  have hlt := natAbs_steps_lt hx
  have hcompare : compare a (withSign negative topRank) = if negative then .gt else .lt := by
    cases negative with
    | false => exact Int.compare_eq_lt.2 (by rw [withSign]; omega)
    | true => exact Int.compare_eq_gt.2 (by rw [withSign]; omega)
  rw [hcompare]
  rcases finite_cases hx with ⟨-, negative', scale, hparts⟩ | ⟨m, negative', rfl, -⟩
  · rw [hparts]
    cases negative <;> rfl
  · rw [m.unpacked_ofFloat]
    cases negative <;> cases negative' <;> rfl

theorem compare_signOf (negative negative' : Bool) :
    compare (signOf negative) (signOf negative') =
      compare (withSign negative topRank) (withSign negative' topRank) := by
  have hpos := topRank_pos
  cases negative <;> cases negative'
  · rw [Int.compare_eq_eq.2 rfl]
    rfl
  · rw [Int.compare_eq_gt.2 (by simp only [withSign]; omega)]
    rfl
  · rw [Int.compare_eq_lt.2 (by simp only [withSign]; omega)]
    rfl
  · rw [Int.compare_eq_eq.2 rfl]
    rfl

/-- Doubles compare as their ranks do. -/
theorem compare_ranks (hx : rank? x = some a) (hy : rank? y = some b) :
    (Parts.ofFloat x).unpacked.compare (Parts.ofFloat y).unpacked = some (compare a b) := by
  rcases rank_cases hx with ⟨negative, rfl, rfl⟩ | hx <;>
    rcases rank_cases hy with ⟨negative', rfl, rfl⟩ | hy
  · rw [ofFloat_infinity, ofFloat_infinity, ← compare_signOf]
    rfl
  · rw [ofFloat_infinity]
    exact infinity_compare negative hy
  · rw [ofFloat_infinity]
    exact compare_infinity negative' hx
  · exact compare_unpacked hx hy

theorem ofFloat_of_rank_none (h : rank? x = none) : Parts.ofFloat x = .notANumber := by
  rw [rank?] at h
  cases hparts : Parts.ofFloat x with
  | finite negative units scale =>
      rw [hparts] at h
      cases h
  | infinite negative =>
      rw [hparts] at h
      cases h
  | notANumber => rfl

/-- Not-a-number compares with nothing. -/
theorem exists_ranks {o : Ordering}
    (h : (Parts.ofFloat x).unpacked.compare (Parts.ofFloat y).unpacked = some o) :
    ∃ a b, rank? x = some a ∧ rank? y = some b ∧ compare a b = o := by
  cases hx : rank? x with
  | none =>
      rw [ofFloat_of_rank_none hx] at h
      cases h
  | some a =>
      cases hy : rank? y with
      | none =>
          rw [ofFloat_of_rank_none hy] at h
          cases hunpacked : (Parts.ofFloat x).unpacked <;> rw [hunpacked] at h <;> cases h
      | some b =>
          rw [compare_ranks hx hy] at h
          exact ⟨a, b, rfl, rfl, Option.some.inj h⟩

theorem lt_iff_ranks : x < y ↔ ∃ a b, rank? x = some a ∧ rank? y = some b ∧ a < b := by
  rw [lt_iff]
  constructor
  · intro h
    obtain ⟨a, b, hx, hy, hcompare⟩ := exists_ranks h
    exact ⟨a, b, hx, hy, Int.compare_eq_lt.1 hcompare⟩
  · rintro ⟨a, b, hx, hy, hlt⟩
    rw [compare_ranks hx hy, Int.compare_eq_lt.2 hlt]

theorem le_iff_ranks : x ≤ y ↔ ∃ a b, rank? x = some a ∧ rank? y = some b ∧ a ≤ b := by
  rw [le_iff, Option.any_eq_true]
  constructor
  · rintro ⟨o, h, hle⟩
    obtain ⟨a, b, hx, hy, rfl⟩ := exists_ranks h
    exact ⟨a, b, hx, hy, Int.isLE_compare.1 hle⟩
  · rintro ⟨a, b, hx, hy, hle⟩
    exact ⟨_, compare_ranks hx hy, Int.isLE_compare.2 hle⟩

theorem beq_iff_ranks : (x == y) = true ↔ ∃ a, rank? x = some a ∧ rank? y = some a := by
  rw [beq_eq, beq_iff_eq]
  constructor
  · intro h
    obtain ⟨a, b, hx, hy, hcompare⟩ := exists_ranks h
    obtain rfl := Int.compare_eq_eq.1 hcompare
    exact ⟨a, hx, hy⟩
  · rintro ⟨a, hx, hy⟩
    rw [compare_ranks hx hy, Int.compare_eq_eq.2 rfl]

theorem float_lt_trans {z : Float} (hxy : x < y) (hyz : y < z) : x < z := by
  obtain ⟨a, b, hx, hy, hab⟩ := lt_iff_ranks.1 hxy
  obtain ⟨b', c, hy', hz, hbc⟩ := lt_iff_ranks.1 hyz
  obtain rfl := Option.some.inj (hy.symm.trans hy')
  exact lt_iff_ranks.2 ⟨a, c, hx, hz, hab.trans hbc⟩

theorem float_le_of_lt (h : x < y) : x ≤ y := by
  obtain ⟨a, b, hx, hy, hab⟩ := lt_iff_ranks.1 h
  exact le_iff_ranks.2 ⟨a, b, hx, hy, hab.le⟩

theorem float_lt_asymm (h : x < y) : ¬y < x := by
  intro h'
  obtain ⟨a, b, hx, hy, hab⟩ := lt_iff_ranks.1 (float_lt_trans h h')
  obtain rfl := Option.some.inj (hx.symm.trans hy)
  exact lt_irrefl _ hab

theorem float_le_self_of_le (h : x ≤ y) : x ≤ x ∧ y ≤ y := by
  obtain ⟨a, b, hx, hy, -⟩ := le_iff_ranks.1 h
  exact ⟨le_iff_ranks.2 ⟨a, a, hx, hx, le_rfl⟩, le_iff_ranks.2 ⟨b, b, hy, hy, le_rfl⟩⟩

/-! ### Rounding keeps the order -/

theorem halfEven_mono {m n : Nat} (h : m ≤ n) (den : Nat) : halfEven m den ≤ halfEven n den := by
  rcases Nat.eq_or_lt_of_le (Nat.div_le_div_right h : m / den ≤ n / den) with heq | hlt
  · -- the whole parts are the same, so the larger rest rounds up if the smaller one does
    have hrest : m % den ≤ n % den := by
      have hm := Nat.div_add_mod m den
      have hn := Nat.div_add_mod n den
      rw [heq] at hm
      omega
    rw [halfEven, halfEven, heq]
    split_ifs <;> omega
  · calc halfEven m den ≤ m / den + 1 := halfEven_le m den
      _ ≤ n / den := hlt
      _ ≤ halfEven n den := div_le_halfEven n den

/-- Rounding stays between the powers of two next to a number. -/
theorem nearest_bounds {n : Nat} (hpos : 0 < n) :
    2 ^ n.log2 ≤ nearest n ∧ nearest n ≤ 2 ^ (n.log2 + 1) := by
  obtain ⟨k, hk⟩ : ∃ k, n.log2 = k + (n.log2 - 52) := ⟨n.log2 - (n.log2 - 52), by omega⟩
  rw [nearest]
  generalize n.log2 - 52 = shift at hk ⊢
  have hlow : 2 ^ k ≤ n / 2 ^ shift := by
    rw [Nat.le_div_iff_mul_le (Nat.two_pow_pos shift), ← Nat.pow_add, ← hk]
    exact Nat.log2_self_le hpos.ne'
  have hhigh : n / 2 ^ shift < 2 ^ (k + 1) := by
    rw [Nat.div_lt_iff_lt_mul (Nat.two_pow_pos shift), ← Nat.pow_add, Nat.add_right_comm, ← hk]
    exact Nat.lt_log2_self
  constructor
  · rw [hk, Nat.pow_add]
    exact Nat.mul_le_mul_right _ (hlow.trans (div_le_halfEven n _))
  · rw [hk, Nat.add_right_comm, Nat.pow_add]
    exact Nat.mul_le_mul_right _ ((halfEven_le n _).trans hhigh)

theorem nearest_mono {m n : Nat} (h : m ≤ n) : nearest m ≤ nearest n := by
  rcases Nat.eq_zero_or_pos m with rfl | hpos
  · exact Nat.zero_le _
  have hlog : m.log2 ≤ n.log2 :=
    (Nat.le_log2 (by omega)).2 ((Nat.log2_self_le hpos.ne').trans h)
  rcases Nat.eq_or_lt_of_le hlog with heq | hlt
  · rw [nearest, nearest, heq]
    exact Nat.mul_le_mul_right _ (halfEven_mono h _)
  · calc nearest m ≤ 2 ^ (m.log2 + 1) := (nearest_bounds hpos).2
      _ ≤ 2 ^ n.log2 := Nat.pow_le_pow_right (by decide) hlt
      _ ≤ nearest n := (nearest_bounds (Nat.lt_of_lt_of_le hpos h)).1

/-- A number of steps with its sign, rounded to 53 bits. -/
def roundedSteps (n : Int) : Int :=
  withSign (n < 0) (nearest n.natAbs)

theorem roundedSteps_of_nonneg {n : Int} (h : 0 ≤ n) : roundedSteps n = nearest n.natAbs := by
  rw [roundedSteps, decide_eq_false (not_lt.2 h), withSign]

theorem roundedSteps_of_nonpos {n : Int} (h : n ≤ 0) : roundedSteps n = -(nearest n.natAbs : Int) := by
  rcases h.lt_or_eq with hlt | rfl
  · rw [roundedSteps, decide_eq_true hlt, withSign]
  · rfl

theorem roundedSteps_mono {m n : Int} (h : m ≤ n) : roundedSteps m ≤ roundedSteps n := by
  rcases le_total 0 m with hm | hm
  · have hnearest := nearest_mono (show m.natAbs ≤ n.natAbs by omega)
    rw [roundedSteps_of_nonneg hm, roundedSteps_of_nonneg (hm.trans h)]
    exact_mod_cast hnearest
  · rw [roundedSteps_of_nonpos hm]
    rcases le_total 0 n with hn | hn
    · rw [roundedSteps_of_nonneg hn]
      omega
    · have hnearest := nearest_mono (show n.natAbs ≤ m.natAbs by omega)
      rw [roundedSteps_of_nonpos hn]
      omega

theorem roundedSteps_withSign (m : Magnitude) (negative : Bool) :
    roundedSteps (withSign negative m.steps) = withSign negative m.steps := by
  rw [roundedSteps, m.withSign_lt_zero, natAbs_withSign, ← m.rounded.steps_eq]
  rfl

/-- A double needs no rounding. -/
theorem roundedSteps_of_steps (h : steps? x = some a) : roundedSteps a = a := by
  rcases finite_cases h with ⟨rfl, -⟩ | ⟨m, negative, -, rfl⟩
  · rfl
  · exact roundedSteps_withSign m negative

/-! ### Sums -/

/-- What rounds beyond all finite doubles has the rank of an infinity. -/
def clampedRank (n : Int) : Int :=
  max (-topRank) (min topRank n)

theorem clampedRank_of_lt {n : Nat} (h : n < topRank) (negative : Bool) :
    clampedRank (withSign negative n) = withSign negative n := by
  rw [clampedRank]
  cases negative <;> simp only [withSign] <;> omega

theorem clampedRank_of_le {n : Nat} (h : topRank ≤ n) (negative : Bool) :
    clampedRank (withSign negative n) = withSign negative topRank := by
  rw [clampedRank]
  cases negative <;> simp only [withSign] <;> omega

theorem clampedRank_mono {m n : Int} (h : m ≤ n) : clampedRank m ≤ clampedRank n :=
  max_le_max le_rfl (min_le_min le_rfl h)

theorem clampedRank_of_steps (h : steps? x = some a) : clampedRank a = a := by
  have hlt := natAbs_steps_lt h
  rw [clampedRank]
  omega

/-- The sum of two finite doubles has the rank to which the exact sum rounds. -/
theorem rank?_add (hx : steps? x = some a) (hy : steps? y = some b) :
    rank? (x + y) = some (clampedRank (roundedSteps (a + b))) := by
  by_cases hne : a + b = 0
  · rw [hne]
    have hsteps := steps?_add_of_eq_zero hx hy hne
    rw [roundedSteps_of_steps hsteps, clampedRank_of_steps hsteps]
    exact rank?_of_steps hsteps
  obtain ⟨units, scale, h, hparts⟩ := ofFloat_add hx hy hne
  rw [rank?, hparts, roundedSteps, ← h.steps_eq]
  by_cases hscale : scale ≤ 971
  · have hlt : units * 2 ^ (scale + 1074).toNat < topRank := Magnitude.steps_lt_topRank
      ⟨units, scale, h.units_pos, h.units_lt, h.le_scale, hscale, h.normal⟩
    rw [if_pos hscale, clampedRank_of_lt hlt]
    rfl
  · have hge : topRank ≤ units * 2 ^ (scale + 1074).toNat :=
      calc topRank ≤ 2 ^ (52 + (scale + 1074).toNat) :=
            Nat.pow_le_pow_right (by decide) (by rw [highest_eq]; omega)
        _ = 2 ^ 52 * 2 ^ (scale + 1074).toNat := Nat.pow_add 2 52 _
        _ ≤ units * 2 ^ (scale + 1074).toNat := Nat.mul_le_mul_right _ (h.normal (by omega))
    rw [if_neg hscale, clampedRank_of_le hge]
    rfl

theorem infinity_add (negative : Bool) (hy : steps? y = some b) :
    infinity negative + y = infinity negative := by
  change Float.ofModel (.pack (UnpackedFloat.add .binary64 (infinity negative).toModel.unpack
    y.toModel.unpack)) = _
  rw [Parts.unpack_toModel, Parts.unpack_toModel, ofFloat_infinity]
  rcases finite_cases hy with ⟨-, negative', scale, hparts⟩ | ⟨m, negative', rfl, -⟩
  · rw [hparts]
    rfl
  · rw [m.unpacked_ofFloat]
    rfl

theorem add_infinity (hx : steps? x = some a) (negative : Bool) :
    x + infinity negative = infinity negative := by
  change Float.ofModel (.pack (UnpackedFloat.add .binary64 x.toModel.unpack
    (infinity negative).toModel.unpack)) = _
  rw [Parts.unpack_toModel, Parts.unpack_toModel, ofFloat_infinity]
  rcases finite_cases hx with ⟨-, negative', scale, hparts⟩ | ⟨m, negative', rfl, -⟩
  · rw [hparts]
    rfl
  · rw [m.unpacked_ofFloat]
    rfl

theorem rank?_infinity_add_infinity (negative negative' : Bool) :
    rank? (infinity negative + infinity negative') =
      if negative = negative' then rank? (infinity negative) else none := by
  have hsame : ∀ negative, infinity negative + infinity negative = infinity negative := by
    intro negative
    cases negative <;> decide +kernel
  have hopposite : ∀ negative, Parts.ofFloat (infinity negative + infinity !negative) = .notANumber := by
    intro negative
    cases negative <;> decide +kernel
  by_cases h : negative = negative'
  · rw [if_pos h, ← h, hsame]
  · obtain rfl := Bool.eq_not.2 (Ne.symm h)
    rw [if_neg h, rank?, hopposite]
    rfl

/-- A sum that is a number lies on the side of its first part to which the second points. -/
theorem rank_add_side (hx : rank? x = some a) (hy : rank? y = some b) (hsum : rank? (x + y) = some c) :
    (0 ≤ b → a ≤ c) ∧ (b ≤ 0 → c ≤ a) := by
  have hpos := topRank_pos
  rcases rank_cases hx with ⟨negative, rfl, rfl⟩ | hx <;>
    rcases rank_cases hy with ⟨negative', rfl, rfl⟩ | hy
  · rw [rank?_infinity_add_infinity] at hsum
    split at hsum
    · have hac := hx.symm.trans hsum
      cases hac
      exact ⟨fun _ => le_rfl, fun _ => le_rfl⟩
    · cases hsum
  · rw [infinity_add negative hy, hx] at hsum
    cases hsum
    exact ⟨fun _ => le_rfl, fun _ => le_rfl⟩
  · rw [add_infinity hx, hy] at hsum
    cases hsum
    have hlt := natAbs_steps_lt hx
    cases negative' <;> simp only [withSign] <;> omega
  · rw [rank?_add hx hy] at hsum
    cases hsum
    have hself : clampedRank (roundedSteps a) = a := by
      rw [roundedSteps_of_steps hx, clampedRank_of_steps hx]
    constructor
    · intro hb
      have hmono := clampedRank_mono (roundedSteps_mono (show a ≤ a + b by omega))
      rwa [hself] at hmono
    · intro hb
      have hmono := clampedRank_mono (roundedSteps_mono (show a + b ≤ a by omega))
      rwa [hself] at hmono

/-! ### Signs and zeros -/

theorem rank?_notANumber : rank? (.ofModel (.pack .notANumber)) = none := by
  have hparts : Parts.ofFloat (.ofModel (.pack .notANumber)) = .notANumber := by decide +kernel
  rw [rank?, hparts]
  rfl

theorem rank?_add_of_none (hy : rank? y = none) : rank? (x + y) = none := by
  have hsum : x + y = .ofModel (.pack (UnpackedFloat.add .binary64 (Parts.ofFloat x).unpacked
      (Parts.ofFloat y).unpacked)) := by
    rw [← Parts.unpack_toModel, ← Parts.unpack_toModel]
    rfl
  rw [hsum, ofFloat_of_rank_none hy]
  cases (Parts.ofFloat x).unpacked <;> exact rank?_notANumber

theorem rank?_neg (x : Float) : rank? (-x) = (rank? x).map (- ·) := by
  have hneg : -x = .ofModel (.pack (Parts.ofFloat x).unpacked.neg) := by
    rw [← Parts.unpack_toModel]
    rfl
  cases hx : rank? x with
  | none =>
      rw [hneg, ofFloat_of_rank_none hx]
      exact rank?_notANumber
  | some a =>
      rcases rank_cases hx with ⟨negative, rfl, rfl⟩ | hsteps
      · have hopposite : -infinity negative = infinity !negative := by
          cases negative <;> decide +kernel
        rw [hopposite, rank?_infinity]
        cases negative <;> simp [withSign]
      · rcases finite_cases hsteps with ⟨rfl, negative, scale, hparts⟩ | ⟨m, negative, rfl, rfl⟩
        · rw [hneg, hparts]
          exact rank?_of_steps (steps?_zero _)
        · rw [m.neg_toFloat, rank?_of_steps (m.steps?_toFloat _)]
          cases negative <;> simp [withSign]

theorem rank?_abs (x : Float) : rank? x.abs = (rank? x).map (|·|) := by
  have habs : x.abs = .ofModel (.pack (Parts.ofFloat x).unpacked.abs) := by
    rw [← Parts.unpack_toModel]
    rfl
  cases hx : rank? x with
  | none =>
      rw [habs, ofFloat_of_rank_none hx]
      exact rank?_notANumber
  | some a =>
      rcases rank_cases hx with ⟨negative, rfl, rfl⟩ | hsteps
      · have hpositive : (infinity negative).abs = infinity false := by
          cases negative <;> decide +kernel
        rw [hpositive, rank?_infinity]
        cases negative <;> simp [withSign]
      · rcases finite_cases hsteps with ⟨rfl, negative, scale, hparts⟩ | ⟨m, negative, rfl, rfl⟩
        · rw [habs, hparts]
          exact rank?_of_steps (steps?_zero _)
        · have hpositive : (m.toFloat negative).abs = m.toFloat false := by
            rw [habs, m.unpacked_ofFloat]
            rfl
          rw [hpositive, rank?_of_steps (m.steps?_toFloat _)]
          cases negative <;> simp [withSign]

theorem rank?_zero : rank? 0 = some 0 := by
  rw [rank?, ofFloat_zero]
  rfl

theorem neg_beq_zero (x : Float) : (-x == 0) = (x == 0) := by
  rw [Bool.eq_iff_iff, beq_iff_ranks, beq_iff_ranks, rank?_neg, rank?_zero]
  cases rank? x <;> simp [eq_comm]

theorem abs_beq_zero (x : Float) : (x.abs == 0) = (x == 0) := by
  rw [Bool.eq_iff_iff, beq_iff_ranks, beq_iff_ranks, rank?_abs, rank?_zero]
  cases rank? x <;> simp [eq_comm]

/-- Adding zero keeps the rank. -/
theorem rank?_add_zero (hx : rank? x = some a) : rank? (x + 0) = some a := by
  have hzero : steps? 0 = some 0 := by
    rw [steps?, ofFloat_zero]
    rfl
  rcases rank_cases hx with ⟨negative, rfl, rfl⟩ | hsteps
  · rw [infinity_add negative hzero, hx]
  · rw [rank?_add hsteps hzero, Int.add_zero, roundedSteps_of_steps hsteps, clampedRank_of_steps hsteps]

theorem add_zero_of_rank_zero (hx : rank? x = some 0) : x + 0 = 0 := by
  have hpos := topRank_pos
  rcases rank_cases hx with ⟨negative, -, htop⟩ | hsteps
  · cases negative <;> simp only [withSign] at htop <;> omega
  · rcases finite_cases hsteps with ⟨-, negative, scale, hparts⟩ | ⟨m, negative, -, hm⟩
    · exact add_zero_of_zero hparts
    · exact absurd hm.symm (m.withSign_ne_zero negative)

/-- Adding zero leaves one double of each rank. -/
theorem add_zero_eq_iff (hx : rank? x = some a) (hy : rank? y = some b) : x + 0 = y + 0 ↔ a = b := by
  constructor
  · intro h
    have hrank := rank?_add_zero hx
    rw [h, rank?_add_zero hy] at hrank
    exact (Option.some.inj hrank).symm
  · rintro rfl
    by_cases hne : a = 0
    · subst hne
      rw [add_zero_of_rank_zero hx, add_zero_of_rank_zero hy]
    · exact eq_of_rank_eq (rank?_add_zero hx) (rank?_add_zero hy) hne

/-- What adding zero leaves is given back by its bits. -/
theorem ofBits_add_zero (hx : rank? x = some a) : Float.ofBits (x + 0).toBits = x + 0 := by
  by_cases hne : a = 0
  · subst hne
    rw [add_zero_of_rank_zero hx]
    decide +kernel
  · have hself : x + 0 = x := eq_of_rank_eq (rank?_add_zero hx) hx hne
    rw [hself]
    rcases rank_cases hx with ⟨negative, rfl, -⟩ | hsteps
    · cases negative <;> decide +kernel
    · obtain ⟨m, negative, rfl, -⟩ := (finite_cases hsteps).resolve_left fun h => hne h.1
      exact m.ofBits_toBits negative

/-! ### Whole numbers -/

theorem steps?_of_rank (h : rank? x = some a) (hlt : a.natAbs < topRank) :
    steps? x = some a := by
  refine (rank_cases h).resolve_left ?_
  rintro ⟨negative, -, rfl⟩
  rw [natAbs_withSign] at hlt
  exact lt_irrefl _ hlt

theorem integer?_neg {k : Int} (h : Number.integer? x = some k) :
    Number.integer? (-x) = some (-k) := by
  rw [integer?_eq_some_iff] at h ⊢
  have hlt := natAbs_steps_lt h
  have hrank : rank? (-x) = some (-(k * oneSteps)) := by
    rw [rank?_neg, rank?_of_steps h]
    rfl
  rw [neg_mul]
  exact steps?_of_rank hrank (by rwa [Int.natAbs_neg])

theorem integer?_abs {k : Int} (h : Number.integer? x = some k) :
    Number.integer? x.abs = some (k.natAbs : Int) := by
  rw [integer?_eq_some_iff] at h ⊢
  have hlt := natAbs_steps_lt h
  have hrank : rank? x.abs = some |k * oneSteps| := by
    rw [rank?_abs, rank?_of_steps h]
    rfl
  rw [abs_mul, Nat.abs_cast, Int.abs_eq_natAbs] at hrank
  refine steps?_of_rank hrank ?_
  rwa [Int.natAbs_mul, Int.natAbs_natCast, ← Int.natAbs_mul]

end TableScript
