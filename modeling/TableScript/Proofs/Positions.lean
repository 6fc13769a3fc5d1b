import TableScript.Proofs.Sums
import TableScript.Store.Container

/-!
Positions in sequences. A position is found with doubles: a number has to be whole, the length is added
to it if it is negative, and what comes out has to be below the length. Up to a length of `2 ^ 53`
nothing of this rounds in a way that matters, and the position is the one that integers give.
-/

namespace TableScript

open Float.Model Float.Model.UnpackedFloat

variable {x y : Float} {a b : Int}

/-! ### Whole numbers compared -/

theorem integer?_zero : Number.integer? 0 = some 0 := by
  decide +kernel

theorem lt_iff_integer (hx : Number.integer? x = some a) (hy : Number.integer? y = some b) :
    x < y ↔ a < b := by
  rw [lt_iff_steps (integer?_eq_some_iff.1 hx) (integer?_eq_some_iff.1 hy)]
  exact mul_lt_mul_iff_left₀ (by exact_mod_cast oneSteps_pos)

theorem le_iff_integer (hx : Number.integer? x = some a) (hy : Number.integer? y = some b) :
    x ≤ y ↔ a ≤ b := by
  rw [le_iff_steps (integer?_eq_some_iff.1 hx) (integer?_eq_some_iff.1 hy)]
  exact mul_le_mul_iff_left₀ (by exact_mod_cast oneSteps_pos)

theorem beq_iff_integer (hy : Number.integer? y = some b) :
    (x == y) = true ↔ Number.integer? x = some b := by
  rw [beq_iff_steps (integer?_eq_some_iff.1 hy), integer?_eq_some_iff]

/-! ### Fractions -/

/-- The units of a number below 53 bits, at the scale at which a double holds them. -/
theorem units_bounds {units : Nat} {scale exponent : Int} (hpos : 0 < units) (hlt : units < 2 ^ 53)
    (hlow : -1074 ≤ scale) (hexponent : max ((units.log2 : Int) + scale) (-1022) = exponent) :
    ∃ up : Nat, scale - (exponent - 52) = up ∧ units * 2 ^ up < 2 ^ 53 ∧
      (-1022 < exponent → 2 ^ 52 ≤ units * 2 ^ up) := by
  have hlog : units.log2 < 53 := (Nat.log2_lt hpos.ne').2 hlt
  obtain ⟨up, hup⟩ := Int.eq_ofNat_of_zero_le (show 0 ≤ scale - (exponent - 52) by omega)
  have hpow := log2_mul_two_pow hpos up
  have hne : units * 2 ^ up ≠ 0 := (Nat.mul_pos hpos (Nat.two_pow_pos up)).ne'
  refine ⟨up, hup, (Nat.log2_lt hne).1 (by omega), fun hgt => ?_⟩
  have hle := Nat.log2_self_le hne
  rwa [hpow, show units.log2 + up = 52 by omega] at hle

/-- Units at a scale at which doubles go on make a double. -/
theorem exists_ofUnits (negative : Bool) {units : Nat} {scale : Int} (hpos : 0 < units)
    (hlt : units < 2 ^ 53) (hlow : -1074 ≤ scale) (hhigh : scale ≤ 971) :
    ∃ m : Magnitude, m.steps = units * 2 ^ (scale + 1074).toNat ∧
      Number.ofUnits negative units scale = m.toFloat negative := by
  generalize hexponent : max ((units.log2 : Int) + scale) (-1022) = exponent
  have hlog : units.log2 < 53 := (Nat.log2_lt hpos.ne').2 hlt
  obtain ⟨up, hup, hfits, hnormal⟩ := units_bounds hpos hlt hlow hexponent
  refine ⟨⟨units * 2 ^ up, exponent - 52, Nat.mul_pos hpos (Nat.two_pow_pos up), hfits, by omega,
    by omega, fun hgt => hnormal (by omega)⟩, ?_, ?_⟩
  · rw [Magnitude.steps, Nat.mul_assoc, ← Nat.pow_add,
      show up + (exponent - 52 + 1074).toNat = (scale + 1074).toNat by omega]
  · rw [← Magnitude.ofBits_toBits]
    refine congrArg Float.ofBits (UInt64.toNat_inj.1 ?_)
    rw [Magnitude.toNat_toBits, Magnitude.exponent, assemble, UInt64.toNat_ofNat']
    simp only [if_neg hpos.ne', hexponent, hup, Nat.pow_eq]
    generalize units * 2 ^ up = fraction at *
    have hsign : (if negative = true then 2 ^ 63 else 0) ≤ 2 ^ 63 := by split <;> omega
    generalize (if negative = true then 2 ^ 63 else 0) = sign at *
    split <;> omega

theorem ofUnits_beq_zero (negative : Bool) {units : Nat} {scale : Int} (hlt : units < 2 ^ 53)
    (hlow : -1074 ≤ scale) (hhigh : scale ≤ 971) :
    (Number.ofUnits negative units scale == 0) = true ↔ units = 0 := by
  rcases Nat.eq_zero_or_pos units with rfl | hpos
  · simp only [Number.ofUnits, ↓reduceIte]
    cases negative <;> decide +kernel
  · obtain ⟨m, -, heq⟩ := exists_ofUnits negative hpos hlt hlow hhigh
    rw [heq, m.beq_zero_eq_false]
    simp [hpos.ne']

theorem Parts.units_lt {negative : Bool} {units : Nat} {scale : Int}
    (h : Parts.ofFloat x = .finite negative units scale) : units < 2 ^ 53 := by
  rcases Nat.eq_zero_or_pos units with rfl | hpos
  · decide
  · obtain ⟨m, rfl, -, -⟩ := exists_magnitude h hpos
    exact m.units_lt

/-- A number is whole if nothing stands after its point. -/
theorem fract_beq_zero_iff :
    (Number.fract x == 0.0) = true ↔ ∃ k, Number.integer? x = some k := by
  rw [zero_eq, Number.fract, Number.integer?]
  cases hparts : Parts.ofFloat x with
  | infinite negative =>
      have hnone : ¬((0.0 / 0.0 : Float) == 0) = true := by decide +kernel
      simpa [Parts.integer?] using hnone
  | notANumber =>
      have hnone : ¬((0.0 / 0.0 : Float) == 0) = true := by decide +kernel
      simpa [Parts.integer?] using hnone
  | finite negative units scale =>
      cases scale with
      | ofNat up =>
          have hzero : ((0.0 : Float) == 0) = true := by decide +kernel
          exact ⟨fun _ => ⟨_, rfl⟩, fun _ => hzero⟩
      | negSucc less =>
          have hlow := Parts.le_scale hparts
          have hmod : units % 2 ^ (less + 1) < 2 ^ 53 :=
            Nat.lt_of_le_of_lt (Nat.mod_le _ _) (Parts.units_lt hparts)
          simp only [Nat.pow_eq, Parts.integer?]
          rw [ofUnits_beq_zero negative hmod hlow (by omega)]
          split
          next hwhole => exact ⟨fun _ => ⟨_, rfl⟩, fun _ => hwhole⟩
          next hwhole => exact ⟨fun h => absurd h hwhole, fun h => by cases h.choose_spec⟩

/-! ### Counts -/

theorem integer?_ofNat {n : Nat} (hle : n ≤ 2 ^ 53) :
    Number.integer? (Number.ofNat n) = some (n : Int) := by
  rcases Nat.eq_zero_or_pos n with rfl | hpos
  · decide +kernel
  rcases Nat.eq_or_lt_of_le hle with rfl | hn
  · decide +kernel
  have hlog := (Magnitude.shifted_bounds hpos hn).1
  rw [integer?_eq_some_iff, Number.ofNat, Magnitude.toFloat_ofNat hpos hn, Magnitude.steps?_toFloat]
  have hsteps : (Magnitude.ofNat n hpos hn).steps = n * oneSteps := by
    rw [oneSteps_eq (show 52 - n.log2 + (n.log2 - 52 + 1074 : Int).toNat = 1074 by omega),
      ← Nat.mul_assoc]
    rfl
  rw [hsteps, withSign, Nat.cast_mul]

/-- Taking away all that stands after the point is a division. -/
theorem roundToInt_eq (sign : Sign) (units : Nat) (scale : Int) :
    roundToInt sign units scale = sign.apply (units * 2 ^ scale.toNat / 2 ^ (-scale).toNat : Nat) := by
  have hstands := ((stands_of_fraction (units <<< (scale - 0).toNat) one_pos).shiftRight one_pos
    (0 - (scale - (scale - 0).toNat)).toNat).whole
  rw [Nat.div_one, Nat.mod_one, Nat.one_mul] at hstands
  change sign.apply (ExtendedMantissa.mantissa _ : Nat) = _
  rw [← show (scale - 0).toNat = scale.toNat by omega,
    ← show (0 - (scale - ((scale - 0).toNat : Int))).toNat = (-scale).toNat by omega, ← Nat.shiftLeft_eq]
  exact congrArg (fun n : Nat => sign.apply (n : Int)) hstands

theorem Parts.toInt_unpacked {parts : Parts} {k : Int} (h : parts.integer? = some k) (top : Int) :
    parts.unpacked.toInt 0 top = k := by
  cases parts with
  | infinite negative => cases h
  | notANumber => cases h
  | finite negative units scale =>
      have hk : withSign negative (units * 2 ^ scale.toNat / 2 ^ (-scale).toNat) = k := by
        cases scale with
        | ofNat up =>
            rw [integer?, Option.some.injEq, Nat.pow_eq, withSign_eq_ite] at h
            rw [← h, show (-Int.ofNat up).toNat = 0 by simp, Nat.pow_zero, Nat.div_one]
            rfl
        | negSucc less =>
            rw [integer?, Nat.pow_eq] at h
            split at h
            · rw [Option.some.injEq, withSign_eq_ite] at h
              rw [← h, show (Int.negSucc less).toNat = 0 from rfl, Nat.pow_zero, Nat.mul_one]
              rfl
            · cases h
      rw [← hk, unpacked]
      split
      next hzero =>
        rw [hzero, Nat.zero_mul, Nat.zero_div]
        cases negative <;> rfl
      next =>
        rw [← apply_signOf]
        exact roundToInt_eq _ _ _

theorem toNat_toUInt64 {n : Nat} (hn : n < 2 ^ 64) (hx : Number.integer? x = some (n : Int)) :
    x.toUInt64.toNat = n := by
  change (UInt64.ofNatClamp (x.toModel.unpack.toInt 0 _).toNat).toNat = n
  rw [Parts.unpack_toModel, Parts.toInt_unpacked hx, Int.toNat_natCast, UInt64.ofNatClamp,
    dif_pos (show n < UInt64.size from hn)]
  rfl

/-! ### Positions -/

variable {length slot : Nat}

theorem slot?_of_not_whole (hx : Number.integer? x = none) : slot? x length = none := by
  refine if_neg fun hwhole => ?_
  obtain ⟨k, hk⟩ := fract_beq_zero_iff.1 hwhole
  rw [hx] at hk
  cases hk

theorem slot?_of_nonneg (hlength : length ≤ 2 ^ 53) {n : Nat} (hx : Number.integer? x = some (n : Int)) :
    slot? x length = if n < length then some n else none := by
  have hcount := integer?_ofNat hlength
  have hpos : ¬x < 0 := by
    rw [lt_iff_integer hx integer?_zero]
    omega
  have hlow : 0 ≤ x := (le_iff_integer integer?_zero hx).2 (by omega)
  have hhigh : x < Number.ofNat length ↔ n < length := by
    rw [lt_iff_integer hx hcount]
    omega
  rw [slot?, if_pos (fract_beq_zero_iff.2 ⟨_, hx⟩), zero_eq]
  simp only [if_neg hpos]
  by_cases hlt : n < length
  · rw [if_pos hlt, if_pos ⟨hlow, hhigh.2 hlt⟩, toNat_toUInt64 (by omega) hx]
  · rw [if_neg hlt, if_neg fun h => hlt (hhigh.1 h.2)]

theorem slot?_of_neg (hlength : length ≤ 2 ^ 53) {k : Int} (hk : k < 0)
    (hx : Number.integer? x = some k) :
    slot? x length = if 0 ≤ length + k then some (length + k).toNat else none := by
  have hcount := integer?_ofNat hlength
  have hneg : x < 0 := (lt_iff_integer hx integer?_zero).2 hk
  rw [slot?, if_pos (fract_beq_zero_iff.2 ⟨_, hx⟩), zero_eq]
  simp only [if_pos hneg]
  by_cases hle : 0 ≤ length + k
  · -- within the sequence the sum is exact
    obtain ⟨n, hn⟩ := Int.eq_ofNat_of_zero_le hle
    have hsum := integer?_add hcount hx (by omega)
    rw [hn] at hsum
    rw [if_pos hle, if_pos ⟨(le_iff_integer integer?_zero hsum).2 (by omega),
      (lt_iff_integer hsum hcount).2 (by omega)⟩, toNat_toUInt64 (by omega) hsum, hn, Int.toNat_natCast]
  · -- before it the sum may be rounded, but not to zero or above
    have hbelow : ¬0 ≤ Number.ofNat length + x := by
      apply not_nonneg_add (integer?_eq_some_iff.1 hcount) (integer?_eq_some_iff.1 hx)
      rw [← add_mul]
      exact mul_neg_of_neg_of_pos (by omega) (by exact_mod_cast oneSteps_pos)
    rw [if_neg hle, if_neg fun h => hbelow h.1]

/-- A number means a position if it is the position, or what is left to the length of it. -/
theorem slot?_eq_some_iff (hlength : length ≤ 2 ^ 53) :
    slot? x length = some slot ↔ slot < length ∧
      (Number.integer? x = some (slot : Int) ∨ Number.integer? x = some ((slot : Int) - length)) := by
  cases hx : Number.integer? x with
  | none => simp [slot?_of_not_whole hx]
  | some k =>
      simp only [Option.some.injEq]
      by_cases hk : k < 0
      · rw [slot?_of_neg hlength hk hx]
        split
        · simp only [Option.some.injEq]
          omega
        · simp only [reduceCtorEq, false_iff]
          omega
      · obtain ⟨n, rfl⟩ := Int.eq_ofNat_of_zero_le (not_lt.1 hk)
        rw [slot?_of_nonneg hlength hx]
        split
        · simp only [Option.some.injEq]
          omega
        · simp only [reduceCtorEq, false_iff]
          omega

end TableScript
