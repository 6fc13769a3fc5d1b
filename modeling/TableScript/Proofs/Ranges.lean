import TableScript.Eval.Range
import TableScript.Proofs.Positions
import TableScript.Proofs.Ranks

/-!
What a range counts through. A step either ends the range or moves the counter ahead in the order of
doubles, and there are only finitely many of them ahead. So every range ends, and its numbers go strictly
one way. Along whole numbers no step is rounded, so a range takes as many of them as fit.
-/

namespace TableScript

namespace Range

/-- The range gives these numbers, one after another, and then ends. -/
inductive Counts : Range → List Float → Prop
  | done {r : Range} (h : r.next? = none) : Counts r []
  | more {r rest : Range} {x : Float} {xs : List Float} (h : r.next? = some (x, rest))
      (hrest : Counts rest xs) : Counts r (x :: xs)

/-- The counter may stand at a number: not past the last one in the direction of the step. -/
def Allows (r : Range) (c : Float) : Prop :=
  if 0 < r.step then c ≤ r.stop else r.stop ≤ c

/-- Where the counter goes next, unless the step is lost to rounding. -/
def after (r : Range) (c : Float) : Option Float :=
  if c + r.step == c then none else some (c + r.step)

/-- A number lies ahead of another in the direction of the step. -/
def Ahead (r : Range) (c d : Float) : Prop :=
  0 < r.step ∧ c < d ∨ r.step < 0 ∧ d < c

variable {r : Range} {c d e : Float}

/-! ### One step -/

theorem next?_of_allows (hnext : r.next = some c) (h : r.Allows c) :
    r.next? = some (c, { r with next := r.after c }) := by
  rw [Allows] at h
  rw [next?, hnext, zero_eq]
  simp only [after]
  split at h
  next hup => simp [hup, h]
  next hdown => simp [hdown, h]

theorem next?_of_not_allows (hnext : r.next = some c) (h : ¬r.Allows c) : r.next? = none := by
  rw [Allows] at h
  rw [next?, hnext, zero_eq]
  split at h
  next hup => simp [hup, h]
  next hdown => simp [hdown, h]

theorem Ahead.trans (h : r.Ahead c d) (h' : r.Ahead d e) : r.Ahead c e := by
  rcases h with ⟨hup, hcd⟩ | ⟨hdown, hdc⟩
  · rcases h' with ⟨-, hde⟩ | ⟨hdown, -⟩
    · exact .inl ⟨hup, float_lt_trans hcd hde⟩
    · exact absurd hdown (float_lt_asymm hup)
  · rcases h' with ⟨hup, -⟩ | ⟨-, hed⟩
    · exact absurd hdown (float_lt_asymm hup)
    · exact .inr ⟨hdown, float_lt_trans hed hdc⟩

theorem Allows.exists_rank (h : r.Allows c) : ∃ a, rank? c = some a := by
  rw [Allows] at h
  split at h
  · obtain ⟨a, -, hc, -⟩ := le_iff_ranks.1 h
    exact ⟨a, hc⟩
  · obtain ⟨-, a, -, hc, -⟩ := le_iff_ranks.1 h
    exact ⟨a, hc⟩

/-- A step that stays in the range moves the counter ahead: the sum is no smaller than the counter if the
step is positive and no larger if it is negative, and it is not the counter itself. -/
theorem Allows.ahead (hstep : (r.step == 0) = false) (hc : r.Allows c) (hafter : r.after c = some d)
    (hd : r.Allows d) : r.Ahead c d := by
  obtain ⟨a, hc⟩ := hc.exists_rank
  obtain ⟨k, hd⟩ := hd.exists_rank
  rw [after] at hafter
  split at hafter
  next => cases hafter
  next hmoved =>
    cases hafter
    have hne : k ≠ a := by
      rintro rfl
      exact hmoved (beq_iff_ranks.2 ⟨k, hd, hc⟩)
    cases hrank : rank? r.step with
    | none =>
        rw [rank?_add_of_none hrank] at hd
        cases hd
    | some b =>
        have hside := rank_add_side hc hrank hd
        rcases lt_trichotomy b 0 with hneg | rfl | hpos
        · exact .inr ⟨lt_iff_ranks.2 ⟨b, 0, hrank, rank?_zero, hneg⟩,
            lt_iff_ranks.2 ⟨k, a, hd, hc, lt_of_le_of_ne (hside.2 hneg.le) hne⟩⟩
        · rw [beq_iff_ranks.2 ⟨0, hrank, rank?_zero⟩] at hstep
          cases hstep
        · exact .inl ⟨lt_iff_ranks.2 ⟨0, b, rank?_zero, hrank, hpos⟩,
            lt_iff_ranks.2 ⟨a, k, hc, hd, lt_of_le_of_ne (hside.1 hpos.le) hne.symm⟩⟩

/-! ### A whole run -/

/-- How many ranks lie ahead of a number. -/
def room (r : Range) (c : Float) : Nat :=
  match rank? c with
  | some a => if 0 < r.step then (topRank - a).toNat else (topRank + a).toNat
  | none => 0

theorem room_of_rank {a : Int} (hc : rank? c = some a) :
    r.room c = if 0 < r.step then (topRank - a).toNat else (topRank + a).toNat := by
  rw [room, hc]

theorem Ahead.room_lt (h : r.Ahead c d) : r.room d < r.room c := by
  rcases h with ⟨hup, hlt⟩ | ⟨hdown, hlt⟩
  · obtain ⟨a, b, hc, hd, hab⟩ := lt_iff_ranks.1 hlt
    have htop := natAbs_rank_le hd
    rw [room_of_rank hc, room_of_rank hd, if_pos hup, if_pos hup]
    omega
  · obtain ⟨b, a, hd, hc, hba⟩ := lt_iff_ranks.1 hlt
    have htop := natAbs_rank_le hd
    rw [room_of_rank hc, room_of_rank hd, if_neg (float_lt_asymm hdown), if_neg (float_lt_asymm hdown)]
    omega

variable {xs : List Float}

theorem Counts.cons (hc : r.Allows c) (hrest : Counts { r with next := r.after c } xs) :
    Counts { r with next := some c } (c :: xs) :=
  .more (next?_of_allows rfl hc) hrest

/-- A range ends if the step is lost or leads out of it. -/
theorem counts_nil (h : ∀ d, r.after c = some d → ¬r.Allows d) :
    Counts { r with next := r.after c } [] := by
  cases hafter : r.after c with
  | none => exact .done rfl
  | some d => exact .done (next?_of_not_allows rfl (h d hafter))

/-- A range ends whatever its counter stands at. Its numbers are allowed, each lies ahead of all before
it, and the first is the counter if that is allowed. -/
theorem exists_counts (hstep : (r.step == 0) = false) (c : Float) :
    ∃ xs, Counts { r with next := some c } xs ∧ xs.Pairwise r.Ahead ∧
      (∀ x ∈ xs, r.Allows x ∧ (x = c ∨ r.Ahead c x)) ∧ (r.Allows c → xs.head? = some c) := by
  -- the ranks ahead of the counter become fewer with every step
  induction hroom : r.room c using Nat.strong_induction_on generalizing c with
  | _ room ih =>
    by_cases hc : r.Allows c
    · by_cases hmore : ∃ d, r.after c = some d ∧ r.Allows d
      · obtain ⟨d, hafter, hd⟩ := hmore
        have hahead := hc.ahead hstep hafter hd
        obtain ⟨xs, hcounts, hpairwise, hallows, -⟩ := ih _ (hroom ▸ hahead.room_lt) d rfl
        rw [← hafter] at hcounts
        have hall : ∀ x ∈ xs, r.Ahead c x := by
          intro x hx
          rcases (hallows x hx).2 with rfl | hx
          · exact hahead
          · exact hahead.trans hx
        refine ⟨c :: xs, hcounts.cons hc, List.pairwise_cons.2 ⟨hall, hpairwise⟩, ?_, fun _ => rfl⟩
        intro x hx
        rcases List.mem_cons.1 hx with rfl | hx
        · exact ⟨hc, .inl rfl⟩
        · exact ⟨(hallows x hx).1, .inr (hall x hx)⟩
      · have hend : Counts { r with next := r.after c } [] :=
          counts_nil fun d hafter hd => hmore ⟨d, hafter, hd⟩
        refine ⟨[c], hend.cons hc, List.pairwise_singleton _ _, ?_, fun _ => rfl⟩
        intro x hx
        obtain rfl := List.mem_singleton.1 hx
        exact ⟨hc, .inl rfl⟩
    · exact ⟨[], .done (next?_of_not_allows rfl hc), .nil, nofun, fun h => absurd h hc⟩

/-! ### The range of given bounds -/

/-- The size of a step, which is one if none is given. -/
def size (step : Option Float) : Float :=
  (step.map Float.abs).getD 1.0

theorem ofValues_number (first last : Float) (step : Option Float) :
    ofValues (.number first) (.number last) (step.map .number) =
      if size step == 0 then .error .zeroStep
      else .ok ⟨some first, last, if first ≤ last then size step else -size step⟩ := by
  cases step <;> rfl

/-- No size is negative. -/
theorem size_nonneg {step : Option Float} {b : Int} (h : rank? (size step) = some b) : 0 ≤ b := by
  cases step with
  | none =>
      have hone : (0 : Float) ≤ 1.0 := by decide +kernel
      obtain ⟨a, b', hzero, hb, hle⟩ := le_iff_ranks.1 hone
      cases hzero.symm.trans rank?_zero
      cases h.symm.trans hb
      exact hle
  | some step =>
      rw [size, Option.map_some, Option.getD_some, rank?_abs] at h
      obtain ⟨a, -, rfl⟩ := Option.map_eq_some_iff.1 h
      exact abs_nonneg a

theorem exists_rank_size {step : Option Float} (h : ∀ x, step = some x → x.isNaN = false) :
    ∃ b, rank? (size step) = some b := by
  cases step with
  | none => exact exists_rank (by decide +kernel)
  | some x =>
      obtain ⟨a, ha⟩ := exists_rank (h x rfl)
      rw [size, Option.map_some, Option.getD_some, rank?_abs, ha]
      exact ⟨_, rfl⟩

theorem not_size_neg (step : Option Float) : ¬size step < 0 := by
  intro h
  obtain ⟨b, a, hb, hzero, hlt⟩ := lt_iff_ranks.1 h
  cases hzero.symm.trans rank?_zero
  exact not_lt.2 (size_nonneg hb) hlt

theorem not_neg_size_pos (step : Option Float) : ¬0 < -size step := by
  intro h
  obtain ⟨a, b, hzero, hb, hlt⟩ := lt_iff_ranks.1 h
  cases hzero.symm.trans rank?_zero
  rw [rank?_neg] at hb
  obtain ⟨b', hb', rfl⟩ := Option.map_eq_some_iff.1 hb
  have hnonneg := size_nonneg hb'
  omega

theorem exists_ofValues_iff (first last : Float) (step : Option Float) :
    (∃ r, ofValues (.number first) (.number last) (step.map .number) = .ok r) ↔
      ∀ x, step = some x → (x == 0) = false := by
  have hsize : (size step == 0) = false ↔ ∀ x, step = some x → (x == 0) = false := by
    cases step with
    | none =>
        have hone : (size none == 0) = false := by decide +kernel
        exact ⟨nofun, fun _ => hone⟩
    | some x =>
        rw [size, Option.map_some, Option.getD_some, abs_beq_zero]
        exact ⟨fun h y hy => Option.some.inj hy ▸ h, fun h => h x rfl⟩
  rw [ofValues_number, ← hsize]
  cases size step == 0 <;> simp

/-- The step of a range is not zero, and it goes from the first number to the last. -/
theorem step_of_ofValues {first last : Float} {step : Option Float}
    (h : ofValues (.number first) (.number last) (step.map .number) = .ok r) :
    r.next = some first ∧ r.stop = last ∧ r.step = (if first ≤ last then size step else -size step) ∧
      (r.step == 0) = false := by
  rw [ofValues_number] at h
  split at h
  next => cases h
  next hsize =>
    cases h
    have hne : (size step == 0) = false := by simpa using hsize
    refine ⟨rfl, rfl, rfl, ?_⟩
    change ((if first ≤ last then size step else -size step) == 0) = false
    split
    · exact hne
    · rw [neg_beq_zero, hne]

/-- Between numbers, a range starts out from its first bound. -/
theorem allows_first {first last : Float} {step : Option Float}
    (h : ofValues (.number first) (.number last) (step.map .number) = .ok r) (hfirst : first.isNaN = false)
    (hlast : last.isNaN = false) (hstep : ∀ x, step = some x → x.isNaN = false) : r.Allows first := by
  obtain ⟨-, hstop, hsize, hne⟩ := step_of_ofValues h
  rw [Allows, hstop]
  by_cases hup : first ≤ last
  · have hpos : 0 < r.step := by
      obtain ⟨b, hb⟩ := exists_rank_size hstep
      rw [hsize, if_pos hup] at hne ⊢
      have hnonzero : b ≠ 0 := by
        rintro rfl
        rw [beq_iff_ranks.2 ⟨0, hb, rank?_zero⟩] at hne
        cases hne
      exact lt_iff_ranks.2 ⟨0, b, rank?_zero, hb, lt_of_le_of_ne (size_nonneg hb) hnonzero.symm⟩
    rw [if_pos hpos]
    exact hup
  · have hnotpos : ¬0 < r.step := by
      rw [hsize, if_neg hup]
      exact not_neg_size_pos step
    obtain ⟨a, ha⟩ := exists_rank hfirst
    obtain ⟨b, hb⟩ := exists_rank hlast
    rw [if_neg hnotpos, le_iff_ranks]
    rw [le_iff_ranks] at hup
    exact ⟨b, a, hb, ha, (le_total b a).resolve_right fun hle => hup ⟨a, b, ha, hb, hle⟩⟩

end Range

/-- A range is made of all numbers but a step of zero, and it ends. Its numbers go strictly up if the last
bound is not below the first one and strictly down otherwise, all of them lie between the bounds, and
unless one of the three is not-a-number the first bound is the first of them. -/
theorem range_strictly_monotone (first last : Float) (step : Option Float) :
    ((∃ r, Range.ofValues (.number first) (.number last) (step.map .number) = .ok r) ↔
        ∀ x, step = some x → (x == 0) = false) ∧
      ∀ r, Range.ofValues (.number first) (.number last) (step.map .number) = .ok r →
        ∃ xs, r.Counts xs ∧
          (first ≤ last → xs.Pairwise (· < ·) ∧ ∀ x ∈ xs, first ≤ x ∧ x ≤ last) ∧
          (¬first ≤ last → xs.Pairwise (· > ·) ∧ ∀ x ∈ xs, last ≤ x ∧ x ≤ first) ∧
          (first.isNaN = false → last.isNaN = false → (∀ x, step = some x → x.isNaN = false) →
            xs.head? = some first) := by
  refine ⟨Range.exists_ofValues_iff first last step, fun r h => ?_⟩
  obtain ⟨hnext, hstop, hstep, hne⟩ := Range.step_of_ofValues h
  obtain ⟨xs, hcounts, hpairwise, hallows, hhead⟩ := Range.exists_counts hne first
  rw [← hnext] at hcounts
  refine ⟨xs, hcounts, fun hup => ?_, fun hdown => ?_,
    fun hfirst hlast hnumber => hhead (Range.allows_first h hfirst hlast hnumber)⟩
  · have hahead : ∀ {c d}, r.Ahead c d → 0 < r.step ∧ c < d := by
      intro c d hahead
      refine hahead.resolve_right fun hdown => ?_
      rw [hstep, if_pos hup] at hdown
      exact Range.not_size_neg step hdown.1
    refine ⟨hpairwise.imp fun hcd => (hahead hcd).2, fun x hx => ?_⟩
    obtain ⟨hx, rfl | hfirst⟩ := hallows x hx
    · exact ⟨(float_le_self_of_le hup).1, hup⟩
    · obtain ⟨hpos, hlt⟩ := hahead hfirst
      rw [Range.Allows, if_pos hpos, hstop] at hx
      exact ⟨float_le_of_lt hlt, hx⟩
  · have hnotpos : ¬0 < r.step := by
      rw [hstep, if_neg hdown]
      exact Range.not_neg_size_pos step
    have hahead : ∀ {c d}, r.Ahead c d → d < c :=
      fun hahead => (hahead.resolve_left fun hup => hnotpos hup.1).2
    refine ⟨hpairwise.imp hahead, fun x hx => ?_⟩
    obtain ⟨hx, hfirst⟩ := hallows x hx
    rw [Range.Allows, if_neg hnotpos, hstop] at hx
    rcases hfirst with rfl | hfirst
    · exact ⟨hx, (float_le_self_of_le hx).2⟩
    · exact ⟨hx, float_le_of_lt (hahead hfirst)⟩

/-- From `2 ^ 53` on a step of one is lost, and the range still ends. -/
theorem range_strictly_monotone_stalled :
    ∃ r xs, Range.ofValues (.number 9007199254740992.0) (.number 9007199254740996.0) none = .ok r ∧
      r.Counts xs ∧ xs.Pairwise (· < ·) ∧ xs.head? = some 9007199254740992.0 := by
  obtain ⟨hmade, hcounts⟩ := range_strictly_monotone 9007199254740992.0 9007199254740996.0 none
  obtain ⟨r, hr⟩ := hmade.2 nofun
  obtain ⟨xs, hxs, hup, -, hhead⟩ := hcounts r hr
  have hle : (9007199254740992.0 : Float) ≤ 9007199254740996.0 := by decide +kernel
  exact ⟨r, xs, hr, hxs, (hup hle).1, hhead (by decide +kernel) (by decide +kernel) nofun⟩

/-! ### Whole numbers -/

namespace Range

/-- A whole number is not past the last one in the direction of the step. -/
def Within (b d k : Int) : Prop :=
  if 0 < d then k ≤ b else b ≤ k

variable {r : Range} {c : Float} {a b d : Int}

theorem allows_iff_within (hstop : Number.integer? r.stop = some b) (hstep : Number.integer? r.step = some d)
    (hc : Number.integer? c = some a) : r.Allows c ↔ Within b d a := by
  rw [Allows, Within]
  simp only [lt_iff_integer integer?_zero hstep, le_iff_integer hc hstop, le_iff_integer hstop hc]

/-- A step from a whole number is exact, so it is not lost. -/
theorem after_of_integer (hstep : Number.integer? r.step = some d) (hd : d ≠ 0)
    (hc : Number.integer? c = some a) (hsum : (a + d).natAbs ≤ 2 ^ 53) :
    ∃ c', r.after c = some c' ∧ Number.integer? c' = some (a + d) := by
  have hinteger := integer?_add hc hstep hsum
  refine ⟨c + r.step, if_neg ?_, hinteger⟩
  rw [beq_iff_integer hc, hinteger, Option.some.injEq]
  omega

theorem Within.of_add {n : Nat} (h : Within b d (a + n * d)) : Within b d a := by
  rw [Within] at h ⊢
  split at h
  next hup =>
    rw [if_pos hup]
    have hnonneg : 0 ≤ n * d := Int.mul_nonneg (by omega) hup.le
    omega
  next hdown =>
    rw [if_neg hdown]
    have hnonpos : n * d ≤ 0 := Int.mul_nonpos_of_nonneg_of_nonpos (by omega) (by omega)
    omega

/-- Along whole numbers a range takes as many steps as fit. -/
theorem exists_counts_integers (hstop : Number.integer? r.stop = some b)
    (hstep : Number.integer? r.step = some d) (hd : d ≠ 0) (hsize : d.natAbs ≤ 2 ^ 52)
    (hb : b.natAbs ≤ 2 ^ 52) {n : Nat} (ha : a.natAbs ≤ 2 ^ 52) (hc : Number.integer? c = some a)
    (hlast : Within b d (a + n * d)) (hpast : ¬Within b d (a + (n + 1) * d)) :
    ∃ xs, Counts { r with next := some c } xs ∧
      xs.map Number.integer? = (List.range (n + 1)).map fun k : Nat => some (a + k * d) := by
  induction n generalizing a c with
  | zero =>
      obtain ⟨c', hafter, hc'⟩ := after_of_integer hstep hd hc (by omega)
      have hend : Counts { r with next := r.after c } [] := by
        refine counts_nil fun x hx => ?_
        cases hafter.symm.trans hx
        rw [allows_iff_within hstop hstep hc']
        simpa using hpast
      exact ⟨[c], hend.cons ((allows_iff_within hstop hstep hc).2 hlast.of_add), by simp [hc]⟩
  | succ n ih =>
      have hshift : ∀ k : Int, a + (k + 1) * d = a + d + k * d := by
        intro k
        ring
      have hwithin : Within b d a := hlast.of_add
      push_cast at hlast hpast
      rw [hshift] at hlast hpast
      have hbound : (a + d).natAbs ≤ 2 ^ 52 := by
        have hbetween := hlast.of_add
        rw [Within] at hwithin hbetween
        split at hbetween <;> omega
      obtain ⟨c', hafter, hc'⟩ := after_of_integer hstep hd hc (by omega)
      obtain ⟨xs, hcounts, hxs⟩ := ih hbound hc' hlast hpast
      rw [← hafter] at hcounts
      refine ⟨c :: xs, hcounts.cons ((allows_iff_within hstop hstep hc).2 hwithin), ?_⟩
      rw [List.map_cons, List.range_succ_eq_map, List.map_cons, List.map_map, hc, hxs]
      simp [Function.comp_def, hshift]

/-- As many steps as go into the distance of two whole numbers lead to the last one between them. -/
theorem within_quotient (hd : d ≠ 0) (hsign : 0 < d ↔ a ≤ b) :
    Within b d (a + ((b - a).natAbs / d.natAbs : Nat) * d) ∧
      ¬Within b d (a + (((b - a).natAbs / d.natAbs : Nat) + 1) * d) := by
  have hfits : (b - a).natAbs / d.natAbs * d.natAbs ≤ (b - a).natAbs := Nat.div_mul_le_self _ _
  have hmore : (b - a).natAbs < d.natAbs * ((b - a).natAbs / d.natAbs + 1) :=
    Nat.lt_mul_div_succ _ (by omega)
  generalize (b - a).natAbs / d.natAbs = n at hfits hmore ⊢
  have hfits : (n : Int) * d.natAbs ≤ (b - a).natAbs := by exact_mod_cast hfits
  have hmore : ((b - a).natAbs : Int) < n * d.natAbs + d.natAbs := by
    rw [Nat.mul_comm, Nat.succ_mul] at hmore
    exact_mod_cast hmore
  rw [Within, Within, add_mul]
  by_cases hup : 0 < d
  · rw [Int.natAbs_of_nonneg hup.le] at hfits hmore
    rw [if_pos hup, if_pos hup]
    omega
  · rw [Int.ofNat_natAbs_of_nonpos (not_lt.1 hup), mul_neg] at hfits hmore
    rw [if_neg hup, if_neg hup]
    omega

theorem integer?_size {step : Option Float} {s : Int} (h : Number.integer? (step.getD 1.0) = some s) :
    Number.integer? (size step) = some (s.natAbs : Int) := by
  cases step with
  | none =>
      have hone : Number.integer? 1.0 = some 1 := by decide +kernel
      cases h.symm.trans hone
      exact hone
  | some z => exact integer?_abs h

end Range

/-- Along whole numbers up to `2 ^ 52` a range is exact: it takes as many steps as fit between its bounds,
from the first one on, and a range without a step has the step one. -/
theorem integer_range_exact {x y : Float} {step : Option Float} {a b s : Int}
    (hx : Number.integer? x = some a) (hy : Number.integer? y = some b)
    (hstep : Number.integer? (step.getD 1.0) = some s) (ha : a.natAbs ≤ 2 ^ 52) (hb : b.natAbs ≤ 2 ^ 52)
    (hpos : 1 ≤ s.natAbs) (hs : s.natAbs ≤ 2 ^ 52) :
    ∃ r xs, Range.ofValues (.number x) (.number y) (step.map .number) = .ok r ∧ r.Counts xs ∧
      xs.map Number.integer? = (List.range ((b - a).natAbs / s.natAbs + 1)).map fun k : Nat =>
        some (if a ≤ b then a + k * s.natAbs else a - k * s.natAbs) := by
  have hsize : Number.integer? (Range.size step) = some (s.natAbs : Int) := Range.integer?_size hstep
  have hup : x ≤ y ↔ a ≤ b := le_iff_integer hx hy
  have hofValues : Range.ofValues (.number x) (.number y) (step.map .number) =
      .ok ⟨some x, y, if x ≤ y then Range.size step else -Range.size step⟩ := by
    rw [Range.ofValues_number, if_neg]
    rw [beq_iff_integer integer?_zero, hsize, Option.some.injEq]
    omega
  obtain ⟨d, hd⟩ : ∃ d : Int, d = if a ≤ b then (s.natAbs : Int) else -s.natAbs := ⟨_, rfl⟩
  have hdirected : Number.integer? (if x ≤ y then Range.size step else -Range.size step) = some d := by
    simp only [hup, hd]
    split
    · exact hsize
    · exact integer?_neg hsize
  have hsame : d.natAbs = s.natAbs := by
    rw [hd]
    split <;> omega
  have hsign : 0 < d ↔ a ≤ b := by
    rw [hd]
    split <;> omega
  obtain ⟨hlast, hpast⟩ := Range.within_quotient (by omega) hsign
  obtain ⟨xs, hcounts, hxs⟩ := Range.exists_counts_integers
    (r := ⟨some x, y, if x ≤ y then Range.size step else -Range.size step⟩) hy hdirected (by omega)
    (by omega) hb ha hx hlast hpast
  refine ⟨_, xs, hofValues, hcounts, ?_⟩
  rw [hxs, hsame]
  refine List.map_congr_left fun k _ => congrArg some ?_
  rw [hd]
  split
  · rfl
  · rw [mul_neg, sub_eq_add_neg]

/-- The bounds at which whole numbers are furthest apart. -/
theorem integer_range_exact_widest :
    ∃ r xs, Range.ofValues (.number 4503599627370496.0) (.number (-4503599627370496.0))
        (some (.number 4503599627370496.0)) = .ok r ∧ r.Counts xs ∧
      xs.map Number.integer? = [some 4503599627370496, some 0, some (-4503599627370496)] := by
  have hfirst : Number.integer? 4503599627370496.0 = some 4503599627370496 := by decide +kernel
  have hlast : Number.integer? (-4503599627370496.0) = some (-4503599627370496) := by decide +kernel
  have hstep : Number.integer? ((some 4503599627370496.0).getD 1.0) = some 4503599627370496 := hfirst
  exact integer_range_exact hfirst hlast hstep (by decide) (by decide) (by decide) (by decide)

end TableScript
