import Mathlib.Data.List.Basic
import TableScript.Proofs.Commitment

/-!
How far rules look ahead. What a rule does is settled by the tokens that it passes and by the one after
them, so more tokens behind these change nothing. An expression also ends before any token that does
not continue it, and what has failed at a token fails whatever comes later.
-/

namespace TableScript

open Rule

variable {α β : Type}

namespace Rule

/-- What a rule reads when it matches is settled by the tokens that it passes and the one after them.
`Moves` holds of results that take a token at least, and `Ends` says of a result where else the rule
would have stopped with it. -/
def Settles (rule : Rule α) (Moves : α → Prop) (Ends : α → Cursor → Prop) (c : Cursor) : Prop :=
  ∀ x c', rule c = .ok (x, c') → ∃ used, c.Passes used c' ∧ (Moves x → used ≠ []) ∧
    ∀ rest, rest.head? = c'.rest.head? ∨ Ends x ⟨c'.line, rest⟩ →
      rule ⟨c.line, used ++ rest⟩ = .ok (x, ⟨c'.line, rest⟩)

/-- A rule looks no further than one token, also where it fails: a failure at a token stays one. -/
structure Foresees (rule : Rule α) (Moves : α → Prop) (Ends : α → Cursor → Prop) (c : Cursor) :
    Prop where
  matched : rule.Settles Moves Ends c
  failed : ∀ rejection, rule c = .error rejection → rejection.span ≠ none →
    c.rest ≠ [] ∧ rejection.wantsMore = false ∧
      ∀ more, ∃ rejection', rule ⟨c.line, c.rest ++ more⟩ = .error rejection'

/-- A rule whose last token is fixed, so that it ends there whatever follows. -/
abbrev Fixed (rule : Rule α) (c : Cursor) : Prop :=
  rule.Foresees (fun _ => True) (fun _ _ => True) c

/-- One rule after another. Where the second takes no token, what ends it has to end the first. -/
theorem Settles.bind {rule : Rule α} {next : α → Rule β} {c : Cursor} {Moves : α → Prop}
    {Ends : α → Cursor → Prop} {M : β → Prop} {E : β → Cursor → Prop} {N : α → β → Prop}
    (hrule : rule.Settles Moves Ends c)
    (hnext : ∀ x c', rule c = .ok (x, c') → (next x).Settles (N x) E c')
    (hseam : ∀ x y c', N x y ∨ (E y c' → Ends x c')) (hmoves : ∀ x y, M y → Moves x ∨ N x y) :
    (rule >>= next).Settles M E c := by
  intro y c'' hrun
  cases hfirst : rule c with
  | error rejection =>
      rw [bind_error hfirst] at hrun
      cases hrun
  | ok found =>
      obtain ⟨x, c'⟩ := found
      rw [bind_run hfirst] at hrun
      obtain ⟨used, hpasses, hused, hrest⟩ := hrule x c' hfirst
      obtain ⟨used', hpasses', hused', hrest'⟩ := hnext x c' hfirst y c'' hrun
      refine ⟨used ++ used', hpasses.append hpasses', fun hy => ?_, fun rest hhead => ?_⟩
      · rcases hmoves x y hy with hx | hy
        · simp [hused hx]
        · simp [hused' hy]
      · have hfirst' : rule ⟨c.line, used ++ (used' ++ rest)⟩ = .ok (x, ⟨c'.line, used' ++ rest⟩) := by
          refine hrest _ ?_
          rw [hpasses'.rest]
          cases used' with
          | cons token used' => exact .inl rfl
          | nil =>
              refine hhead.imp_right fun hends => ?_
              rw [hpasses'.line] at hends
              exact (hseam x y _).resolve_left (fun hy => hused' hy rfl) hends
        rw [List.append_assoc, bind_run hfirst']
        exact hrest' rest hhead

namespace Foresees

variable {rule : Rule α} {next : α → Rule β} {c : Cursor} {Moves Moves' : α → Prop}
  {Ends Ends' : α → Cursor → Prop} {M : β → Prop} {E : β → Cursor → Prop}

theorem mono (h : rule.Foresees Moves Ends c) (hmoves : ∀ x, Moves' x → Moves x)
    (hends : ∀ x c', Ends' x c' → Ends x c') : rule.Foresees Moves' Ends' c where
  matched x c' hrun := by
    obtain ⟨used, hpasses, hused, hrest⟩ := h.matched x c' hrun
    exact ⟨used, hpasses, fun hx => hused (hmoves x hx), fun rest hhead =>
      hrest rest (hhead.imp_right (hends x _))⟩
  failed := h.failed

theorem pure (x : α) : (Pure.pure x : Rule α).Foresees (· ≠ x) (fun _ _ => True) c where
  matched y c' hrun := by
    cases hrun
    exact ⟨[], .nil c, fun hne => absurd rfl hne, fun rest _ => rfl⟩
  failed rejection hrun := by cases hrun

theorem bind {N : α → β → Prop} (hrule : rule.Foresees Moves Ends c)
    (hnext : ∀ x c', rule c = .ok (x, c') → (next x).Foresees (N x) E c')
    (hseam : ∀ x y c', N x y ∨ (E y c' → Ends x c')) (hmoves : ∀ x y, M y → Moves x ∨ N x y) :
    (rule >>= next).Foresees M E c where
  matched := hrule.matched.bind (fun x c' hrun => (hnext x c' hrun).matched) hseam hmoves
  failed rejection hrun hspan := by
    cases hfirst : rule c with
    | error found =>
        rw [bind_error hfirst] at hrun
        cases hrun
        obtain ⟨hsome, hwants, hmore⟩ := hrule.failed _ hfirst hspan
        refine ⟨hsome, hwants, fun more => ?_⟩
        obtain ⟨rejection', hrun'⟩ := hmore more
        exact ⟨rejection', bind_error hrun' next⟩
    | ok found =>
        obtain ⟨x, c'⟩ := found
        rw [bind_run hfirst] at hrun
        obtain ⟨used, hpasses, -, hrest⟩ := hrule.matched x c' hfirst
        obtain ⟨hsome, hwants, hmore⟩ := (hnext x c' hfirst).failed rejection hrun hspan
        refine ⟨by simp [hpasses.rest, hsome], hwants, fun more => ?_⟩
        obtain ⟨rejection', hrun'⟩ := hmore more
        have hfirst' := hrest (c'.rest ++ more) (.inl (List.head?_append_of_ne_nil _ hsome))
        refine ⟨rejection', ?_⟩
        rw [hpasses.rest, List.append_assoc, bind_run hfirst']
        exact hrun'

/-- After a fixed last token nothing before it matters. -/
theorem andThen (hrule : rule.Fixed c)
    (hnext : ∀ x c', rule c = .ok (x, c') → (next x).Foresees (fun _ => False) E c') :
    (rule >>= next).Foresees M E c :=
  hrule.bind hnext (fun _ _ _ => .inr fun _ => trivial) fun _ _ _ => .inl trivial

/-- Before what takes a token it does not matter where else the first rule would stop. -/
theorem before (hrule : rule.Foresees Moves Ends c)
    (hnext : ∀ x c', rule c = .ok (x, c') → (next x).Foresees (fun _ => True) E c') :
    (rule >>= next).Foresees M E c :=
  hrule.bind hnext (fun _ _ _ => .inl trivial) fun _ _ _ => .inr trivial

theorem andReturn {f : α → β} (hrule : rule.Foresees Moves Ends c) (hmoves : ∀ x, M (f x) → Moves x)
    (hends : ∀ x c', E (f x) c' → Ends x c') :
    (rule >>= fun x => Pure.pure (f x)).Foresees M E c := by
  refine hrule.bind (fun x c' _ => (pure (f x)).mono (fun _ hy => hy) fun _ _ _ => trivial) ?_ ?_
  · intro x y c'
    by_cases hy : y = f x
    · exact .inr fun hE => hends x c' (hy ▸ hE)
    · exact .inl hy
  · intro x y hM
    by_cases hy : y = f x
    · exact .inl (hmoves x (hy ▸ hM))
    · exact .inr hy

theorem map {S : Cursor → Prop} (hrule : rule.Foresees (fun _ => True) (fun _ => S) c) (f : α → β) :
    (rule >>= fun x => Pure.pure (f x)).Foresees M (fun _ => S) c :=
  hrule.andReturn (fun _ _ => trivial) fun _ _ => id

/-- A rule that is another one wherever the next token is the one here. If it takes no token, then
where else it would stop has to be said. -/
theorem congr {rule' : Rule α} (h : rule'.Foresees Moves Ends c)
    (heq : ∀ rest, rest.head? = c.rest.head? → rule ⟨c.line, rest⟩ = rule' ⟨c.line, rest⟩)
    (hstay : ∀ x c', Moves x ∨ (Ends x c' → rule c' = .ok (x, c'))) : rule.Foresees Moves Ends c where
  matched x c' hrun := by
    rw [heq c.rest rfl] at hrun
    obtain ⟨used, hpasses, hused, hrest⟩ := h.matched x c' hrun
    refine ⟨used, hpasses, hused, fun rest hhead => ?_⟩
    cases used with
    | cons token used => rw [heq _ (by rw [hpasses.rest]; rfl), hrest rest hhead]
    | nil =>
        cases hpasses.eq_of_nil
        rcases hhead with hhead | hends
        · exact (heq rest hhead).trans (hrest rest (.inl hhead))
        · exact (hstay x _).resolve_left (fun hx => hused hx rfl) hends
  failed rejection hrun hspan := by
    rw [heq c.rest rfl] at hrun
    obtain ⟨hsome, hwants, hmore⟩ := h.failed rejection hrun hspan
    refine ⟨hsome, hwants, fun more => ?_⟩
    rw [heq _ (List.head?_append_of_ne_nil _ hsome)]
    exact hmore more

theorem peek {next : Option Token → Rule β} (h : (next c.rest.head?).Foresees M E c)
    (hstay : ∀ y c', M y ∨ (E y c' → (Rule.peek >>= next) c' = .ok (y, c'))) :
    (Rule.peek >>= next).Foresees M E c :=
  h.congr (fun rest hhead => by rw [peek_run, hhead]) hstay

theorem peekKind {next : Option Kind → Rule β}
    (h : (next (c.rest.head?.map (·.kind))).Foresees M E c)
    (hstay : ∀ y c', M y ∨ (E y c' → (Rule.peekKind >>= next) c' = .ok (y, c'))) :
    (Rule.peekKind >>= next).Foresees M E c :=
  h.congr (fun rest hhead => by rw [peekKind_run, hhead]) hstay

theorem peekSpan {next : Option Span → Rule β}
    (h : (next (c.rest.head?.map (·.span))).Foresees M E c)
    (hstay : ∀ y c', M y ∨ (E y c' → (Rule.peekSpan >>= next) c' = .ok (y, c'))) :
    (Rule.peekSpan >>= next).Foresees M E c :=
  h.congr (fun rest hhead => by rw [peekSpan_run, hhead]) hstay

theorem ite {p : Prop} [Decidable p] {yes no : Rule α} (hyes : p → yes.Foresees Moves Ends c)
    (hno : ¬p → no.Foresees Moves Ends c) : (if p then yes else no).Foresees Moves Ends c := by
  by_cases hp : p
  · rw [if_pos hp]
    exact hyes hp
  · rw [if_neg hp]
    exact hno hp

/-- A rule that always fails at the next token. -/
theorem of_fails (h : ∀ c', ∃ rejection, rule c' = .error rejection ∧
      rejection.span = c'.rest.head?.map (·.span) ∧
      (rejection.span ≠ none → rejection.wantsMore = false)) : rule.Foresees Moves Ends c where
  matched x c' hrun := by
    obtain ⟨rejection, hfails, -⟩ := h c
    cases hfails.symm.trans hrun
  failed rejection hrun hspan := by
    obtain ⟨rejection', hfails, hhead, hwants⟩ := h c
    cases hfails.symm.trans hrun
    refine ⟨?_, hwants hspan, fun more => ?_⟩
    · intro hnil
      rw [hhead, hnil] at hspan
      exact hspan rfl
    · obtain ⟨rejection', hfails', -⟩ := h ⟨c.line, c.rest ++ more⟩
      exact ⟨rejection', hfails'⟩

theorem reject (complaint : Complaint) : (Rule.reject complaint).Foresees Moves Ends c := by
  refine of_fails fun c' => ⟨_, rfl, rfl, fun hspan => ?_⟩
  exact Option.isNone_eq_false_iff.2 (Option.isSome_iff_ne_none.2 hspan)

theorem reject_bind {next : α → Rule β} (complaint : Complaint) :
    (Rule.reject complaint >>= next).Foresees M E c := by
  refine of_fails fun c' => ⟨_, rfl, rfl, fun hspan => ?_⟩
  exact Option.isNone_eq_false_iff.2 (Option.isSome_iff_ne_none.2 hspan)

theorem noMatch (required : Bool) : (Rule.noMatch required).Foresees Moves Ends c := by
  refine of_fails fun c' => ⟨_, rfl, rfl, fun hspan => ?_⟩
  exact Option.isNone_eq_false_iff.2 (Option.isSome_iff_ne_none.2 hspan)

theorem advance {token : Token} (hhead : c.rest.head? = some token) : Rule.advance.Fixed c where
  matched x c' hrun := by
    obtain ⟨rest, hrest⟩ := List.head?_eq_some_iff.1 hhead
    cases hrun
    refine ⟨[token], .advance hrest, by simp, fun rest' _ => ?_⟩
    rw [Cursor.advance, hrest]
    rfl
  failed rejection hrun := by cases hrun

/-- What moves past the next token when only its kind is known. -/
theorem advanceOf {kind : Kind} {next : Unit → Rule β}
    (hkind : c.rest.head?.map (·.kind) = some kind)
    (hnext : (next ()).Foresees (fun _ => False) E c.advance) :
    (Rule.advance >>= next).Foresees M E c := by
  obtain ⟨token, hhead, -⟩ := Option.map_eq_some_iff.1 hkind
  refine (advance hhead).andThen fun _ c' hrun => ?_
  cases hrun
  exact hnext

theorem accept (kind : Kind) : (Rule.accept kind).Foresees (· = true)
    (fun found c' => found = false → c'.rest.head?.map (·.kind) ≠ some kind) c := by
  refine .peekKind (.ite (fun hkind => ?_) fun hkind => ?_) fun found c' => ?_
  · obtain ⟨token, hhead, -⟩ := Option.map_eq_some_iff.1 hkind
    exact (advance hhead).andReturn (fun _ _ => trivial) fun _ _ _ => trivial
  · exact (pure false).mono (by simp) fun _ _ _ => trivial
  · cases found with
    | true => exact .inl rfl
    | false => exact .inr fun hother => accept_other (hother rfl)

theorem expect (kind : Kind) (complaint : Complaint) : (Rule.expect kind complaint).Fixed c := by
  refine (accept kind).bind (N := fun found _ => found = false) (fun found c' _ => ?_) ?_ ?_
  · cases found with
    | true => exact (pure ()).mono (by simp) fun _ _ _ => trivial
    | false => exact reject complaint
  · intro found _ c'
    cases found with
    | true => exact .inr fun _ hfalse => by cases hfalse
    | false => exact .inl rfl
  · intro found _ _
    cases found <;> simp

theorem because (h : rule.Foresees Moves Ends c) (complaint : Complaint) :
    (Rule.because complaint rule).Foresees Moves Ends c where
  matched x c' hrun := by
    cases hrule : rule c with
    | error rejection =>
        rw [Rule.because, hrule] at hrun
        cases hrun
    | ok found =>
        rw [Rule.because, hrule] at hrun
        cases hrun
        obtain ⟨used, hpasses, hused, hrest⟩ := h.matched x c' hrule
        exact ⟨used, hpasses, hused, fun rest hhead => because_run (hrest rest hhead) complaint⟩
  failed rejection hrun hspan := by
    cases hrule : rule c with
    | ok found =>
        rw [Rule.because, hrule] at hrun
        cases hrun
    | error found =>
        rw [Rule.because, hrule] at hrun
        cases hrun
        obtain ⟨hsome, hwants, hmore⟩ := h.failed found hrule hspan
        refine ⟨hsome, hwants, fun more => ?_⟩
        obtain ⟨rejection', hrun'⟩ := hmore more
        exact ⟨rejection'.because complaint, by rw [Rule.because, hrun']⟩

end Foresees

/-- Where a rule that need not match would stop: by what it found, or where there is nothing. -/
def EndsWith (Ends : α → Cursor → Prop) (Nothing : Cursor → Prop) : Option α → Cursor → Prop
  | some x, c => Ends x c
  | none, c => Nothing c

namespace Foresees

variable {rule : Rule α} {c : Cursor} {Moves : α → Prop} {Ends : α → Cursor → Prop}

theorem nothing {E : Option α → Cursor → Prop} :
    (Pure.pure none : Rule (Option α)).Foresees (·.isSome) E c := by
  refine (pure none).mono (fun found hsome => ?_) fun _ _ _ => trivial
  rintro rfl
  cases hsome

theorem name? : Rule.name?.Foresees (·.isSome) (EndsWith (fun _ _ => True)
    fun c' => c'.rest.head?.map (·.kind) ≠ some .identifier) c := by
  refine .peek ?_ fun found c' => ?_
  · cases hhead : c.rest.head? with
    | none => exact nothing
    | some token =>
        refine .ite (fun _ => ?_) fun _ => nothing
        exact (advance hhead).andReturn (fun _ _ => trivial) fun _ _ _ => trivial
  · cases found with
    | some name => exact .inl rfl
    | none => exact .inr name?_other

theorem name (complaint : Complaint) : (Rule.name complaint).Fixed c := by
  refine name?.bind (N := fun found _ => found = none) (fun found c' _ => ?_) ?_ ?_
  · cases found with
    | some name => exact (pure name).mono (by simp) fun _ _ _ => trivial
    | none => exact reject complaint
  · intro found _ c'
    cases found with
    | some name => exact .inr fun _ => trivial
    | none => exact .inl rfl
  · intro found _ _
    cases found <;> simp

theorem after {kind : Kind} (h : ∀ c', rule.Foresees Moves Ends c') :
    (Rule.after kind rule).Foresees (·.isSome) (EndsWith Ends
      fun c' => c'.rest.head?.map (·.kind) ≠ some kind) c := by
  refine (accept kind).bind (N := fun found y => found = false ∧ y.isSome) (fun found c' _ => ?_)
    ?_ ?_
  · cases found with
    | true => exact (h c').andReturn (by simp) fun _ _ hends => hends
    | false => exact nothing.mono (fun _ hy => hy.2) fun _ _ hends => hends
  · intro found y c'
    cases found with
    | true => exact .inr fun _ hfalse => by cases hfalse
    | false =>
        cases y with
        | none => exact .inr fun hother _ => hother
        | some x => exact .inl ⟨rfl, rfl⟩
  · intro found y hy
    cases found with
    | true => exact .inl rfl
    | false => exact .inr ⟨rfl, hy⟩

/-- Something that need not be there, and is not only where nothing begins. -/
theorem optional {Nothing : Cursor → Prop} (h : rule.Foresees (fun _ => True) Ends c)
    (hnothing : ∀ c rejection, rule c = .error rejection → rejection.committed = false →
      ∀ rest, rest.head? = c.rest.head? ∨ Nothing ⟨c.line, rest⟩ →
        ∃ rejection', rule ⟨c.line, rest⟩ = .error rejection' ∧ rejection'.committed = false) :
    (Rule.optional rule).Foresees (·.isSome) (EndsWith Ends Nothing) c where
  matched found c' hrun := by
    cases hrule : rule c with
    | ok found' =>
        rw [Rule.optional, hrule] at hrun
        cases hrun
        obtain ⟨used, hpasses, hused, hrest⟩ := h.matched _ _ hrule
        exact ⟨used, hpasses, fun _ => hused trivial, fun rest hhead => optional_run (hrest rest hhead)⟩
    | error rejection =>
        rw [Rule.optional, hrule] at hrun
        simp only at hrun
        split at hrun
        · cases hrun
        next hcommitted =>
          cases hrun
          refine ⟨[], .nil c, by simp, fun rest hhead => ?_⟩
          obtain ⟨rejection', hrule', hcommitted'⟩ :=
            hnothing c rejection hrule (Bool.eq_false_iff.2 hcommitted) rest hhead
          exact optional_absent hrule' hcommitted'
  failed rejection hrun hspan := by
    cases hrule : rule c with
    | ok found =>
        rw [Rule.optional, hrule] at hrun
        cases hrun
    | error found =>
        rw [Rule.optional, hrule] at hrun
        simp only at hrun
        split at hrun
        next hcommitted =>
          cases hrun
          obtain ⟨hsome, hwants, hmore⟩ := h.failed _ hrule hspan
          refine ⟨hsome, hwants, fun more => ?_⟩
          obtain ⟨rejection', hrule'⟩ := hmore more
          cases hcommitted' : rejection'.committed with
          | true => exact ⟨rejection', optional_committed hrule' hcommitted'⟩
          | false =>
              -- a failure there that is not one for good would be one here too
              obtain ⟨rejection'', hrule'', hfalse⟩ := hnothing _ rejection' hrule' hcommitted' c.rest
                (.inl (List.head?_append_of_ne_nil _ hsome).symm)
              cases hrule.symm.trans hrule''
              rw [hcommitted] at hfalse
              cases hfalse
        · cases hrun

end Foresees

/-! ### Repetition -/

section Many

variable {item : Rule (Option α)}

theorem manyWithin_error {c : Cursor} {rejection : Rejection} (h : item c = .error rejection)
    (budget : List Token) : manyWithin item budget c = .error rejection := by
  cases budget <;> exact bind_error h _

theorem manyWithin_none {c c' : Cursor} (h : item c = .ok (none, c')) (budget : List Token) :
    manyWithin item budget c = .ok ([], c') := by
  cases budget <;> exact (bind_run h _).trans rfl

/-- How far a rule is repeated does not depend on the budget. -/
theorem manyWithin_congr
    (hitem : ∀ c x c', item c = .ok (some x, c') → c'.rest.length < c.rest.length)
    {budget budget' : List Token} {c : Cursor} (hbudget : c.rest.length ≤ budget.length)
    (hbudget' : c.rest.length ≤ budget'.length) :
    manyWithin item budget c = manyWithin item budget' c := by
  induction budget generalizing c budget' with
  | nil =>
      cases hrun : item c with
      | error rejection => rw [manyWithin_error hrun, manyWithin_error hrun]
      | ok found =>
          obtain ⟨found, c'⟩ := found
          cases found with
          | none => rw [manyWithin_none hrun, manyWithin_none hrun]
          | some x => exact absurd (Nat.lt_of_lt_of_le (hitem c x c' hrun) hbudget) (Nat.not_lt_zero _)
  | cons token budget ih =>
      cases hrun : item c with
      | error rejection => rw [manyWithin_error hrun, manyWithin_error hrun]
      | ok found =>
          obtain ⟨found, c'⟩ := found
          cases found with
          | none => rw [manyWithin_none hrun, manyWithin_none hrun]
          | some x =>
              have hlength := hitem c x c' hrun
              cases budget' with
              | nil => exact absurd (Nat.lt_of_lt_of_le hlength hbudget') (Nat.not_lt_zero _)
              | cons token' budget' =>
                  have hrest : manyWithin item budget c' = manyWithin item budget' c' :=
                    ih (Nat.le_of_lt_succ (Nat.lt_of_lt_of_le hlength hbudget))
                      (Nat.le_of_lt_succ (Nat.lt_of_lt_of_le hlength hbudget'))
                  rw [manyWithin, manyWithin, bind_run hrun, bind_run hrun]
                  exact congrArg (· >>= fun found => Except.ok (x :: found.1, found.2)) hrest

/-- A repetition finds nothing, or an item and then the others. -/
theorem many_eq (hitem : ∀ c x c', item c = .ok (some x, c') → c'.rest.length < c.rest.length) :
    many item = (item >>= fun found => match found with
      | none => pure []
      | some x => many item >>= fun xs => pure (x :: xs)) := by
  funext c
  cases hrun : item c with
  | error rejection => rw [bind_error hrun]; exact manyWithin_error hrun c.rest
  | ok found =>
      obtain ⟨found, c'⟩ := found
      rw [bind_run hrun]
      cases found with
      | none => exact manyWithin_none hrun c.rest
      | some x =>
          have hlength := hitem c x c' hrun
          obtain ⟨token, rest, hrest⟩ := List.exists_cons_of_length_pos (Nat.zero_lt_of_lt hlength)
          rw [hrest] at hlength
          have hmany : manyWithin item rest c' = many item c' :=
            manyWithin_congr hitem (Nat.le_of_lt_succ hlength) (Nat.le_refl _)
          have hrun' : many item c = (manyWithin item rest >>= fun xs => pure (x :: xs)) c' := by
            change manyWithin item c.rest c = _
            rw [hrest, manyWithin, bind_run hrun]
          rw [hrun']
          exact congrArg (· >>= fun found => Except.ok (x :: found.1, found.2)) hmany

theorem many_bind_eq (hitem : ∀ c x c', item c = .ok (some x, c') → c'.rest.length < c.rest.length)
    (next : List α → Rule β) : (many item >>= next) = (item >>= fun found =>
      found.elim (next []) fun x => many item >>= fun xs => next (x :: xs)) := by
  refine (congrArg (· >>= next) (many_eq hitem)).trans ?_
  simp only [bind_assoc]
  refine congrArg (item >>= ·) (funext fun found => ?_)
  cases found with
  | none => rw [pure_bind, Option.elim_none]
  | some x => simp only [bind_assoc, pure_bind, Option.elim_some]

theorem length_lt_of_foresees {Ends : Option α → Cursor → Prop} {c c' : Cursor} {x : α}
    (h : item.Foresees (·.isSome) Ends c) (hrun : item c = .ok (some x, c')) :
    c'.rest.length < c.rest.length := by
  obtain ⟨used, hpasses, hused, -⟩ := h.matched _ _ hrun
  have := List.length_pos_iff.2 (hused rfl)
  rw [hpasses.rest, List.length_append]
  omega

/-- Items one after another, up to where there is none. -/
theorem Foresees.many {Ends : Option α → Cursor → Prop} {E : Cursor → Prop}
    (hitem : ∀ c, item.Foresees (·.isSome) Ends c) (hends : ∀ found c, E c → Ends found c)
    (c : Cursor) : (Rule.many item).Foresees (fun _ => False) (fun _ => E) c := by
  have hshorter : ∀ c x c', item c = .ok (some x, c') → c'.rest.length < c.rest.length :=
    fun c _ _ => length_lt_of_foresees (hitem c)
  -- the items after the first one come from fewer tokens
  induction hlength : c.rest.length using Nat.strongRecOn generalizing c with
  | ind n ih =>
      rw [many_eq hshorter]
      refine (hitem c).bind (N := fun _ _ => False) (fun found c' hrun => ?_) ?_ ?_
      · cases found with
        | none => exact (pure []).mono (fun _ => False.elim) fun _ _ _ => trivial
        | some x =>
            have hrest := ih _ (hlength ▸ hshorter c x c' hrun) c' rfl
            exact hrest.andReturn (fun _ => id) fun _ _ => id
      · exact fun found _ c' => .inr (hends found c')
      · exact fun _ _ hfalse => hfalse.elim

end Many

end Rule

end TableScript
