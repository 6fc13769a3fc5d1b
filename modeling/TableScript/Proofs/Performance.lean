import TableScript.Proofs.Foresight
import TableScript.Proofs.Recogniser

/-!
What it means that a recogniser performs a rule. Where the rule matches, the recogniser ends, has
the same result and stands behind the same tokens; where the rule fails, it ends with the same
failure. The depth is as before in both cases. Each move of the machine performs a move of the
grammar, and a loop whose items take tokens performs a repetition.
-/

namespace TableScript

variable {α β : Type} {tokens : List Token}

/-- A place in a row of tokens, before one of them or behind the last one. -/
abbrev Mark (tokens : List Token) := Fin (tokens.length + 1)

/-- The place behind a number of tokens. -/
def Cursor.behind (tokens : List Token) (k : Nat) : Cursor where
  line := match k with
    | 0 => none
    | before + 1 => tokens[before]?.map (·.span.line)
  rest := tokens.drop k

theorem Cursor.behind_zero (tokens : List Token) : behind tokens 0 = start tokens :=
  rfl

@[simp]
theorem Cursor.head?_behind (tokens : List Token) (k : Nat) :
    (behind tokens k).rest.head? = tokens[k]? :=
  List.head?_drop

theorem Cursor.advance_behind {token : Token} {k : Nat} (h : tokens[k]? = some token) :
    (behind tokens k).advance = behind tokens (k + 1) := by
  obtain ⟨hlength, rfl⟩ := List.getElem?_eq_some_iff.1 h
  simp only [advance, behind, List.drop_eq_getElem_cons hlength, List.getElem?_eq_getElem hlength,
    Option.map_some]

theorem Cursor.length_behind (tokens : List Token) (k : Nat) :
    (behind tokens k).rest.length = tokens.length - k :=
  List.length_drop

/-- A rule moves on, and where it takes a token it is further on. -/
theorem Rule.Foresees.mark_le {rule : Rule α} {Moves : α → Prop} {Ends : α → Cursor → Prop} {x : α}
    {k k' : Mark tokens} (h : rule.Foresees Moves Ends (.behind tokens k))
    (hrun : rule (.behind tokens k) = .ok (x, .behind tokens k')) :
    k.val ≤ k'.val ∧ (Moves x → k.val < k'.val) := by
  obtain ⟨used, hpasses, hused, -⟩ := h.matched _ _ hrun
  have hlength : tokens.length - k.val = used.length + (tokens.length - k'.val) := by
    rw [← Cursor.length_behind, hpasses.rest, List.length_append, Cursor.length_behind]
  have hk := k.isLt
  have hk' := k'.isLt
  refine ⟨by omega, fun hx => ?_⟩
  have := List.length_pos_iff.2 (hused hx)
  omega

theorem Rule.after_bind_eq {rule : Rule α} (kind : Kind) (next : Option α → Rule β) :
    (Rule.after kind rule >>= next) = (Rule.accept kind >>= fun found =>
      if found then rule >>= fun x => next (some x) else next none) := by
  rw [Rule.after, bind_assoc]
  refine congrArg (Rule.accept kind >>= ·) (funext fun found => ?_)
  cases found with
  | false => rfl
  | true => simp only [if_true, bind_assoc, pure_bind]

/-- What is tried and is one rule after another is missing only where the first one is. -/
theorem Rule.optional_bind_eq {rule : Rule α} {next : α → Rule β} (hnext : ∀ x, (next x).Commits) :
    Rule.optional (rule >>= next) = (Rule.optional rule >>= fun found =>
      found.elim (pure none) fun x => next x >>= fun y => pure (some y)) := by
  funext c
  cases hrule : rule c with
  | error rejection =>
      have hnone : Rule.optional rule c = if rejection.committed then .error rejection
          else .ok (none, c) := by rw [Rule.optional, hrule]
      rw [Rule.optional, Rule.bind_error hrule]
      by_cases hcommitted : rejection.committed
      · rw [if_pos hcommitted] at hnone
        rw [Rule.bind_error hnone]
        exact if_pos hcommitted
      · rw [if_neg hcommitted] at hnone
        rw [Rule.bind_run hnone]
        exact if_neg hcommitted
  | ok found =>
      obtain ⟨x, c'⟩ := found
      rw [Rule.bind_run (Rule.optional_run hrule), Rule.optional, Rule.bind_run hrule,
        Option.elim_some]
      cases hrun : next x c' with
      | error rejection =>
          rw [Rule.bind_error hrun]
          exact if_pos (hnext x c' rejection hrun)
      | ok result =>
          rw [Rule.bind_run hrun]
          rfl

namespace Recogniser

/-- A recogniser does at a place what a rule does. Where both fail, its cursor may be anywhere. -/
inductive Performs (depth : Nat) (k : Mark tokens) (m : Recogniser α) (rule : Rule α) : Prop where
  | ok {x : α} {k' : Mark tokens} (hrule : rule (.behind tokens k) = .ok (x, .behind tokens k'))
      (hrun : m tokens ⟨k, depth⟩ = some (.ok x, ⟨k', depth⟩)) : Performs depth k m rule
  | error {rejection : Rejection} {cursor : Nat}
      (hrule : rule (.behind tokens k) = .error rejection)
      (hrun : m tokens ⟨k, depth⟩ = some (.error rejection, ⟨cursor, depth⟩)) :
      Performs depth k m rule

section Runs

variable {m : Recogniser α} {s s' : Standing} {rejection : Rejection} {x : α}

theorem bind_run (h : m tokens s = some (.ok x, s')) (next : α → Recogniser β) :
    (m >>= next) tokens s = next x tokens s' := by
  show (m tokens s).bind _ = _
  rw [h]
  rfl

theorem bind_error (h : m tokens s = some (.error rejection, s')) (next : α → Recogniser β) :
    (m >>= next) tokens s = some (.error rejection, s') := by
  show (m tokens s).bind _ = _
  rw [h]
  rfl

theorem peek_run (s : Standing) (next : Option Token → Recogniser β) :
    (peek >>= next) tokens s = next tokens[s.cursor]? tokens s :=
  rfl

theorem peekKind_run (s : Standing) (next : Option Kind → Recogniser β) :
    (peekKind >>= next) tokens s = next (tokens[s.cursor]?.map (·.kind)) tokens s :=
  rfl

theorem attempt_noMatch {required : Bool}
    (h : m tokens s = (noMatch required : Recogniser α) tokens s) :
    attempt m tokens s = (noMatch required : Recogniser α) tokens s := by
  rw [attempt, h]
  rfl

theorem optional_attempt (m : Bool → Recogniser α) :
    optional (fun required => attempt (m required)) tokens s = optional m tokens s := by
  rw [optional, optional, attempt, attempt]
  cases m false tokens s with
  | none => rfl
  | some outcome =>
      obtain ⟨result, s'⟩ := outcome
      cases result <;> rfl

/-- One level down and up again. -/
theorem nested_run {construct : Construct} {result : Except Rejection α} {cursor : Nat}
    (hdepth : s.depth < Grammar.maxDepth)
    (h : m tokens { s with depth := s.depth + 1 } = some (result, ⟨cursor, s.depth + 1⟩)) :
    nested construct m tokens s = some (result, ⟨cursor, s.depth⟩) := by
  rw [nested, if_neg (Nat.not_le_of_lt hdepth), h]
  rfl

theorem token_there {token : Token} {kind : Kind} (hhead : tokens[s.cursor]? = some token)
    (hkind : token.kind = kind) (required : Bool) : Recogniser.token kind required tokens s =
      some (.ok token, { s with cursor := s.cursor + 1 }) := by
  rw [Recogniser.token, peek_run, hhead]
  simp only [if_pos hkind]
  rfl

theorem token_other {kind : Kind} (h : tokens[s.cursor]?.map (·.kind) ≠ some kind)
    (required : Bool) : Recogniser.token kind required tokens s =
      (noMatch required : Recogniser Token) tokens s := by
  rw [Recogniser.token, peek_run]
  cases hhead : tokens[s.cursor]? with
  | none => rfl
  | some token =>
      rw [hhead] at h
      simp only [if_neg fun hkind => h (congrArg some hkind)]

theorem taken_there {kind : Kind} (h : tokens[s.cursor]?.map (·.kind) = some kind) :
    taken kind tokens s = some (.ok true, { s with cursor := s.cursor + 1 }) := by
  obtain ⟨token, hhead, hkind⟩ := Option.map_eq_some_iff.1 h
  rw [taken, token_there hhead hkind]

theorem taken_other {kind : Kind} (h : tokens[s.cursor]?.map (·.kind) ≠ some kind) :
    taken kind tokens s = some (.ok false, s) := by
  rw [taken, token_other h]
  rfl

theorem expect_there {kind : Kind} (h : tokens[s.cursor]?.map (·.kind) = some kind)
    (complaint : Complaint) :
    expect kind complaint tokens s = some (.ok (), { s with cursor := s.cursor + 1 }) := by
  obtain ⟨token, hhead, hkind⟩ := Option.map_eq_some_iff.1 h
  refine bind_run (m := because complaint (Recogniser.token kind true)) (x := token) ?_ _
  rw [because, token_there hhead hkind]

end Runs

namespace Performs

variable {depth : Nat} {k : Mark tokens} {m m' : Recogniser α} {rule rule' : Rule α}
  {next : α → Recogniser β} {next' : α → Rule β}

theorem congr (h : Performs depth k m rule) (hm : m' tokens ⟨k, depth⟩ = m tokens ⟨k, depth⟩)
    (hrule : rule' (.behind tokens k) = rule (.behind tokens k)) : Performs depth k m' rule' := by
  cases h with
  | ok hfound hrun => exact .ok (hrule.trans hfound) (hm.trans hrun)
  | error hfails hrun => exact .error (hrule.trans hfails) (hm.trans hrun)

theorem pure (x : α) : Performs depth k (Pure.pure x) (Pure.pure x) :=
  .ok rfl rfl

/-- One recogniser after another that has matched. -/
theorem andThen {x : α} {k' : Mark tokens}
    (hfound : rule (.behind tokens k) = .ok (x, .behind tokens k'))
    (hrun : m tokens ⟨k, depth⟩ = some (.ok x, ⟨k', depth⟩))
    (hnext : Performs depth k' (next x) (next' x)) :
    Performs depth k (m >>= next) (rule >>= next') := by
  cases hnext with
  | ok hfound' hrun' =>
      exact .ok ((Rule.bind_run hfound _).trans hfound') ((bind_run hrun _).trans hrun')
  | error hfails' hrun' =>
      exact .error ((Rule.bind_run hfound _).trans hfails') ((bind_run hrun _).trans hrun')

theorem bindAt (h : Performs depth k m rule) (hnext : ∀ x (k' : Mark tokens),
      rule (.behind tokens k) = .ok (x, .behind tokens k') → Performs depth k' (next x) (next' x)) :
    Performs depth k (m >>= next) (rule >>= next') := by
  cases h with
  | ok hfound hrun => exact andThen hfound hrun (hnext _ _ hfound)
  | error hfails hrun => exact .error (Rule.bind_error hfails _) (bind_error hrun _)

theorem bind (h : Performs depth k m rule)
    (hnext : ∀ x (k' : Mark tokens), Performs depth k' (next x) (next' x)) :
    Performs depth k (m >>= next) (rule >>= next') :=
  h.bindAt fun x k' _ => hnext x k'

theorem andReturn (h : Performs depth k m rule) (f : α → β) :
    Performs depth k (m >>= fun x => Pure.pure (f x)) (rule >>= fun x => Pure.pure (f x)) :=
  h.bind fun x _ => .pure (f x)

theorem ite {p : Prop} [Decidable p] {no : Recogniser α} {no' : Rule α}
    (hyes : p → Performs depth k m rule) (hno : ¬p → Performs depth k no no') :
    Performs depth k (if p then m else no) (if p then rule else no') := by
  by_cases hp : p
  · rw [if_pos hp, if_pos hp]
    exact hyes hp
  · rw [if_neg hp, if_neg hp]
    exact hno hp

theorem peek {next : Option Token → Recogniser β} {next' : Option Token → Rule β}
    (h : Performs depth k (next tokens[k.val]?) (next' tokens[k.val]?)) :
    Performs depth k (Recogniser.peek >>= next) (Rule.peek >>= next') := by
  refine h.congr rfl ?_
  rw [Rule.peek_run, Cursor.head?_behind]

theorem peekKind {next : Option Kind → Recogniser β} {next' : Option Kind → Rule β}
    (h : Performs depth k (next (tokens[k.val]?.map (·.kind)))
      (next' (tokens[k.val]?.map (·.kind)))) :
    Performs depth k (Recogniser.peekKind >>= next) (Rule.peekKind >>= next') := by
  refine h.congr rfl ?_
  rw [Rule.peekKind_run, Cursor.head?_behind]

theorem peekSpan {next : Option Span → Recogniser β} {next' : Option Span → Rule β}
    (h : Performs depth k (next (tokens[k.val]?.map (·.span)))
      (next' (tokens[k.val]?.map (·.span)))) :
    Performs depth k (Recogniser.peekSpan >>= next) (Rule.peekSpan >>= next') := by
  refine h.congr rfl ?_
  rw [Rule.peekSpan_run, Cursor.head?_behind]

theorem throw (rejection : Rejection) :
    Performs depth k (MonadExcept.throw rejection : Recogniser α) (MonadExcept.throw rejection) :=
  .error rfl rfl

theorem noMatch (required : Bool) :
    Performs depth k (Recogniser.noMatch required : Recogniser α) (Rule.noMatch required) :=
  peekSpan (throw _)

theorem reject (complaint : Complaint) :
    Performs depth k (Recogniser.reject complaint : Recogniser α) (Rule.reject complaint) :=
  peekSpan (throw _)

/-- The next place, if there is a token to move past. -/
theorem advance {token : Token} (hhead : tokens[k.val]? = some token) :
    Performs depth k Recogniser.advance Rule.advance := by
  obtain ⟨hlength, -⟩ := List.getElem?_eq_some_iff.1 hhead
  let next : Mark tokens := ⟨k + 1, Nat.succ_lt_succ hlength⟩
  have hrule : Rule.advance (.behind tokens k) = .ok ((), .behind tokens next) :=
    congrArg (fun c => Except.ok ((), c)) (Cursor.advance_behind hhead)
  exact .ok hrule rfl

theorem because (h : Performs depth k m rule) (complaint : Complaint) :
    Performs depth k (Recogniser.because complaint m) (Rule.because complaint rule) := by
  cases h with
  | ok hfound hrun => exact .ok (Rule.because_run hfound _) (by rw [Recogniser.because, hrun])
  | error hfails hrun =>
      exact .error (by rw [Rule.because, hfails]) (by rw [Recogniser.because, hrun])

theorem attempt (h : Performs depth k m rule) : Performs depth k (Recogniser.attempt m) rule := by
  cases h with
  | ok hfound hrun => exact .ok hfound (by rw [Recogniser.attempt, hrun])
  | error hfails hrun => exact .error hfails (by rw [Recogniser.attempt, hrun])

/-- What begins with a token that is there. -/
theorem opened {kind : Kind} {required : Bool}
    (hkind : tokens[k.val]?.map (·.kind) = some kind)
    (h : ∀ k' : Mark tokens, Performs depth k' m rule) :
    Performs depth k (Recogniser.token kind required >>= fun _ => m)
      (Rule.advance >>= fun _ => rule) := by
  obtain ⟨token, hhead, hkind⟩ := Option.map_eq_some_iff.1 hkind
  have hadvance : Performs depth k (Recogniser.advance >>= fun _ => m)
      (Rule.advance >>= fun _ => rule) := (advance hhead).bind fun _ => h
  exact hadvance.congr (bind_run (token_there hhead hkind required) _) rfl

theorem taken (kind : Kind) : Performs depth k (Recogniser.taken kind) (Rule.accept kind) := by
  by_cases hkind : tokens[k.val]?.map (·.kind) = some kind
  · obtain ⟨token, hhead, -⟩ := Option.map_eq_some_iff.1 hkind
    refine ((advance hhead).andReturn fun _ => true).congr (taken_there hkind) ?_
    rw [Rule.accept, Rule.peekKind_run, Cursor.head?_behind, if_pos hkind]
  · refine (pure false).congr (taken_other hkind) ?_
    rw [Rule.accept, Rule.peekKind_run, Cursor.head?_behind, if_neg hkind]

theorem expect (kind : Kind) (complaint : Complaint) :
    Performs depth k (Recogniser.expect kind complaint) (Rule.expect kind complaint) := by
  by_cases hkind : tokens[k.val]?.map (·.kind) = some kind
  · obtain ⟨token, hhead, -⟩ := Option.map_eq_some_iff.1 hkind
    refine (advance hhead).congr (expect_there hkind complaint) ?_
    rw [Rule.expect, Rule.accept_bind, Rule.peekKind_run, Cursor.head?_behind, if_pos hkind]
    rfl
  · refine (reject complaint).congr (bind_error ?_ _) ?_
    · rw [Recogniser.because, token_other hkind]
      rfl
    · rw [Rule.expect, Rule.accept_bind, Rule.peekKind_run, Cursor.head?_behind, if_neg hkind]
      rfl

theorem after (kind : Kind) (h : ∀ k' : Mark tokens, Performs depth k' m rule) :
    Performs depth k (Recogniser.after kind m) (Rule.after kind rule) :=
  (taken kind).bind fun _ k' => ite (fun _ => (h k').andReturn some) fun _ => pure none

/-! ### Names -/

theorem identifier_there {token : Token} {s : Standing} (hhead : tokens[s.cursor]? = some token)
    (hkind : token.kind = .identifier) (required : Bool) : Recogniser.identifier required tokens s =
      some (.ok token.textD, { s with cursor := s.cursor + 1 }) :=
  bind_run (token_there hhead hkind required) _

theorem identifier_other {s : Standing} (h : tokens[s.cursor]?.map (·.kind) ≠ some .identifier)
    (required : Bool) : Recogniser.identifier required tokens s =
      (Recogniser.noMatch required : Recogniser String) tokens s :=
  bind_error (token_other h required) _

theorem name? : Performs depth k (Recogniser.optional identifier) Rule.name? := by
  by_cases hkind : tokens[k.val]?.map (·.kind) = some .identifier
  · obtain ⟨token, hhead, htoken⟩ := Option.map_eq_some_iff.1 hkind
    refine ((advance hhead).andReturn fun _ => some token.textD).congr ?_ ?_
    · rw [Recogniser.optional, Recogniser.attempt, identifier_there hhead htoken]
      rfl
    · rw [Rule.name?, Rule.peek_run, Cursor.head?_behind, hhead]
      simp only [if_pos htoken]
  · refine (pure none).congr ?_ (Rule.name?_other ?_)
    · rw [Recogniser.optional, Recogniser.attempt, identifier_other hkind]
      rfl
    · rw [Cursor.head?_behind]
      exact hkind

theorem name (complaint : Complaint) :
    Performs depth k (Recogniser.name complaint) (Rule.name complaint) := by
  by_cases hkind : tokens[k.val]?.map (·.kind) = some .identifier
  · obtain ⟨token, hhead, htoken⟩ := Option.map_eq_some_iff.1 hkind
    refine ((advance hhead).andReturn fun _ => token.textD).congr ?_ ?_
    · rw [Recogniser.name, Recogniser.because, identifier_there hhead htoken]
      rfl
    · rw [Rule.name, Rule.name?, bind_assoc, Rule.peek_run, Cursor.head?_behind, hhead]
      simp only [if_pos htoken, bind_assoc, pure_bind]
  · refine (reject complaint).congr ?_ ?_
    · rw [Recogniser.name, Recogniser.because, identifier_other hkind]
      rfl
    · rw [Rule.name, Rule.bind_run (Rule.name?_other _)]
      rw [Cursor.head?_behind]
      exact hkind

/-! ### Rules that need not match -/

theorem optional {m : Bool → Recogniser α} (h : Performs depth k (m false) rule) :
    Performs depth k (Recogniser.optional m) (Rule.optional rule) := by
  cases h with
  | ok hfound hrun =>
      refine .ok (by rw [Rule.optional, hfound]) ?_
      rw [Recogniser.optional, Recogniser.attempt, hrun]
  | @error rejection cursor hfails hrun =>
      -- wherever the failure has left the cursor, it is back at the place before
      have hrule : Rule.optional rule (.behind tokens k) = if rejection.committed then
          .error rejection else .ok (none, .behind tokens k) := by rw [Rule.optional, hfails]
      have hm : Recogniser.optional m tokens ⟨k, depth⟩ = if rejection.committed then
          some (.error rejection, ⟨k, depth⟩) else some (.ok none, ⟨k, depth⟩) := by
        rw [Recogniser.optional, Recogniser.attempt, hrun]
      by_cases hcommitted : rejection.committed
      · rw [if_pos hcommitted] at hrule hm
        exact .error hrule hm
      · rw [if_neg hcommitted] at hrule hm
        exact .ok hrule hm

/-- What has begun, so that it cannot be missing. -/
theorem found {m : Bool → Recogniser α} (h : Performs depth k (m false) rule)
    (hcommits : rule.CommitsAt (.behind tokens k)) :
    Performs depth k (Recogniser.optional m) (rule >>= fun x => Pure.pure (some x)) := by
  refine h.optional.congr rfl ?_
  cases h with
  | ok hfound hrun =>
      rw [Rule.bind_run hfound, Rule.optional, hfound]
      rfl
  | error hfails hrun =>
      rw [Rule.bind_error hfails, Rule.optional, hfails]
      exact (if_pos (hcommits _ hfails)).symm

/-- What has begun with its first token. -/
theorem begun {m : Bool → Recogniser α}
    (h : Performs depth k (m false) (Rule.advance >>= fun _ => rule)) (hcommits : rule.Commits) :
    Performs depth k (Recogniser.optional m)
      (Rule.advance >>= fun _ => rule >>= fun x => Pure.pure (some x)) := by
  have hfound := h.found (Rule.Commits.advance.bind (fun _ => hcommits) _)
  rwa [bind_assoc] at hfound

theorem missing {m : Bool → Recogniser α}
    (h : m false tokens ⟨k, depth⟩ = Recogniser.noMatch false tokens ⟨k, depth⟩) :
    Performs depth k (Recogniser.optional m) (Pure.pure none) := by
  refine (pure none).congr ?_ rfl
  rw [Recogniser.optional, Recogniser.attempt, h]
  rfl

/-- What is tried by its first token. -/
theorem optionalKind {next : Bool → Option Kind → Recogniser α}
    {next' : Option Kind → Rule (Option α)}
    (h : Performs depth k
      (Recogniser.optional fun required => next required (tokens[k.val]?.map (·.kind)))
      (next' (tokens[k.val]?.map (·.kind)))) :
    Performs depth k (Recogniser.optional fun required => Recogniser.peekKind >>= next required)
      (Rule.peekKind >>= next') := by
  refine h.congr rfl ?_
  rw [Rule.peekKind_run, Cursor.head?_behind]

/-! ### Loops -/

variable {item : Recogniser (Option α)} {item' : Rule (Option α)}

/-- The items after the first one come from fewer tokens, so a round for each token and one more
are enough. -/
theorem many {rounds : Nat} (hrounds : tokens.length < rounds)
    (h : ∀ k : Mark tokens, Performs depth k item item')
    (hshorter : ∀ c x c', item' c = .ok (some x, c') → c'.rest.length < c.rest.length)
    (k : Mark tokens) : Performs depth k (Recogniser.many rounds item) (Rule.many item') := by
  -- the rounds go down with the tokens that are left, not with all of them
  have hleft : tokens.length - k.val < rounds := Nat.lt_of_le_of_lt (Nat.sub_le _ _) hrounds
  clear hrounds
  induction rounds generalizing k with
  | zero => exact absurd hleft (Nat.not_lt_zero _)
  | succ rounds ih =>
      rw [Recogniser.many, Rule.many_eq hshorter]
      refine (h k).bindAt fun found k' hfound => ?_
      cases found with
      | none => exact pure []
      | some x =>
          have hless := hshorter _ _ _ hfound
          rw [Cursor.length_behind, Cursor.length_behind] at hless
          exact (ih k' (by omega)).andReturn (x :: ·)

end Performs

end Recogniser

end TableScript
