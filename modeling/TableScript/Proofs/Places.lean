import TableScript.Proofs.Matching
import TableScript.Proofs.Parsed

/-!
Where tokens stand. Of a token the rules see its kind and its text; its place matters only where an
opening bracket may or may not be on the line of the token before. Two rows of tokens that agree in
these are read alike, and where a rule fails it fails at the same token of both.
-/

namespace TableScript

open Rule

variable {α β : Type}

/-- Two rows of tokens with the same words, at places that are related by `P`. An opening bracket is on
the line of the token before it in both rows or in neither. -/
inductive SameWords (P : Span → Span → Prop) :
    Option Nat → List Token → Option Nat → List Token → Prop where
  | nil (line line' : Option Nat) : SameWords P line [] line' []
  | cons {line line' : Option Nat} {token token' : Token} {rest rest' : List Token}
      (hword : token.word = token'.word) (hplace : P token.span token'.span)
      (hline : token.kind = .symbol .leftParen ∨ token.kind = .symbol .leftBracket →
        (line = some token.span.line ↔ line' = some token'.span.line))
      (hrest : SameWords P (some token.span.line) rest (some token'.span.line) rest') :
      SameWords P line (token :: rest) line' (token' :: rest')

/-- Two places with the same words ahead. -/
def Cursor.Resembles (P : Span → Span → Prop) (c d : Cursor) : Prop :=
  SameWords P c.line c.rest d.line d.rest

/-- The same failure at related places. -/
structure Rejection.Resembles (P : Span → Span → Prop) (r s : Rejection) : Prop where
  wantsMore : r.wantsMore = s.wantsMore
  committed : r.committed = s.committed
  complaint : r.complaint = s.complaint
  span : Option.Rel P r.span s.span

/-- The same result at places with the same words ahead, or the same failure. -/
inductive SameOutcome (P : Span → Span → Prop) :
    Except Rejection (α × Cursor) → Except Rejection (α × Cursor) → Prop where
  | ok {x : α} {c d : Cursor} (h : c.Resembles P d) : SameOutcome P (.ok (x, c)) (.ok (x, d))
  | error {r s : Rejection} (h : r.Resembles P s) : SameOutcome P (.error r) (.error s)

variable {P : Span → Span → Prop} {c d : Cursor}

namespace Cursor.Resembles

theorem head (h : c.Resembles P d) : (c.rest.head? = none ∧ d.rest.head? = none) ∨
    ∃ token token', c.rest.head? = some token ∧ d.rest.head? = some token' ∧
      token.word = token'.word ∧ P token.span token'.span ∧
      (token.kind = .symbol .leftParen ∨ token.kind = .symbol .leftBracket →
        (c.line = some token.span.line ↔ d.line = some token'.span.line)) := by
  obtain ⟨line, rest⟩ := c
  obtain ⟨line', rest'⟩ := d
  cases h with
  | nil => exact .inl ⟨rfl, rfl⟩
  | cons hword hplace hline _ => exact .inr ⟨_, _, rfl, rfl, hword, hplace, hline⟩

theorem head_kind (h : c.Resembles P d) :
    c.rest.head?.map (·.kind) = d.rest.head?.map (·.kind) := by
  rcases h.head with ⟨hc, hd⟩ | ⟨token, token', hc, hd, hword, -⟩
  · rw [hc, hd]
  · rw [hc, hd]
    exact congrArg (fun word => some word.kind) hword

theorem head_span (h : c.Resembles P d) :
    Option.Rel P (c.rest.head?.map (·.span)) (d.rest.head?.map (·.span)) := by
  rcases h.head with ⟨hc, hd⟩ | ⟨token, token', hc, hd, -, hplace, -⟩
  · rw [hc, hd]
    exact .none
  · rw [hc, hd]
    exact .some hplace

theorem advance (h : c.Resembles P d) : c.advance.Resembles P d.advance := by
  obtain ⟨line, rest⟩ := c
  obtain ⟨line', rest'⟩ := d
  cases h with
  | nil => exact .nil _ _
  | cons _ _ _ hrest => exact hrest

theorem length_eq (h : c.Resembles P d) : c.rest.length = d.rest.length := by
  obtain ⟨line, rest⟩ := c
  obtain ⟨line', rest'⟩ := d
  change SameWords P line rest line' rest' at h
  induction h with
  | nil => rfl
  | cons _ _ _ _ ih => exact congrArg (· + 1) ih

end Cursor.Resembles

theorem Rejection.Resembles.because {r s : Rejection} (h : r.Resembles P s) (complaint : Complaint) :
    (r.because complaint).Resembles P (s.because complaint) where
  wantsMore := h.wantsMore
  committed := rfl
  complaint := by rw [Rejection.because, Rejection.because, h.complaint]
  span := h.span

theorem Rejection.Resembles.noMatch {span span' : Option Span} (h : Option.Rel P span span') :
    (Rejection.noMatch span).Resembles P (Rejection.noMatch span') where
  wantsMore := by cases h <;> rfl
  committed := rfl
  complaint := rfl
  span := h

/-- One rule does at a place what another does where the same words are ahead. -/
def Rule.Twins (P : Span → Span → Prop) (rule rule' : Rule α) : Prop :=
  ∀ c d, c.Resembles P d → SameOutcome P (rule c) (rule' d)

/-- A rule that sees no places, the lines of opening brackets apart. -/
abbrev Rule.Blind (P : Span → Span → Prop) (rule : Rule α) : Prop :=
  Twins P rule rule

theorem SameOutcome.bind {rule rule' : Rule α} {next next' : α → Rule β}
    (h : SameOutcome P (rule c) (rule' d)) (hnext : ∀ x, Twins P (next x) (next' x)) :
    SameOutcome P ((rule >>= next) c) ((rule' >>= next') d) := by
  change SameOutcome P (rule c >>= fun found => next found.1 found.2)
    (rule' d >>= fun found => next' found.1 found.2)
  generalize rule c = outcome at h ⊢
  generalize rule' d = outcome' at h ⊢
  cases h with
  | ok hcd => exact hnext _ _ _ hcd
  | error hfails => exact .error hfails

namespace Rule.Twins

variable {rule rule' : Rule α} {next next' : α → Rule β}

theorem pure (x : α) : Blind P (Pure.pure x : Rule α) :=
  fun _ _ h => .ok h

theorem throw {r s : Rejection} (h : r.Resembles P s) :
    Twins P (MonadExcept.throw r : Rule α) (MonadExcept.throw s) :=
  fun _ _ _ => .error h

theorem bind (h : Twins P rule rule') (hnext : ∀ x, Twins P (next x) (next' x)) :
    Twins P (rule >>= next) (rule' >>= next') :=
  fun c d hcd => (h c d hcd).bind hnext

theorem andReturn (h : Blind P rule) (f : α → β) : Blind P (rule >>= fun x => Pure.pure (f x)) :=
  h.bind fun x => .pure (f x)

theorem ite {p : Prop} [Decidable p] {yes no : Rule α} (hyes : Blind P yes) (hno : Blind P no) :
    Blind P (if p then yes else no) := by
  by_cases hp : p
  · rwa [if_pos hp]
  · rwa [if_neg hp]

/-- What looks at the next token without looking at its place. -/
theorem peek {next : Option Token → Rule β}
    (hsame : ∀ token token', token.word = token'.word → next (some token) = next (some token'))
    (h : ∀ head, Blind P (next head)) : Blind P (Rule.peek >>= next) := by
  intro c d hcd
  rw [peek_run, peek_run]
  rcases hcd.head with ⟨hc, hd⟩ | ⟨token, token', hc, hd, hword, -⟩
  · rw [hc, hd]
    exact h none c d hcd
  · rw [hc, hd, hsame token token' hword]
    exact h _ c d hcd

theorem peekKind : Blind P Rule.peekKind := by
  intro c d hcd
  have hrun : ∀ c, Rule.peekKind c = .ok (c.rest.head?.map (·.kind), c) := fun _ => rfl
  rw [hrun, hrun, hcd.head_kind]
  exact .ok hcd

theorem peekSpan {next next' : Option Span → Rule β}
    (h : ∀ span span', Option.Rel P span span' → Twins P (next span) (next' span')) :
    Twins P (Rule.peekSpan >>= next) (Rule.peekSpan >>= next') := by
  intro c d hcd
  rw [peekSpan_run, peekSpan_run]
  exact h _ _ hcd.head_span c d hcd

theorem advance : Blind P Rule.advance :=
  fun _ _ hcd => .ok hcd.advance

theorem accept (kind : Kind) : Blind P (Rule.accept kind) :=
  peekKind.bind fun _ => ite (advance.andReturn _) (pure _)

theorem noMatch (required : Bool) : Blind P (Rule.noMatch required : Rule α) := by
  refine peekSpan fun span span' hspan => throw ?_
  have hplain := Rejection.Resembles.noMatch hspan
  exact ⟨hplain.wantsMore, rfl, rfl, hspan⟩

theorem reject (complaint : Complaint) : Blind P (Rule.reject complaint : Rule α) :=
  peekSpan fun _ _ hspan => throw ((Rejection.Resembles.noMatch hspan).because complaint)

theorem because (h : Blind P rule) (complaint : Complaint) : Blind P (Rule.because complaint rule) := by
  intro c d hcd
  have hrule := h c d hcd
  rw [Rule.because, Rule.because]
  generalize rule c = outcome at hrule ⊢
  generalize rule d = outcome' at hrule ⊢
  cases hrule with
  | ok hcd => exact .ok hcd
  | error hfails => exact .error (hfails.because complaint)

theorem optional (h : Blind P rule) : Blind P (Rule.optional rule) := by
  intro c d hcd
  have hrule := h c d hcd
  rw [Rule.optional, Rule.optional]
  generalize rule c = outcome at hrule ⊢
  generalize rule d = outcome' at hrule ⊢
  cases hrule with
  | ok hcd => exact .ok hcd
  | @error r s hfails =>
      cases hcommitted : r.committed with
      | true =>
          have hcommitted' := hfails.committed.symm.trans hcommitted
          simp only [hcommitted, hcommitted', if_true]
          exact .error hfails
      | false =>
          have hcommitted' := hfails.committed.symm.trans hcommitted
          simp only [hcommitted, hcommitted']
          exact .ok hcd

theorem expect (kind : Kind) (complaint : Complaint) : Blind P (Rule.expect kind complaint) := by
  refine (accept kind).bind fun found => ?_
  cases found with
  | true => exact pure _
  | false => exact reject complaint

theorem name? : Blind P Rule.name? := by
  refine peek ?_ fun head => ?_
  · rintro ⟨kind, text, span⟩ ⟨kind', text', span'⟩ hword
    cases hword
    rfl
  · cases head with
    | none => exact pure _
    | some token => exact ite (advance.andReturn _) (pure _)

theorem name (complaint : Complaint) : Blind P (Rule.name complaint) := by
  refine name?.bind fun found => ?_
  cases found with
  | none => exact reject complaint
  | some name => exact pure _

theorem after (h : Blind P rule) (kind : Kind) : Blind P (Rule.after kind rule) :=
  (accept kind).bind fun _ => ite (h.andReturn _) (pure _)

theorem manyWithin {item : Rule (Option α)} (h : Blind P item) {budget budget' : List Token}
    (hlength : budget.length = budget'.length) :
    Twins P (Rule.manyWithin item budget) (Rule.manyWithin item budget') := by
  induction budget generalizing budget' with
  | nil =>
      obtain rfl : budget' = [] := List.length_eq_zero_iff.1 hlength.symm
      exact h.andReturn _
  | cons token budget ih =>
      cases budget' with
      | nil => cases hlength
      | cons token' budget' =>
          refine h.bind fun found => ?_
          cases found with
          | none => exact pure _
          | some x => exact (ih (Nat.succ.inj hlength)).bind fun _ => pure _

theorem many {item : Rule (Option α)} (h : Blind P item) : Blind P (Rule.many item) := by
  intro c d hcd
  exact manyWithin h hcd.length_eq c d hcd

end Rule.Twins

/-! ### The grammar -/

namespace Grammar

/-- The rules for what stands one level deeper see no places. -/
structure Unseeing (P : Span → Span → Prop) (deeper : Nested) : Prop where
  expr : ∀ required, Blind P (deeper.expr required)
  operand : Blind P deeper.operand

variable {deeper : Nested} {required : Bool}

theorem blind_statements (h : Unseeing P deeper) : Blind P (statements deeper) :=
  .many (h.expr false).optional

theorem blind_block (h : Unseeing P deeper) (construct : Construct) :
    Blind P (block deeper construct) :=
  (Twins.expect _ _).bind fun _ => (blind_statements h).bind fun _ => (Twins.expect _ _).andReturn _

theorem blind_branch (h : Unseeing P deeper) (keyword : String) : Blind P (branch deeper keyword) :=
  ((h.expr true).because _).bind fun _ => (blind_block h _).andReturn _

theorem blind_cond (h : Unseeing P deeper) : Blind P (cond deeper) :=
  (blind_branch h _).bind fun _ => (Twins.many ((blind_branch h _).after _)).bind fun _ =>
    ((blind_block h _).after _).andReturn _

theorem blind_whileLoop (h : Unseeing P deeper) : Blind P (whileLoop deeper) :=
  ((h.expr true).because _).bind fun _ => (blind_block h _).andReturn _

theorem blind_forLoop (h : Unseeing P deeper) : Blind P (forLoop deeper) := by
  refine (Twins.name _).bind fun value => ((Twins.name _).after _).bind fun key => ?_
  refine (Twins.accept _).bind fun found => .ite ?_ ?_
  · exact ((h.expr true).because _).bind fun _ => (blind_block h _).andReturn _
  · refine (Twins.expect _ _).bind fun _ => .ite ((Twins.reject _).bind fun _ => ?_) ?_
    all_goals
      refine ((h.expr true).because _).bind fun _ => (Twins.expect _ _).bind fun _ => ?_
      refine ((h.expr true).because _).bind fun _ => ?_
      exact (((h.expr true).because _).after _).bind fun _ => (blind_block h _).andReturn _

theorem blind_returnValue (h : Unseeing P deeper) : Blind P (returnValue deeper) :=
  (((h.expr true).because _).after _).andReturn _

theorem blind_control? (h : Unseeing P deeper) : Blind P (control? deeper) := by
  refine Twins.peekKind.bind fun head => ?_
  split
  · exact Twins.advance.bind fun _ => (blind_cond h).andReturn _
  · exact Twins.advance.bind fun _ => (blind_whileLoop h).andReturn _
  · exact Twins.advance.bind fun _ => (blind_block h _).andReturn _
  · exact Twins.advance.bind fun _ => (blind_forLoop h).andReturn _
  · exact Twins.advance.bind fun _ => (blind_returnValue h).andReturn _
  · exact Twins.advance.andReturn _
  · exact Twins.advance.andReturn _
  · exact .reject _
  · exact .pure _

theorem blind_function (h : Unseeing P deeper) : Blind P (function deeper) := by
  refine Twins.name?.bind fun name => (Twins.expect _ _).bind fun _ => Twins.name?.bind fun first => ?_
  cases first with
  | none => exact (Twins.expect _ _).bind fun _ => (blind_block h _).andReturn _
  | some first =>
      refine (Twins.many ((Twins.name _).after _)).bind fun rest => ?_
      exact (Twins.expect _ _).bind fun _ => (blind_block h _).andReturn _

theorem blind_elements? (h : Unseeing P deeper) (construct : Construct) :
    Blind P (elements? deeper construct) := by
  refine (h.expr false).optional.bind fun first => ?_
  cases first with
  | none => exact .pure _
  | some first => exact (Twins.many (((h.expr true).because _).after _)).andReturn _

theorem blind_list (h : Unseeing P deeper) : Blind P (list deeper) :=
  (blind_elements? h _).bind fun _ => (Twins.expect _ _).andReturn _

theorem blind_literal? : Blind P literal? := by
  refine .peek ?_ fun head => ?_
  · rintro ⟨kind, text, span⟩ ⟨kind', text', span'⟩ hword
    cases hword
    rfl
  · cases head with
    | none => exact .pure _
    | some token =>
        simp only
        split
        iterate 5 exact Twins.advance.andReturn _
        · split
          · exact Twins.advance.andReturn _
          · exact .reject _
        · exact .pure _

theorem blind_entryValue (h : Unseeing P deeper) : Blind P (entryValue deeper) :=
  (Twins.expect _ _).bind fun _ => (h.expr true).because _

theorem blind_entry (h : Unseeing P deeper) : Blind P (entry deeper) := by
  refine .peek ?_ fun head => ?_
  · rintro ⟨kind, text, span⟩ ⟨kind', text', span'⟩ hword
    cases hword
    rfl
  · cases head with
    | none => exact .reject _
    | some token =>
        simp only
        split
        · exact Twins.advance.bind fun _ => (blind_entryValue h).andReturn _
        iterate 2
          refine blind_literal?.bind fun found => ?_
          cases found with
          | none => exact .reject _
          | some key => exact (blind_entryValue h).andReturn _
        · refine Twins.advance.bind fun _ => ((h.expr true).because _).bind fun _ => ?_
          exact (Twins.expect _ _).bind fun _ => (blind_entryValue h).andReturn _
        · exact .reject _

theorem blind_entryAfterComma (h : Unseeing P deeper) : Blind P (entryAfterComma deeper) :=
  (Twins.accept _).bind fun _ => .ite
    (Twins.peekKind.bind fun _ => .ite (.pure _) ((blind_entry h).andReturn _)) (.pure _)

theorem blind_table (h : Unseeing P deeper) : Blind P (table deeper) :=
  (Twins.accept _).bind fun _ => .ite (.pure _) <| (blind_entry h).bind fun _ =>
    (Twins.many (blind_entryAfterComma h)).bind fun _ => (Twins.expect _ _).andReturn _

theorem blind_quote (h : Unseeing P deeper) : Blind P (quote deeper) :=
  ((h.expr true).because _).bind fun _ => (Twins.expect _ _).andReturn _

theorem blind_value (h : Unseeing P deeper) : Blind P (value deeper required) := by
  refine blind_literal?.bind fun found => ?_
  cases found with
  | some literal => exact .pure _
  | none =>
      refine Twins.peekKind.bind fun head => ?_
      split
      · exact Twins.advance.bind fun _ => blind_list h
      · exact Twins.advance.bind fun _ => blind_table h
      · exact Twins.advance.bind fun _ => blind_quote h
      · exact Twins.advance.bind fun _ => blind_function h
      · exact .noMatch _

/-- Before an opening bracket, and only there, the lines are compared. -/
theorem sameOutcome_onSameLine {kind : Kind} (hcd : c.Resembles P d)
    (hkind : c.rest.head?.map (·.kind) = some kind)
    (hbracket : kind = .symbol .leftParen ∨ kind = .symbol .leftBracket) :
    SameOutcome P (onSameLine c) (onSameLine d) := by
  rcases hcd.head with ⟨hc, -⟩ | ⟨token, token', hc, hd, -, -, hline⟩
  · rw [hc] at hkind
    cases hkind
  · rw [hc] at hkind
    cases hkind
    rw [onSameLine_run hc, onSameLine_run hd, decide_eq_decide.2 (hline hbracket)]
    exact .ok hcd

theorem blind_accessor? (h : Unseeing P deeper) : Blind P (accessor? deeper) := by
  intro c d hcd
  rw [accessor?, peekKind_run, peekKind_run, ← hcd.head_kind]
  by_cases hbracket : c.rest.head?.map (·.kind) = some (.symbol .leftBracket)
  · rw [hbracket]
    refine (sameOutcome_onSameLine hcd hbracket (.inr rfl)).bind fun _ => .ite ?_ (.pure _)
    refine Twins.advance.bind fun _ => ((h.expr true).because _).bind fun _ => ?_
    exact (Twins.expect _ _).andReturn _
  by_cases hparen : c.rest.head?.map (·.kind) = some (.symbol .leftParen)
  · rw [hparen]
    refine (sameOutcome_onSameLine hcd hparen (.inl rfl)).bind fun _ => .ite ?_ (.pure _)
    exact Twins.advance.bind fun _ => (blind_elements? h _).bind fun _ => (Twins.expect _ _).andReturn _
  -- the other alternatives do not look at lines
  refine (?_ : Blind P _) c d hcd
  split
  next hkind => exact absurd hkind hbracket
  next => exact Twins.advance.bind fun _ => (Twins.name _).andReturn _
  next hkind => exact absurd hkind hparen
  next => exact .pure _

theorem blind_access (h : Unseeing P deeper) : Blind P (access deeper required) :=
  (blind_value h).bind fun _ => (Twins.many (blind_accessor? h)).andReturn _

theorem blind_unary (h : Unseeing P deeper) (required : Bool) : Blind P (unary deeper required) := by
  refine Twins.peekKind.bind fun head => ?_
  cases head.bind unaryOp? with
  | some op => exact Twins.advance.bind fun _ => (h.operand.because _).andReturn _
  | none =>
      refine (blind_control? h).bind fun found => ?_
      cases found with
      | some control => exact .pure _
      | none => exact blind_access h

theorem blind_binary {ω : Type} {operator? : Kind → Option ω} {operand : Bool → Rule Expr}
    {complaint : Complaint} {node : Expr → List (ω × Expr) → Expr}
    (h : ∀ required, Blind P (operand required)) (required : Bool) :
    Blind P (binary operator? operand complaint node required) := by
  refine (h required).bind fun first => (Twins.many ?_).andReturn _
  refine Twins.peekKind.bind fun head => ?_
  cases head.bind operator? with
  | none => exact .pure _
  | some op => exact Twins.advance.bind fun _ => ((h true).because _).andReturn _

theorem blind_logical {keyword : Keyword} {operand : Bool → Rule Expr} {complaint : Complaint}
    {node : Expr → List Expr → Expr} (h : ∀ required, Blind P (operand required)) (required : Bool) :
    Blind P (logical keyword operand complaint node required) :=
  (h required).bind fun _ => (Twins.many (((h true).because _).after _)).andReturn _

theorem blind_or (h : Unseeing P deeper) : Blind P (or deeper required) := by
  have hcompare : ∀ required, Blind P (compare deeper required) :=
    blind_binary (blind_binary (blind_binary (blind_unary h)))
  exact blind_logical (blind_logical hcompare) required

theorem blind_global (h : Unseeing P deeper) : Blind P (global deeper) :=
  (Twins.name _).bind fun _ => (Twins.expect _ _).bind fun _ => ((h.expr true).because _).andReturn _

theorem blind_update? (h : Unseeing P deeper) : Blind P (update? deeper) := by
  refine Twins.peekKind.bind fun head => ?_
  split
  iterate 3 exact Twins.advance.bind fun _ => ((h.expr true).because _).andReturn _
  · exact Twins.advance.andReturn _
  · exact Twins.advance.andReturn _
  · exact .pure _

theorem blind_expr (h : Unseeing P deeper) (required : Bool) : Blind P (expr deeper required) := by
  refine (Twins.accept _).bind fun found => .ite (blind_global h) ?_
  refine (blind_control? h).bind fun found => ?_
  cases found with
  | some control => exact .pure _
  | none =>
      refine .peekSpan fun span span' hspan => (blind_or h).bind fun left => ?_
      refine (blind_update? h).bind fun update => ?_
      cases update with
      | none => exact .pure _
      | some update =>
          simp only
          split
          · exact .pure _
          · have hfinal : (Rejection.noMatch span).final.Resembles P (Rejection.noMatch span').final :=
              ⟨rfl, rfl, rfl, hspan⟩
            exact .throw (hfinal.because _)

/-- At every number of levels the nested rules see no places. -/
theorem unseeing_nested (levels : Nat) : Unseeing P (nested levels) := by
  induction levels with
  | zero =>
      have htooDeep : ∀ construct, Blind P (tooDeep construct) := by
        intro construct
        refine .peekSpan fun span span' hspan => ?_
        have hfinal : (Rejection.noMatch span).final.Resembles P (Rejection.noMatch span').final :=
          ⟨rfl, rfl, rfl, hspan⟩
        exact .throw (hfinal.because _)
      exact ⟨fun _ => htooDeep _, htooDeep _⟩
  | succ levels ih => exact ⟨blind_expr ih, blind_unary ih true⟩

end Grammar

/-- Programs are read without regard to places, the lines of opening brackets apart. -/
theorem blind_program : Blind P Rule.program :=
  Grammar.blind_statements (Grammar.unseeing_nested _)

end TableScript
