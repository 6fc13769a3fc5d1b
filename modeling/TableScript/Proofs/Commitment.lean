import TableScript.Proofs.Precedence

/-!
Rules that commit themselves. A rule that has recognised its construct fails for good. Only an
expression that need not be there can fail otherwise, and it does so exactly where no expression
begins; so the next token alone decides whether an alternative is taken.
-/

namespace TableScript

open Rule

variable {α β : Type}

namespace Rule

/-- A failure of the rule at the given place is one for good. -/
def CommitsAt (rule : Rule α) (c : Cursor) : Prop :=
  ∀ rejection, rule c = .error rejection → rejection.committed = true

/-- One rule after another, of which the second starts where the first ended. -/
theorem CommitsAt.bind {rule : Rule α} {next : α → Rule β} {c : Cursor} (hrule : rule.CommitsAt c)
    (hnext : ∀ x c', rule c = .ok (x, c') → (next x).CommitsAt c') : (rule >>= next).CommitsAt c := by
  intro rejection h
  cases hrun : rule c with
  | error found =>
      rw [bind_error hrun] at h
      cases h
      exact hrule rejection hrun
  | ok found =>
      obtain ⟨x, c'⟩ := found
      rw [bind_run hrun] at h
      exact hnext x c' hrun rejection h

theorem CommitsAt.peekSpan {next : Option Span → Rule β} {c : Cursor}
    (h : (next (c.rest.head?.map (·.span))).CommitsAt c) : (Rule.peekSpan >>= next).CommitsAt c :=
  h

/-- A failure of the rule is one for good. -/
def Commits (rule : Rule α) : Prop :=
  ∀ c, rule.CommitsAt c

namespace Commits

theorem pure (x : α) : (Pure.pure x : Rule α).Commits := by
  intro c rejection h
  cases h

theorem bind {rule : Rule α} {next : α → Rule β} (hrule : rule.Commits)
    (hnext : ∀ x, (next x).Commits) : (rule >>= next).Commits :=
  fun c => (hrule c).bind fun x c' _ => hnext x c'

theorem andReturn {rule : Rule α} (hrule : rule.Commits) (f : α → β) :
    (rule >>= fun x => Pure.pure (f x)).Commits :=
  hrule.bind fun x => .pure (f x)

theorem ite {p : Prop} [Decidable p] {yes no : Rule α} (hyes : yes.Commits) (hno : no.Commits) :
    (if p then yes else no).Commits := by
  by_cases hp : p
  · rwa [if_pos hp]
  · rwa [if_neg hp]

theorem because (complaint : Complaint) (rule : Rule α) : (because complaint rule).Commits := by
  intro c rejection h
  rw [Rule.because] at h
  split at h
  · cases h
  · cases h
    rfl

theorem optional (rule : Rule α) : (optional rule).Commits := by
  intro c rejection h
  rw [Rule.optional] at h
  split at h
  · cases h
  · split at h
    · cases h
      assumption
    · cases h

theorem peek : Rule.peek.Commits := by
  intro c rejection h
  cases h

theorem peekKind : Rule.peekKind.Commits := by
  intro c rejection h
  cases h

theorem advance : Rule.advance.Commits := by
  intro c rejection h
  cases h

theorem reject (complaint : Complaint) : (Rule.reject complaint : Rule α).Commits := by
  intro c rejection h
  cases h
  rfl

theorem accept (kind : Kind) : (Rule.accept kind).Commits :=
  peekKind.bind fun _ => ite (advance.andReturn _) (pure _)

theorem expect (kind : Kind) (complaint : Complaint) : (Rule.expect kind complaint).Commits := by
  refine (accept kind).bind fun found => ?_
  cases found with
  | true => exact pure _
  | false => exact reject complaint

theorem name? : Rule.name?.Commits := by
  refine peek.bind fun head => ?_
  cases head with
  | none => exact pure _
  | some token => exact ite (advance.andReturn _) (pure _)

theorem name (complaint : Complaint) : (Rule.name complaint).Commits := by
  refine name?.bind fun found => ?_
  cases found with
  | none => exact reject complaint
  | some name => exact pure _

theorem after {rule : Rule α} (hrule : rule.Commits) (kind : Kind) :
    (Rule.after kind rule).Commits :=
  (accept kind).bind fun _ => ite (hrule.andReturn _) (pure _)

theorem manyWithin {item : Rule (Option α)} (hitem : item.Commits) (budget : List Token) :
    (Rule.manyWithin item budget).Commits := by
  induction budget with
  | nil => exact hitem.andReturn _
  | cons token budget ih =>
      refine hitem.bind fun found => ?_
      cases found with
      | none => exact pure _
      | some x => exact ih.andReturn _

theorem many {item : Rule (Option α)} (hitem : item.Commits) : (Rule.many item).Commits := by
  intro c rejection h
  exact manyWithin hitem c.rest c rejection h

end Commits

end Rule

namespace Grammar

variable {deeper : Nested} {c : Cursor} {required : Bool} {rejection : Rejection}

theorem commits_operation {ω : Type} (operator? : Kind → Option ω) (operand : Bool → Rule Expr)
    (complaint : Complaint) : (operation operator? operand complaint).Commits := by
  refine Commits.peekKind.bind fun head => ?_
  cases head.bind operator? with
  | none => exact .pure _
  | some op => exact Commits.advance.bind fun _ => (Commits.because _ _).andReturn _

/-! ### Blocks and control flow -/

theorem commits_statements : (statements deeper).Commits :=
  .many (.optional _)

theorem commits_block (construct : Construct) : (block deeper construct).Commits :=
  (Commits.expect _ _).bind fun _ => commits_statements.bind fun _ => (Commits.expect _ _).andReturn _

theorem commits_branch (keyword : String) : (branch deeper keyword).Commits :=
  (Commits.because _ _).bind fun _ => (commits_block _).andReturn _

theorem commits_cond : (cond deeper).Commits :=
  (commits_branch _).bind fun _ => (Commits.many (.after (commits_branch _) _)).bind fun _ =>
    (Commits.after (commits_block _) _).andReturn _

theorem commits_whileLoop : (whileLoop deeper).Commits :=
  (Commits.because _ _).bind fun _ => (commits_block _).andReturn _

theorem commits_forLoop : (forLoop deeper).Commits := by
  refine (Commits.name _).bind fun value => (Commits.after (.name _) _).bind fun key => ?_
  refine (Commits.accept _).bind fun found => .ite ?_ ?_
  · exact (Commits.because _ _).bind fun _ => (commits_block _).andReturn _
  · refine (Commits.expect _ _).bind fun _ => .ite ((Commits.reject _).bind fun _ => ?_) ?_
    all_goals
      refine (Commits.because _ _).bind fun _ => (Commits.expect _ _).bind fun _ => ?_
      refine (Commits.because _ _).bind fun _ => (Commits.after (.because _ _) _).bind fun _ => ?_
      exact (commits_block _).andReturn _

theorem commits_returnValue : (returnValue deeper).Commits :=
  (Commits.after (.because _ _) _).andReturn _

theorem commits_control? : (control? deeper).Commits := by
  refine Commits.peekKind.bind fun head => ?_
  split
  · exact Commits.advance.bind fun _ => commits_cond.andReturn _
  · exact Commits.advance.bind fun _ => commits_whileLoop.andReturn _
  · exact Commits.advance.bind fun _ => (commits_block _).andReturn _
  · exact Commits.advance.bind fun _ => commits_forLoop.andReturn _
  · exact Commits.advance.bind fun _ => commits_returnValue.andReturn _
  · exact Commits.advance.andReturn _
  · exact Commits.advance.andReturn _
  · exact .reject _
  · exact .pure _

/-! ### Values -/

theorem commits_function : (function deeper).Commits := by
  refine Commits.name?.bind fun name => (Commits.expect _ _).bind fun _ => ?_
  refine Commits.name?.bind fun first => ?_
  have hbody : ∀ params, (expect (.symbol .rightParen) .funcClose >>= fun _ =>
      block deeper .func >>= fun body => pure (Expr.function name params body)).Commits :=
    fun params => (Commits.expect _ _).bind fun _ => (commits_block _).andReturn _
  cases first with
  | none => exact hbody []
  | some first => exact (Commits.many (.after (.name _) _)).bind fun rest => hbody (first :: rest)

theorem commits_elements? (construct : Construct) : (elements? deeper construct).Commits := by
  refine (Commits.optional _).bind fun first => ?_
  cases first with
  | none => exact .pure _
  | some first => exact (Commits.many (.after (.because _ _) _)).andReturn _

theorem commits_list : (list deeper).Commits :=
  (commits_elements? _).bind fun _ => (Commits.expect _ _).andReturn _

theorem commits_literal? : literal?.Commits := by
  refine Commits.peek.bind fun head => ?_
  cases head with
  | none => exact .pure _
  | some token =>
      simp only
      split
      iterate 5 exact Commits.advance.andReturn _
      · split
        · exact Commits.advance.andReturn _
        · exact .reject _
      · exact .pure _

theorem commits_entryValue : (entryValue deeper).Commits :=
  (Commits.expect _ _).bind fun _ => .because _ _

theorem commits_entry : (entry deeper).Commits := by
  refine Commits.peek.bind fun head => ?_
  cases head with
  | none => exact .reject _
  | some token =>
      simp only
      split
      · exact Commits.advance.bind fun _ => commits_entryValue.andReturn _
      iterate 2
        refine commits_literal?.bind fun found => ?_
        cases found with
        | none => exact .reject _
        | some key => exact commits_entryValue.andReturn _
      · exact Commits.advance.bind fun _ => (Commits.because _ _).bind fun _ =>
          (Commits.expect _ _).bind fun _ => commits_entryValue.andReturn _
      · exact .reject _

theorem commits_entryAfterComma : (entryAfterComma deeper).Commits :=
  (Commits.accept _).bind fun _ => .ite
    (Commits.peekKind.bind fun _ => .ite (.pure _) (commits_entry.andReturn _)) (.pure _)

theorem commits_table : (table deeper).Commits :=
  (Commits.accept _).bind fun _ => .ite (.pure _) <| commits_entry.bind fun _ =>
    (Commits.many commits_entryAfterComma).bind fun _ => (Commits.expect _ _).andReturn _

theorem commits_quote : (quote deeper).Commits :=
  (Commits.because _ _).bind fun _ => (Commits.expect _ _).andReturn _

theorem commits_onSameLine : onSameLine.Commits := by
  intro c rejection h
  cases h

theorem commits_accessor? : (accessor? deeper).Commits := by
  refine Commits.peekKind.bind fun head => ?_
  split
  · refine commits_onSameLine.bind fun _ => .ite (Commits.advance.bind fun _ => ?_) (.pure _)
    exact (Commits.because _ _).bind fun _ => (Commits.expect _ _).andReturn _
  · exact Commits.advance.bind fun _ => (Commits.name _).andReturn _
  · refine commits_onSameLine.bind fun _ => .ite (Commits.advance.bind fun _ => ?_) (.pure _)
    exact (commits_elements? _).bind fun _ => (Commits.expect _ _).andReturn _
  · exact .pure _

/-! ### Expressions -/

theorem commits_global : (global deeper).Commits :=
  (Commits.name _).bind fun _ => (Commits.expect _ _).bind fun _ => (Commits.because _ _).andReturn _

theorem commits_update? : (update? deeper).Commits := by
  refine Commits.peekKind.bind fun head => ?_
  split
  iterate 3 exact Commits.advance.bind fun _ => (Commits.because _ _).andReturn _
  · exact Commits.advance.andReturn _
  · exact Commits.advance.andReturn _
  · exact .pure _

/-! ### Where only what follows can fail -/

/-- Where no literal is found, a value can only begin with a bracket or a keyword. -/
theorem literal?_eq_none {c' : Cursor} {token : Token} (h : literal? c = .ok (none, c'))
    (hhead : c.rest.head? = some token) (hstarts : startsValue token.kind = true) :
    c' = c ∧ (token.kind = .symbol .leftBracket ∨ token.kind = .symbol .leftBrace ∨
      token.kind = .symbol .leftParen ∨ token.kind = .keyword .func) := by
  obtain ⟨rest, hrest⟩ := List.head?_eq_some_iff.1 hhead
  rw [literal?, peek_run, hhead] at h
  unfold startsValue at hstarts
  split at hstarts
  next hkind =>
    simp only [hkind] at h
    cases h
  next hkind =>
    simp only [hkind] at h
    cases hvalue : Number.ofText? token.textD with
    | none => simp only [hvalue] at h; cases h
    | some value => simp only [hvalue] at h; cases h
  iterate 4 next hkind =>
    simp only [hkind] at h
    cases h
  iterate 4 next hkind =>
    simp only [hkind] at h
    cases h
    simp [hkind]
  next => cases hstarts

theorem commitsAt_value {token : Token} (hhead : c.rest.head? = some token)
    (hstarts : startsValue token.kind = true) : (value deeper required).CommitsAt c := by
  refine (commits_literal? c).bind fun found c' hfound => ?_
  cases found with
  | some literal => exact Commits.pure _ c'
  | none =>
      obtain ⟨rfl, hkind⟩ := literal?_eq_none hfound hhead hstarts
      intro rejection h
      simp only at h
      rw [peekKind_run, hhead, Option.map_some] at h
      rcases hkind with hkind | hkind | hkind | hkind <;> rw [hkind] at h
      · exact (Commits.advance.bind fun _ => commits_list) c' rejection h
      · exact (Commits.advance.bind fun _ => commits_table) c' rejection h
      · exact (Commits.advance.bind fun _ => commits_quote) c' rejection h
      · exact (Commits.advance.bind fun _ => commits_function) c' rejection h

/-- What a rule returns if it matches is there. -/
theorem bind_some_ne_none (rule : Rule α) (f : α → β) (c : Cursor) {c' : Cursor} :
    (rule >>= fun x => pure (some (f x))) c ≠ .ok (none, c') := by
  intro h
  cases hrun : rule c with
  | error found => rw [bind_error hrun] at h; cases h
  | ok found => rw [bind_run hrun] at h; cases h

/-- Where control flow begins, some is found. -/
theorem control?_ne_none {kind : Kind} {c' : Cursor} (hkind : c.rest.head?.map (·.kind) = some kind)
    (hleading : isLeading kind = true) (hglobal : kind ≠ .keyword .global) :
    control? deeper c ≠ .ok (none, c') := by
  intro h
  rw [control?, peekKind_run, hkind] at h
  unfold isLeading at hleading
  split at hleading
  · exact hglobal rfl
  · exact bind_some_ne_none (cond deeper) id c.advance h
  · exact bind_some_ne_none (whileLoop deeper) id c.advance h
  · exact bind_some_ne_none (block deeper .loop) Control.loop c.advance h
  · exact bind_some_ne_none (forLoop deeper) id c.advance h
  · exact bind_some_ne_none (returnValue deeper) id c.advance h
  iterate 3 cases h
  cases hleading

theorem plain_of_control? {c' : Cursor} (h : control? deeper c = .ok (none, c'))
    (hglobal : c.rest.head?.map (·.kind) ≠ some (.keyword .global)) : Plain c := by
  intro kind hkind
  refine Bool.eq_false_iff.2 fun hleading => control?_ne_none hkind hleading ?_ h
  rintro rfl
  exact hglobal hkind

theorem commitsAt_unary {token : Token} (hhead : c.rest.head? = some token)
    (hplain : Plain c) (hstarts : starts token.kind = true) : (unary deeper required).CommitsAt c := by
  intro rejection h
  rw [unary, peekKind_run, hhead, Option.map_some, Option.bind_some] at h
  cases hop : unaryOp? token.kind with
  | some op =>
      rw [hop] at h
      exact (Commits.advance.bind fun _ => (Commits.because _ _).andReturn _) c rejection h
  | none =>
      have hleading : isLeading token.kind = false := hplain _ (by rw [hhead]; rfl)
      have hvalue : startsValue token.kind = true := by
        rw [starts, hop, hleading] at hstarts
        exact hstarts
      rw [hop] at h
      simp only at h
      rw [primary, bind_run hplain.control?] at h
      exact ((commitsAt_value hhead hvalue).bind fun _ c' _ =>
        (Commits.many commits_accessor?).andReturn _ c') rejection h

theorem commitsAt_logical {keyword : Keyword} {operand : Bool → Rule Expr} {complaint : Complaint}
    {node : Expr → List Expr → Expr} (h : (operand required).CommitsAt c) :
    (logical keyword operand complaint node required).CommitsAt c :=
  h.bind fun _ c' _ => (Commits.many (.after (.because _ _) _)).andReturn _ c'

theorem commitsAt_binary {ω : Type} {operator? : Kind → Option ω} {operand : Bool → Rule Expr}
    {complaint : Complaint} {node : Expr → List (ω × Expr) → Expr}
    (h : (operand required).CommitsAt c) :
    (binary operator? operand complaint node required).CommitsAt c :=
  h.bind fun _ c' _ => (Commits.many (commits_operation _ _ _)).andReturn _ c'

theorem commitsAt_or (h : (unary deeper required).CommitsAt c) : (or deeper required).CommitsAt c := by
  have hcompare : (compare deeper required).CommitsAt c :=
    commitsAt_binary (commitsAt_binary (commitsAt_binary h))
  exact commitsAt_logical (commitsAt_logical hcompare)

/-- An expression that begins fails for good. -/
theorem commitsAt_expr {token : Token} (hhead : c.rest.head? = some token)
    (hstarts : starts token.kind = true) : (expr deeper required).CommitsAt c := by
  by_cases hglobal : c.rest.head?.map (·.kind) = some (.keyword .global)
  · refine (Commits.accept _ c).bind fun found c' hfound => ?_
    rw [accept, peekKind_run, if_pos hglobal] at hfound
    cases hfound
    exact commits_global _
  · intro rejection h
    rw [expr, bind_run (accept_other hglobal), if_neg (by decide)] at h
    refine (commits_control? c).bind (fun found c' hfound => ?_) rejection h
    cases found with
    | some control => exact Commits.pure _ c'
    | none =>
        have hplain := plain_of_control? hfound hglobal
        cases hfound.symm.trans hplain.control?
        have hor : (or deeper required).CommitsAt c :=
          commitsAt_or (commitsAt_unary hhead hplain hstarts)
        simp only
        refine .peekSpan (hor.bind fun left c' _ => ?_)
        refine (commits_update? c').bind fun update c'' _ => ?_
        cases update with
        | none => exact Commits.pure _ c''
        | some update =>
            intro rejection h
            cases htarget : target? left with
            | some target => simp only [htarget] at h; cases h
            | none => simp only [htarget] at h; cases h; rfl

/-- Where an expression that need not be there fails without being one for good, none begins. -/
theorem absent_of_expr (h : expr deeper required c = .error rejection)
    (hcommitted : rejection.committed = false) : Absent c := by
  intro kind hkind
  obtain ⟨token, hhead, rfl⟩ := Option.map_eq_some_iff.1 hkind
  refine Bool.eq_false_iff.2 fun hstarts => ?_
  rw [commitsAt_expr hhead hstarts rejection h] at hcommitted
  cases hcommitted

end Grammar

end TableScript
