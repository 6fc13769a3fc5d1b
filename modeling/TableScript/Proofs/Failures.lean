import TableScript.Proofs.Matching
import TableScript.Syntax.Program

/-!
How rules fail. A failure begins at a token, or at the end, where something does not fit; on its way out
it is only made one for good and given a complaint. So what holds of every failure where it begins, and
is kept on its way, holds of the failures of all rules.
-/

namespace TableScript

open Rule

variable {α β : Type}

/-- Whether a complaint says more than what part of the grammar is missing. -/
def Complaint.quotes : Complaint → Bool
  | invalidNumber _ | note _ => true
  | _ => false

/-- The place of one of some tokens, or none at the end of the input. -/
def PlaceIn (tokens : List Token) (place : Option Span) : Prop :=
  ∀ span ∈ place, ∃ token ∈ tokens, token.span = span

theorem PlaceIn.head? {tokens rest : List Token} (h : rest <:+ tokens) :
    PlaceIn tokens (rest.head?.map (·.span)) := by
  intro span hspan
  obtain ⟨token, hhead, rfl⟩ := Option.map_eq_some_iff.1 hspan
  exact ⟨token, h.subset (List.mem_of_head? hhead), rfl⟩

/-- What all failures among some tokens have in common, from where they begin to where they end up. -/
structure FailureLaw (tokens : List Token) (P : Rejection → Prop) : Prop where
  noMatch : ∀ {place}, PlaceIn tokens place → P (.noMatch place)
  number : ∀ {token}, token ∈ tokens → token.kind = .number → Number.ofText? token.textD = none →
    P ((Rejection.noMatch (some token.span)).because (.invalidNumber token.textD))
  final : ∀ {r}, P r → P r.final
  demanded : ∀ {r}, P r → ∀ required, P (r.demanded required)
  because : ∀ {r}, P r → ∀ {complaint : Complaint}, complaint.quotes = false →
    P (r.because complaint)

namespace Rule

/-- Among the given tokens the rule ends among them again, or fails as `P` says. -/
def FailsBy (tokens : List Token) (P : Rejection → Prop) (rule : Rule α) : Prop :=
  ∀ c, c.rest <:+ tokens →
    (∀ x c', rule c = .ok (x, c') → c'.rest <:+ tokens) ∧ ∀ r, rule c = .error r → P r

namespace FailsBy

variable {tokens : List Token} {P : Rejection → Prop} {rule : Rule α} {next : α → Rule β}

theorem pure (x : α) : (Pure.pure x : Rule α).FailsBy tokens P := by
  intro c hc
  refine ⟨fun y c' hrun => ?_, fun r hrun => ?_⟩
  · cases hrun
    exact hc
  · cases hrun

theorem throw {r : Rejection} (hr : P r) :
    (MonadExcept.throw r : Rule α).FailsBy tokens P := by
  intro c _
  refine ⟨fun x c' hrun => ?_, fun r' hrun => ?_⟩
  · cases hrun
  · cases hrun
    exact hr

theorem bind (hrule : rule.FailsBy tokens P) (hnext : ∀ x, (next x).FailsBy tokens P) :
    (rule >>= next).FailsBy tokens P := by
  intro c hc
  obtain ⟨hends, hfails⟩ := hrule c hc
  cases hrun : rule c with
  | error r =>
      rw [bind_error hrun]
      refine ⟨fun x c' heq => ?_, fun r' heq => ?_⟩
      · cases heq
      · cases heq
        exact hfails r hrun
  | ok found =>
      obtain ⟨x, c'⟩ := found
      rw [bind_run hrun]
      exact hnext x c' (hends x c' hrun)

theorem andReturn (hrule : rule.FailsBy tokens P) (f : α → β) :
    (rule >>= fun x => Pure.pure (f x)).FailsBy tokens P :=
  hrule.bind fun x => .pure (f x)

theorem ite {p : Prop} [Decidable p] {yes no : Rule α} (hyes : yes.FailsBy tokens P)
    (hno : no.FailsBy tokens P) : (if p then yes else no).FailsBy tokens P := by
  by_cases hp : p
  · rwa [if_pos hp]
  · rwa [if_neg hp]

theorem peek {next : Option Token → Rule β}
    (hnext : ∀ head, (∀ token ∈ head, token ∈ tokens) → (next head).FailsBy tokens P) :
    (Rule.peek >>= next).FailsBy tokens P :=
  fun c hc => hnext c.rest.head? (fun _ htoken => hc.subset (List.mem_of_head? htoken)) c hc

theorem peekKind : Rule.peekKind.FailsBy tokens P := by
  intro c hc
  refine ⟨fun x c' hrun => ?_, fun r hrun => ?_⟩
  · cases hrun
    exact hc
  · cases hrun

theorem peekSpan {next : Option Span → Rule β}
    (hnext : ∀ place, PlaceIn tokens place → (next place).FailsBy tokens P) :
    (Rule.peekSpan >>= next).FailsBy tokens P :=
  fun c hc => hnext _ (.head? hc) c hc

theorem advance : Rule.advance.FailsBy tokens P := by
  intro c hc
  refine ⟨fun x c' hrun => ?_, fun r hrun => ?_⟩
  · cases hrun
    obtain ⟨line, rest⟩ := c
    cases rest with
    | nil => exact hc
    | cons token rest => exact (List.suffix_cons token rest).trans hc
  · cases hrun

theorem optional (hrule : rule.FailsBy tokens P) : (Rule.optional rule).FailsBy tokens P := by
  intro c hc
  obtain ⟨hends, hfails⟩ := hrule c hc
  rw [Rule.optional]
  cases hrun : rule c with
  | ok found =>
      obtain ⟨x, c'⟩ := found
      refine ⟨fun y c'' heq => ?_, fun r heq => ?_⟩
      · cases heq
        exact hends x c' hrun
      · cases heq
  | error r =>
      by_cases hcommitted : r.committed
      · simp only [hcommitted, ↓reduceIte]
        refine ⟨fun x c' heq => ?_, fun r' heq => ?_⟩
        · cases heq
        · cases heq
          exact hfails r hrun
      · simp only [hcommitted, Bool.false_eq_true, ↓reduceIte]
        refine ⟨fun x c' heq => ?_, fun r' heq => ?_⟩
        · cases heq
          exact hc
        · cases heq

theorem accept (kind : Kind) : (Rule.accept kind).FailsBy tokens P :=
  peekKind.bind fun _ => ite (advance.andReturn _) (pure _)

theorem name? : Rule.name?.FailsBy tokens P := by
  refine peek fun head _ => ?_
  cases head with
  | none => exact pure _
  | some token => exact ite (advance.andReturn _) (pure _)

theorem after (hrule : rule.FailsBy tokens P) (kind : Kind) :
    (Rule.after kind rule).FailsBy tokens P :=
  (accept kind).bind fun _ => ite (hrule.andReturn _) (pure _)

theorem manyWithin {item : Rule (Option α)} (hitem : item.FailsBy tokens P) (budget : List Token) :
    (Rule.manyWithin item budget).FailsBy tokens P := by
  induction budget with
  | nil => exact hitem.andReturn _
  | cons token budget ih =>
      refine hitem.bind fun found => ?_
      cases found with
      | none => exact pure _
      | some x => exact ih.andReturn _

theorem many {item : Rule (Option α)} (hitem : item.FailsBy tokens P) :
    (Rule.many item).FailsBy tokens P :=
  fun c hc => manyWithin hitem c.rest c hc

end FailsBy

end Rule

namespace FailureLaw

variable {tokens : List Token} {P : Rejection → Prop} (law : FailureLaw tokens P)

include law

theorem fails_noMatch (required : Bool) : (Rule.noMatch required : Rule α).FailsBy tokens P :=
  .peekSpan fun _ hplace => .throw (law.demanded (law.noMatch hplace) required)

theorem reject {complaint : Complaint} (hcomplaint : complaint.quotes = false) :
    (Rule.reject complaint : Rule α).FailsBy tokens P :=
  .peekSpan fun _ hplace => .throw (law.because (law.noMatch hplace) hcomplaint)

theorem fails_because {rule : Rule α} (hrule : rule.FailsBy tokens P) {complaint : Complaint}
    (hcomplaint : complaint.quotes = false) : (Rule.because complaint rule).FailsBy tokens P := by
  intro c hc
  obtain ⟨hends, hfails⟩ := hrule c hc
  rw [Rule.because]
  cases hrun : rule c with
  | ok found =>
      refine ⟨fun x c' heq => ?_, fun r heq => ?_⟩
      · cases heq
        exact hends x c' hrun
      · cases heq
  | error r =>
      refine ⟨fun x c' heq => ?_, fun r' heq => ?_⟩
      · cases heq
      · cases heq
        exact law.because (hfails r hrun) hcomplaint

theorem expect (kind : Kind) {complaint : Complaint} (hcomplaint : complaint.quotes = false) :
    (Rule.expect kind complaint).FailsBy tokens P := by
  refine (FailsBy.accept kind).bind fun found => ?_
  cases found with
  | true => exact .pure _
  | false => exact law.reject hcomplaint

theorem name {complaint : Complaint} (hcomplaint : complaint.quotes = false) :
    (Rule.name complaint).FailsBy tokens P := by
  refine FailsBy.name?.bind fun found => ?_
  cases found with
  | none => exact law.reject hcomplaint
  | some name => exact .pure _

end FailureLaw

/-- The rules for what stands one level deeper fail as `P` says. -/
structure Nested.FailsBy (deeper : Nested) (tokens : List Token) (P : Rejection → Prop) : Prop where
  expr : ∀ required, (deeper.expr required).FailsBy tokens P
  operand : deeper.operand.FailsBy tokens P

namespace Grammar

variable {tokens : List Token} {P : Rejection → Prop} {deeper : Nested}
variable (law : FailureLaw tokens P) (hdeeper : deeper.FailsBy tokens P)

include law

theorem fails_operation {ω : Type} (operator? : Kind → Option ω) {operand : Bool → Rule Expr}
    (hoperand : ∀ required, (operand required).FailsBy tokens P) {complaint : Complaint}
    (hcomplaint : complaint.quotes = false) :
    (operation operator? operand complaint).FailsBy tokens P := by
  refine FailsBy.peekKind.bind fun head => ?_
  cases head.bind operator? with
  | none => exact .pure _
  | some op =>
      exact FailsBy.advance.bind fun _ => (law.fails_because (hoperand true) hcomplaint).andReturn _

theorem fails_binary {ω : Type} {operator? : Kind → Option ω} {operand : Bool → Rule Expr}
    (hoperand : ∀ required, (operand required).FailsBy tokens P) {complaint : Complaint}
    (hcomplaint : complaint.quotes = false) (node : Expr → List (ω × Expr) → Expr)
    (required : Bool) : (binary operator? operand complaint node required).FailsBy tokens P :=
  (hoperand required).bind fun _ =>
    (FailsBy.many (fails_operation law operator? hoperand hcomplaint)).andReturn _

theorem fails_logical {keyword : Keyword} {operand : Bool → Rule Expr}
    (hoperand : ∀ required, (operand required).FailsBy tokens P) {complaint : Complaint}
    (hcomplaint : complaint.quotes = false) (node : Expr → List Expr → Expr) (required : Bool) :
    (logical keyword operand complaint node required).FailsBy tokens P :=
  (hoperand required).bind fun _ =>
    (FailsBy.many ((law.fails_because (hoperand true) hcomplaint).after _)).andReturn _

/-- The one rule that reads numbers. -/
theorem fails_literal? : literal?.FailsBy tokens P := by
  intro c hc
  rw [literal?, peek_run]
  cases hhead : c.rest.head? with
  | none => exact FailsBy.pure none c hc
  | some token =>
      have hread : ∀ value : Expr, (advance >>= fun _ => pure (some value)).FailsBy tokens P :=
        fun value => FailsBy.advance.andReturn _
      simp only
      cases hkind : token.kind with
      | identifier => exact hread _ c hc
      | string => exact hread _ c hc
      | number =>
          cases hvalue : Number.ofText? token.textD with
          | some value => exact hread _ c hc
          | none =>
              have htoken : token ∈ tokens := hc.subset (List.mem_of_head? hhead)
              simp only [reject, peekSpan_run, hhead]
              exact FailsBy.throw (law.number htoken hkind hvalue) c hc
      | keyword word =>
          cases word with
          | null => exact hread _ c hc
          | true => exact hread _ c hc
          | false => exact hread _ c hc
          | _ => exact FailsBy.pure none c hc
      | symbol mark => exact FailsBy.pure none c hc

include hdeeper

/-! ### Blocks and control flow -/

omit law in
theorem fails_statements : (statements deeper).FailsBy tokens P :=
  .many (hdeeper.expr false).optional

theorem fails_block (construct : Construct) : (block deeper construct).FailsBy tokens P :=
  (law.expect _ rfl).bind fun _ => (fails_statements hdeeper).bind fun _ =>
    (law.expect _ rfl).andReturn _

theorem fails_demanded {complaint : Complaint} (hcomplaint : complaint.quotes = false) :
    (because complaint (deeper.expr true)).FailsBy tokens P :=
  law.fails_because (hdeeper.expr true) hcomplaint

theorem fails_branch (keyword : String) : (branch deeper keyword).FailsBy tokens P :=
  (fails_demanded law hdeeper rfl).bind fun _ => (fails_block law hdeeper _).andReturn _

theorem fails_cond : (cond deeper).FailsBy tokens P :=
  (fails_branch law hdeeper _).bind fun _ =>
    (FailsBy.many ((fails_branch law hdeeper _).after _)).bind fun _ =>
      ((fails_block law hdeeper _).after _).andReturn _

theorem fails_whileLoop : (whileLoop deeper).FailsBy tokens P :=
  (fails_demanded law hdeeper rfl).bind fun _ => (fails_block law hdeeper _).andReturn _

theorem fails_forLoop : (forLoop deeper).FailsBy tokens P := by
  have hexpr : ∀ {complaint : Complaint}, complaint.quotes = false →
      (because complaint (deeper.expr true)).FailsBy tokens P := fails_demanded law hdeeper
  refine (law.name rfl).bind fun value => ((law.name rfl).after _).bind fun key => ?_
  refine (FailsBy.accept _).bind fun found => .ite ?_ ?_
  · exact (hexpr rfl).bind fun _ => (fails_block law hdeeper _).andReturn _
  · refine (law.expect _ rfl).bind fun _ => .ite ((law.reject rfl).bind fun _ => ?_) ?_
    all_goals
      refine (hexpr rfl).bind fun _ => (law.expect _ rfl).bind fun _ => ?_
      refine (hexpr rfl).bind fun _ => ((hexpr rfl).after _).bind fun _ => ?_
      exact (fails_block law hdeeper _).andReturn _

theorem fails_control? : (control? deeper).FailsBy tokens P := by
  refine FailsBy.peekKind.bind fun head => ?_
  split
  · exact FailsBy.advance.bind fun _ => (fails_cond law hdeeper).andReturn _
  · exact FailsBy.advance.bind fun _ => (fails_whileLoop law hdeeper).andReturn _
  · exact FailsBy.advance.bind fun _ => (fails_block law hdeeper _).andReturn _
  · exact FailsBy.advance.bind fun _ => (fails_forLoop law hdeeper).andReturn _
  · exact FailsBy.advance.bind fun _ =>
      (((fails_demanded law hdeeper rfl).after _).andReturn _).andReturn _
  · exact FailsBy.advance.andReturn _
  · exact FailsBy.advance.andReturn _
  · exact law.reject rfl
  · exact .pure _

/-! ### Values -/

theorem fails_function : (function deeper).FailsBy tokens P := by
  refine FailsBy.name?.bind fun name => (law.expect _ rfl).bind fun _ => ?_
  refine FailsBy.name?.bind fun first => ?_
  have hbody : ∀ params, (Rule.expect (.symbol .rightParen) .funcClose >>= fun _ =>
      block deeper .func >>= fun body =>
        Pure.pure (Expr.function name params body)).FailsBy tokens P :=
    fun params => (law.expect _ rfl).bind fun _ => (fails_block law hdeeper _).andReturn _
  cases first with
  | none => exact hbody []
  | some first => exact (FailsBy.many ((law.name rfl).after _)).bind fun rest => hbody (first :: rest)

theorem fails_elements? (construct : Construct) :
    (elements? deeper construct).FailsBy tokens P := by
  refine (hdeeper.expr false).optional.bind fun first => ?_
  cases first with
  | none => exact .pure _
  | some first => exact (FailsBy.many ((fails_demanded law hdeeper rfl).after _)).andReturn _

theorem fails_list : (list deeper).FailsBy tokens P := by
  refine (fails_elements? law hdeeper _).bind fun elements => ?_
  refine (law.expect _ ?_).andReturn _
  split <;> rfl

theorem fails_entryValue : (entryValue deeper).FailsBy tokens P :=
  (law.expect _ rfl).bind fun _ => fails_demanded law hdeeper rfl

theorem fails_entry : (entry deeper).FailsBy tokens P := by
  refine FailsBy.peek fun head _ => ?_
  cases head with
  | none => exact law.reject rfl
  | some token =>
      simp only
      split
      · exact FailsBy.advance.bind fun _ => (fails_entryValue law hdeeper).andReturn _
      iterate 2
        refine (fails_literal? law).bind fun found => ?_
        cases found with
        | none => exact law.reject rfl
        | some key => exact (fails_entryValue law hdeeper).andReturn _
      · exact FailsBy.advance.bind fun _ => (fails_demanded law hdeeper rfl).bind fun _ =>
          (law.expect _ rfl).bind fun _ => (fails_entryValue law hdeeper).andReturn _
      · exact law.reject rfl

theorem fails_entryAfterComma : (entryAfterComma deeper).FailsBy tokens P :=
  (FailsBy.accept _).bind fun _ => .ite
    (FailsBy.peekKind.bind fun _ => .ite (.pure _) ((fails_entry law hdeeper).andReturn _)) (.pure _)

theorem fails_table : (table deeper).FailsBy tokens P :=
  (FailsBy.accept _).bind fun _ => .ite (.pure _) <| (fails_entry law hdeeper).bind fun _ =>
    (FailsBy.many (fails_entryAfterComma law hdeeper)).bind fun _ => (law.expect _ rfl).andReturn _

theorem fails_quote : (quote deeper).FailsBy tokens P :=
  (fails_demanded law hdeeper rfl).bind fun _ => (law.expect _ rfl).andReturn _

theorem fails_value (required : Bool) : (value deeper required).FailsBy tokens P := by
  refine (fails_literal? law).bind fun found => ?_
  cases found with
  | some literal => exact .pure _
  | none =>
      refine FailsBy.peekKind.bind fun head => ?_
      split
      · exact FailsBy.advance.bind fun _ => fails_list law hdeeper
      · exact FailsBy.advance.bind fun _ => fails_table law hdeeper
      · exact FailsBy.advance.bind fun _ => fails_quote law hdeeper
      · exact FailsBy.advance.bind fun _ => fails_function law hdeeper
      · exact law.fails_noMatch required

omit law hdeeper in
theorem fails_onSameLine : onSameLine.FailsBy tokens P := by
  intro c hc
  refine ⟨fun x c' heq => ?_, fun r heq => ?_⟩
  · cases heq
    exact hc
  · cases heq

theorem fails_accessor? : (accessor? deeper).FailsBy tokens P := by
  refine FailsBy.peekKind.bind fun head => ?_
  split
  · refine fails_onSameLine.bind fun _ => .ite (FailsBy.advance.bind fun _ => ?_) (.pure _)
    exact (fails_demanded law hdeeper rfl).bind fun _ => (law.expect _ rfl).andReturn _
  · exact FailsBy.advance.bind fun _ => (law.name rfl).andReturn _
  · refine fails_onSameLine.bind fun _ => .ite (FailsBy.advance.bind fun _ => ?_) (.pure _)
    exact (fails_elements? law hdeeper _).bind fun _ => (law.expect _ rfl).andReturn _
  · exact .pure _

/-! ### Expressions -/

theorem fails_primary (required : Bool) : (primary deeper required).FailsBy tokens P := by
  refine (fails_control? law hdeeper).bind fun found => ?_
  cases found with
  | some control => exact .pure _
  | none => exact (fails_value law hdeeper required).bind fun _ =>
      (FailsBy.many (fails_accessor? law hdeeper)).andReturn _

theorem fails_unary (required : Bool) : (unary deeper required).FailsBy tokens P := by
  refine FailsBy.peekKind.bind fun head => ?_
  cases head.bind unaryOp? with
  | some op => exact FailsBy.advance.bind fun _ => (law.fails_because hdeeper.operand rfl).andReturn _
  | none => exact fails_primary law hdeeper required

theorem fails_or (required : Bool) : (or deeper required).FailsBy tokens P :=
  fails_logical law (fails_logical law (fails_binary law (fails_binary law
    (fails_binary law (fails_unary law hdeeper) rfl _) rfl _) rfl _) rfl _) rfl _ required

theorem fails_global : (global deeper).FailsBy tokens P :=
  (law.name rfl).bind fun _ => (law.expect _ rfl).bind fun _ =>
    (fails_demanded law hdeeper rfl).andReturn _

theorem fails_update? : (update? deeper).FailsBy tokens P := by
  refine FailsBy.peekKind.bind fun head => ?_
  split
  iterate 3 exact FailsBy.advance.bind fun _ => (fails_demanded law hdeeper rfl).andReturn _
  · exact FailsBy.advance.andReturn _
  · exact FailsBy.advance.andReturn _
  · exact .pure _

theorem fails_expr (required : Bool) : (expr deeper required).FailsBy tokens P := by
  refine (FailsBy.accept _).bind fun found => .ite (fails_global law hdeeper) ?_
  refine (fails_control? law hdeeper).bind fun found => ?_
  cases found with
  | some control => exact .pure _
  | none =>
      refine FailsBy.peekSpan fun place hplace => (fails_or law hdeeper required).bind fun left => ?_
      refine (fails_update? law hdeeper).bind fun found => ?_
      cases found with
      | none => exact .pure _
      | some update =>
          simp only
          cases target? left with
          | some target => exact .pure _
          -- that something is no target is said of the place where it began
          | none => exact .throw (law.because (law.final (law.noMatch hplace)) rfl)

omit hdeeper in
theorem fails_nested (levels : Nat) : (nested levels).FailsBy tokens P := by
  induction levels with
  | zero =>
      have hlimit : ∀ construct, (tooDeep construct).FailsBy tokens P := fun construct =>
        .peekSpan fun place hplace => .throw (law.because (law.final (law.noMatch hplace)) rfl)
      exact ⟨fun _ => hlimit _, hlimit _⟩
  | succ levels ih => exact ⟨fails_expr law ih, fails_unary law ih true⟩

omit hdeeper in
/-- A program fails as all failures do. -/
theorem program_fails {rejection : Rejection} (h : Rule.program (.start tokens) = .error rejection) :
    P rejection :=
  (fails_statements (fails_nested law maxDepth) (.start tokens) List.suffix_rfl).2 rejection h

end Grammar

end TableScript
