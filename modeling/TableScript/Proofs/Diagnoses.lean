import TableScript.Proofs.Failures
import TableScript.Proofs.Parsed

/-!
What failures complain of. A failure begins without a complaint, and the first rule on its way out that
knows what is missing gives it one. That complaint stays, whatever the rules around it have to say; and
no failure leaves the outermost rule without one.
-/

namespace TableScript

open Rule

variable {α β γ : Type}

/-! ### Calls -/

namespace Rule

/-- Matching a rule at a place comes to match an inner rule, at its own place: the rule itself, what one
of two rules in a row comes to, or what the rule comes to that is given a reason or need not match. -/
inductive Calls : {α γ : Type} → Rule α → Cursor → Rule γ → Cursor → Prop where
  | self {α : Type} (rule : Rule α) (c : Cursor) : Calls rule c rule c
  | first {α β γ : Type} {rule : Rule α} {c : Cursor} {inner : Rule γ} {c' : Cursor}
      (h : Calls rule c inner c') (next : α → Rule β) : Calls (rule >>= next) c inner c'
  | next {α β γ : Type} {rule : Rule α} {next : α → Rule β} {x : α} {c c₁ : Cursor} {inner : Rule γ}
      {c' : Cursor} (hrun : rule c = .ok (x, c₁)) (h : Calls (next x) c₁ inner c') :
      Calls (rule >>= next) c inner c'
  | because {α γ : Type} {rule : Rule α} {c : Cursor} {inner : Rule γ} {c' : Cursor}
      (h : Calls rule c inner c') (complaint : Complaint) : Calls (because complaint rule) c inner c'
  | optional {α γ : Type} {rule : Rule α} {c : Cursor} {inner : Rule γ} {c' : Cursor}
      (h : Calls rule c inner c') : Calls (optional rule) c inner c'

variable {rule : Rule α} {next : α → Rule β} {inner : Rule γ} {c c' : Cursor} {r : Rejection}
  {complaint : Complaint}

theorem because_error (h : rule c = .error r) (complaint : Complaint) :
    Rule.because complaint rule c = .error (r.because complaint) := by
  rw [Rule.because, h]

/-- A failure with a complaint leaves every rule around it as it is. -/
theorem Calls.fails (h : rule.Calls c inner c') (hinner : inner c' = .error (r.because complaint)) :
    rule c = .error (r.because complaint) := by
  induction h with
  | self => exact hinner
  | first _ next ih => exact bind_error (ih hinner) next
  | next hrun _ ih =>
      rw [bind_run hrun]
      exact ih hinner
  | because _ outer ih => rw [because_error (ih hinner), Rejection.because_because]
  | optional _ ih => exact optional_committed (ih hinner) rfl

/-! ### Where complaints come from -/

/-- A failure got its complaint where it had none: from a rule that was matched on the way. -/
def Diagnosed (rule : Rule α) (c : Cursor) (r : Rejection) : Prop :=
  ∃ (γ : Type) (inner : Rule γ) (c' : Cursor) (bare : Rejection) (complaint : Complaint),
    rule.Calls c (Rule.because complaint inner) c' ∧ inner c' = .error bare ∧
      bare.complaint = none ∧ r = bare.because complaint

/-- A rule that calls whatever another one calls passes on what that one was told. -/
theorem Diagnosed.of_calls (h : inner.Diagnosed c' r)
    (hcalls : ∀ {δ : Type} {called : Rule δ} {c'' : Cursor},
      inner.Calls c' called c'' → rule.Calls c called c'') : rule.Diagnosed c r := by
  obtain ⟨δ, called, c'', bare, complaint, hcalled, hgiven⟩ := h
  exact ⟨δ, called, c'', bare, complaint, hcalls hcalled, hgiven⟩

/-- A rule explains its failures, except those that `bare` allows. -/
def Explains (bare : Rejection → Prop) (rule : Rule α) : Prop :=
  ∀ c r, rule c = .error r → rule.Diagnosed c r ∨ bare r

end Rule

/-- A failure that has no complaint yet, and is one for good if there had to be a match. -/
def Rejection.Bare (required : Bool) (r : Rejection) : Prop :=
  r.complaint = none ∧ r.committed = required

open Rejection (Bare)

namespace Rule

namespace Explains

variable {rule : Rule α} {next : α → Rule β} {bare : Rejection → Prop} {required : Bool}

theorem pure (x : α) : (Pure.pure x : Rule α).Explains bare := by
  intro c r h
  cases h

theorem bind (hrule : rule.Explains bare) (hnext : ∀ x, (next x).Explains bare) :
    (rule >>= next).Explains bare := by
  intro c r h
  cases hrun : rule c with
  | error found =>
      rw [bind_error hrun] at h
      cases h
      exact (hrule c r hrun).imp_left (·.of_calls fun hcalls => hcalls.first next)
  | ok found =>
      obtain ⟨x, c₁⟩ := found
      rw [bind_run hrun] at h
      exact (hnext x c₁ r h).imp_left (·.of_calls fun hcalls => hcalls.next hrun)

theorem andReturn (hrule : rule.Explains bare) (f : α → β) :
    (rule >>= fun x => Pure.pure (f x)).Explains bare :=
  hrule.bind fun x => .pure (f x)

theorem ite {p : Prop} [Decidable p] {yes no : Rule α} (hyes : yes.Explains bare)
    (hno : no.Explains bare) : (if p then yes else no).Explains bare := by
  by_cases hp : p
  · rwa [if_pos hp]
  · rwa [if_neg hp]

/-- A reason explains what was bare. What was explained stays so. -/
theorem because (hrule : rule.Explains (Bare required)) (complaint : Complaint) :
    (Rule.because complaint rule).Explains bare := by
  intro c r h
  cases hrun : rule c with
  | ok found => rw [Rule.because, hrun] at h; cases h
  | error found =>
      rw [because_error hrun] at h
      cases h
      left
      rcases hrule c found hrun with ⟨γ, inner, c', r', given, hcalls, hinner, hnone, rfl⟩ | hbare
      · exact ⟨γ, inner, c', r', given, hcalls.because complaint, hinner, hnone,
          Rejection.because_because r' given complaint⟩
      · exact ⟨α, rule, c, found, complaint, .self _ c, hrun, hbare.1, rfl⟩

/-- A rule that need not match fails for good only, so with a complaint. -/
theorem optional (hrule : rule.Explains (Bare false)) : (Rule.optional rule).Explains bare := by
  intro c r h
  cases hrun : rule c with
  | ok found => rw [Rule.optional, hrun] at h; cases h
  | error found =>
      cases hcommitted : found.committed with
      | false => rw [optional_absent hrun hcommitted] at h; cases h
      | true =>
          rw [optional_committed hrun hcommitted] at h
          cases h
          rcases hrule c r hrun with hdiagnosed | hbare
          · exact .inl (hdiagnosed.of_calls fun hcalls => hcalls.optional)
          · rw [hbare.2] at hcommitted
            cases hcommitted

/-- What is thrown with a complaint got it where it is thrown. -/
theorem throw {r : Rejection} (hr : r.complaint = none) (complaint : Complaint) :
    (MonadExcept.throw (r.because complaint) : Rule α).Explains bare := by
  intro c r' h
  cases h
  exact .inl ⟨α, MonadExcept.throw r, c, r, complaint, .self _ c, rfl, hr, rfl⟩

theorem peek : Rule.peek.Explains bare := by
  intro c r h
  cases h

theorem peekKind : Rule.peekKind.Explains bare := by
  intro c r h
  cases h

theorem peekSpan : Rule.peekSpan.Explains bare := by
  intro c r h
  cases h

theorem advance : Rule.advance.Explains bare := by
  intro c r h
  cases h

theorem noMatch (required : Bool) : (Rule.noMatch required : Rule α).Explains (Bare required) := by
  intro c r h
  cases h
  exact .inr ⟨rfl, Bool.false_or required⟩

theorem reject (complaint : Complaint) : (Rule.reject complaint : Rule α).Explains bare :=
  peekSpan.bind fun _ => throw rfl complaint

theorem accept (kind : Kind) : (Rule.accept kind).Explains bare :=
  peekKind.bind fun _ => ite (advance.andReturn _) (pure _)

theorem expect (kind : Kind) (complaint : Complaint) :
    (Rule.expect kind complaint).Explains bare := by
  refine (accept kind).bind fun found => ?_
  cases found with
  | true => exact pure _
  | false => exact reject complaint

theorem name? : Rule.name?.Explains bare := by
  refine peek.bind fun head => ?_
  cases head with
  | none => exact pure _
  | some token => exact ite (advance.andReturn _) (pure _)

theorem name (complaint : Complaint) : (Rule.name complaint).Explains bare := by
  refine name?.bind fun found => ?_
  cases found with
  | none => exact reject complaint
  | some name => exact pure _

theorem after (hrule : rule.Explains bare) (kind : Kind) : (Rule.after kind rule).Explains bare :=
  (accept kind).bind fun _ => ite (hrule.andReturn _) (pure _)

theorem manyWithin {item : Rule (Option α)} (hitem : item.Explains bare) (budget : List Token) :
    (Rule.manyWithin item budget).Explains bare := by
  induction budget with
  | nil => exact hitem.andReturn _
  | cons token budget ih =>
      refine hitem.bind fun found => ?_
      cases found with
      | none => exact pure _
      | some x => exact ih.andReturn _

theorem many {item : Rule (Option α)} (hitem : item.Explains bare) :
    (Rule.many item).Explains bare := by
  have hget : (get : Rule Cursor).Explains bare := by
    intro c r h
    cases h
  exact hget.bind fun c => manyWithin hitem c.rest

end Explains

end Rule

/-- The rules for what stands one level deeper leave to their callers only to say what is missing. -/
structure Nested.Explains (deeper : Nested) : Prop where
  expr : ∀ required, (deeper.expr required).Explains (Bare required)
  operand : deeper.operand.Explains (Bare true)

namespace Grammar

/-! ### Levels of operators -/

variable {operand : Bool → Rule Expr} {bare : Rejection → Prop}
  (hoperand : ∀ required, (operand required).Explains (Bare required))

include hoperand

theorem explains_operation {ω : Type} (operator? : Kind → Option ω) (complaint : Complaint) :
    (operation operator? operand complaint).Explains bare := by
  refine Explains.peekKind.bind fun head => ?_
  cases head.bind operator? with
  | none => exact .pure _
  | some op => exact Explains.advance.bind fun _ => ((hoperand true).because _).andReturn _

theorem explains_binary {ω : Type} {operator? : Kind → Option ω} {complaint : Complaint}
    {node : Expr → List (ω × Expr) → Expr} (required : Bool) :
    (binary operator? operand complaint node required).Explains (Bare required) :=
  (hoperand required).bind fun _ =>
    (Explains.many (explains_operation hoperand operator? complaint)).andReturn _

theorem explains_logical {keyword : Keyword} {complaint : Complaint} {node : Expr → List Expr → Expr}
    (required : Bool) : (logical keyword operand complaint node required).Explains (Bare required) :=
  (hoperand required).bind fun _ =>
    (Explains.many (((hoperand true).because complaint).after (.keyword keyword))).andReturn _

omit hoperand

/-! ### Blocks and control flow -/

variable {deeper : Nested} (hdeeper : deeper.Explains)

include hdeeper

theorem explains_statements : (statements deeper).Explains bare :=
  .many (hdeeper.expr false).optional

theorem explains_block (construct : Construct) : (block deeper construct).Explains bare :=
  (Explains.expect _ _).bind fun _ => (explains_statements hdeeper).bind fun _ =>
    (Explains.expect _ _).andReturn _

theorem explains_branch (keyword : String) : (branch deeper keyword).Explains bare :=
  ((hdeeper.expr true).because _).bind fun _ => (explains_block hdeeper _).andReturn _

theorem explains_cond : (cond deeper).Explains bare :=
  (explains_branch hdeeper _).bind fun _ =>
    (Explains.many ((explains_branch hdeeper _).after _)).bind fun _ =>
      ((explains_block hdeeper _).after _).andReturn _

theorem explains_whileLoop : (whileLoop deeper).Explains bare :=
  ((hdeeper.expr true).because _).bind fun _ => (explains_block hdeeper _).andReturn _

theorem explains_forLoop : (forLoop deeper).Explains bare := by
  have hexpr := hdeeper.expr true
  refine (Explains.name _).bind fun value => ((Explains.name _).after _).bind fun key => ?_
  refine (Explains.accept _).bind fun found => .ite ?_ ?_
  · exact (hexpr.because _).bind fun _ => (explains_block hdeeper _).andReturn _
  · refine (Explains.expect _ _).bind fun _ => .ite ((Explains.reject _).bind fun _ => ?_) ?_
    all_goals
      refine (hexpr.because _).bind fun _ => (Explains.expect _ _).bind fun _ => ?_
      refine (hexpr.because _).bind fun _ => ((hexpr.because _).after _).bind fun _ => ?_
      exact (explains_block hdeeper _).andReturn _

theorem explains_control? : (control? deeper).Explains bare := by
  refine Explains.peekKind.bind fun head => ?_
  split
  · exact Explains.advance.bind fun _ => (explains_cond hdeeper).andReturn _
  · exact Explains.advance.bind fun _ => (explains_whileLoop hdeeper).andReturn _
  · exact Explains.advance.bind fun _ => (explains_block hdeeper _).andReturn _
  · exact Explains.advance.bind fun _ => (explains_forLoop hdeeper).andReturn _
  · exact Explains.advance.bind fun _ =>
      ((((hdeeper.expr true).because _).after _).andReturn _).andReturn _
  · exact Explains.advance.andReturn _
  · exact Explains.advance.andReturn _
  · exact .reject _
  · exact .pure _

/-! ### Values -/

theorem explains_function : (function deeper).Explains bare := by
  refine Explains.name?.bind fun name => (Explains.expect _ _).bind fun _ => ?_
  refine Explains.name?.bind fun first => ?_
  have hbody : ∀ params, (Rule.expect (.symbol .rightParen) .funcClose >>= fun _ =>
      block deeper .func >>= fun body =>
        Pure.pure (Expr.function name params body)).Explains bare :=
    fun params => (Explains.expect _ _).bind fun _ => (explains_block hdeeper _).andReturn _
  cases first with
  | none => exact hbody []
  | some first =>
      exact (Explains.many ((Explains.name _).after _)).bind fun rest => hbody (first :: rest)

theorem explains_elements? (construct : Construct) :
    (elements? deeper construct).Explains bare := by
  refine (hdeeper.expr false).optional.bind fun first => ?_
  cases first with
  | none => exact .pure _
  | some first => exact (Explains.many (((hdeeper.expr true).because _).after _)).andReturn _

theorem explains_list : (list deeper).Explains bare :=
  (explains_elements? hdeeper _).bind fun _ => (Explains.expect _ _).andReturn _

omit hdeeper in
theorem explains_literal? : literal?.Explains bare := by
  refine Explains.peek.bind fun head => ?_
  cases head with
  | none => exact .pure _
  | some token =>
      simp only
      split
      iterate 5 exact Explains.advance.andReturn _
      · split
        · exact Explains.advance.andReturn _
        · exact .reject _
      · exact .pure _

theorem explains_entryValue : (entryValue deeper).Explains bare :=
  (Explains.expect _ _).bind fun _ => (hdeeper.expr true).because _

theorem explains_entry : (entry deeper).Explains bare := by
  refine Explains.peek.bind fun head => ?_
  cases head with
  | none => exact .reject _
  | some token =>
      simp only
      split
      · exact Explains.advance.bind fun _ => (explains_entryValue hdeeper).andReturn _
      iterate 2
        refine explains_literal?.bind fun found => ?_
        cases found with
        | none => exact .reject _
        | some key => exact (explains_entryValue hdeeper).andReturn _
      · exact Explains.advance.bind fun _ => ((hdeeper.expr true).because _).bind fun _ =>
          (Explains.expect _ _).bind fun _ => (explains_entryValue hdeeper).andReturn _
      · exact .reject _

theorem explains_entryAfterComma : (entryAfterComma deeper).Explains bare :=
  (Explains.accept _).bind fun _ => .ite
    (Explains.peekKind.bind fun _ => .ite (.pure _) ((explains_entry hdeeper).andReturn _)) (.pure _)

theorem explains_table : (table deeper).Explains bare :=
  (Explains.accept _).bind fun _ => .ite (.pure _) <| (explains_entry hdeeper).bind fun _ =>
    (Explains.many (explains_entryAfterComma hdeeper)).bind fun _ => (Explains.expect _ _).andReturn _

theorem explains_quote : (quote deeper).Explains bare :=
  ((hdeeper.expr true).because _).bind fun _ => (Explains.expect _ _).andReturn _

/-- The one rule that fails without a complaint: where no value begins. -/
theorem explains_value (required : Bool) : (value deeper required).Explains (Bare required) := by
  refine explains_literal?.bind fun found => ?_
  cases found with
  | some literal => exact .pure _
  | none =>
      refine Explains.peekKind.bind fun head => ?_
      split
      · exact Explains.advance.bind fun _ => explains_list hdeeper
      · exact Explains.advance.bind fun _ => explains_table hdeeper
      · exact Explains.advance.bind fun _ => explains_quote hdeeper
      · exact Explains.advance.bind fun _ => explains_function hdeeper
      · exact .noMatch required

theorem explains_accessor? : (accessor? deeper).Explains bare := by
  have hline : onSameLine.Explains bare := by
    intro c r h
    cases h
  refine Explains.peekKind.bind fun head => ?_
  split
  · refine hline.bind fun _ => .ite (Explains.advance.bind fun _ => ?_) (.pure _)
    exact ((hdeeper.expr true).because _).bind fun _ => (Explains.expect _ _).andReturn _
  · exact Explains.advance.bind fun _ => (Explains.name _).andReturn _
  · refine hline.bind fun _ => .ite (Explains.advance.bind fun _ => ?_) (.pure _)
    exact (explains_elements? hdeeper _).bind fun _ => (Explains.expect _ _).andReturn _
  · exact .pure _

/-! ### Expressions -/

theorem explains_primary (required : Bool) : (primary deeper required).Explains (Bare required) := by
  refine (explains_control? hdeeper).bind fun found => ?_
  cases found with
  | some control => exact .pure _
  | none => exact (explains_value hdeeper required).bind fun _ =>
      (Explains.many (explains_accessor? hdeeper)).andReturn _

theorem explains_unary (required : Bool) : (unary deeper required).Explains (Bare required) := by
  refine Explains.peekKind.bind fun head => ?_
  cases head.bind unaryOp? with
  | some op => exact Explains.advance.bind fun _ => (hdeeper.operand.because _).andReturn _
  | none => exact explains_primary hdeeper required

theorem explains_or (required : Bool) : (or deeper required).Explains (Bare required) := by
  have hadd : ∀ required, (add deeper required).Explains (Bare required) :=
    explains_binary (explains_binary (explains_unary hdeeper))
  exact explains_logical (explains_logical (explains_binary hadd)) required

theorem explains_global : (global deeper).Explains bare :=
  (Explains.name _).bind fun _ => (Explains.expect _ _).bind fun _ =>
    ((hdeeper.expr true).because _).andReturn _

theorem explains_update? : (update? deeper).Explains bare := by
  refine Explains.peekKind.bind fun head => ?_
  split
  iterate 3 exact Explains.advance.bind fun _ => ((hdeeper.expr true).because _).andReturn _
  · exact Explains.advance.andReturn _
  · exact Explains.advance.andReturn _
  · exact .pure _

theorem explains_expr (required : Bool) : (expr deeper required).Explains (Bare required) := by
  refine (Explains.accept _).bind fun found => .ite (explains_global hdeeper) ?_
  refine (explains_control? hdeeper).bind fun found => ?_
  cases found with
  | some control => exact .pure _
  | none =>
      refine Explains.peekSpan.bind fun place => (explains_or hdeeper required).bind fun left => ?_
      refine (explains_update? hdeeper).bind fun found => ?_
      cases found with
      | none => exact .pure _
      | some update =>
          simp only
          cases target? left with
          | some target => exact .pure _
          | none => exact .throw rfl _

omit hdeeper in
theorem explains_nested (levels : Nat) : (nested levels).Explains := by
  induction levels with
  | zero =>
      have hlimit : ∀ {bare : Rejection → Prop} construct, (tooDeep construct).Explains bare :=
        fun construct => Explains.peekSpan.bind fun place => .throw rfl _
      exact ⟨fun _ => hlimit _, hlimit _⟩
  | succ levels ih => exact ⟨explains_expr ih, explains_unary ih true⟩

end Grammar

/-! ### Programs -/

theorem program_diagnosed {tokens : List Token} {r : Rejection}
    (h : Rule.program (.start tokens) = .error r) : Rule.program.Diagnosed (.start tokens) r := by
  have hnever : Rule.program.Explains fun _ => False :=
    Grammar.explains_statements (Grammar.explains_nested Grammar.maxDepth)
  exact (hnever (.start tokens) r h).resolve_right id

/-- Failures begin at tokens and do not move. -/
theorem FailureLaw.place (tokens : List Token) : FailureLaw tokens fun r => PlaceIn tokens r.span where
  noMatch hplace := hplace
  number htoken _ _ := fun _ hspan => ⟨_, htoken, Option.some.inj hspan⟩
  final hr := hr
  demanded hr _ := hr
  because hr _ _ := hr

/-- Every failure to read a program says what it is about. It is one for good and has a complaint, which
is what the error says; and its place is that of a token, or the end. The complaint was given to it
where it had none, and it is the innermost one: whatever rule was matched on the way with a complaint to
give, that complaint was given only if the failure had none yet. -/
theorem failures_diagnosed (tokens : List Token) (r : Rejection)
    (h : Rule.program (.start tokens) = .error r) :
    r.committed = true ∧
      (∃ complaint e, r.complaint = some complaint ∧ parse tokens = .error e ∧
        (e.message = complaint.message ++ " at end of input" ∨
          ∃ span, r.span = some span ∧ e.message = complaint.message ++ " at " ++ span.text)) ∧
      PlaceIn tokens r.span ∧
      Rule.program.Diagnosed (.start tokens) r ∧
      ∀ (γ : Type) (inner : Rule γ) (c : Cursor) (r' : Rejection) (complaint : Complaint),
        Rule.program.Calls (.start tokens) (Rule.because complaint inner) c →
        inner c = .error r' → r = r'.because complaint := by
  obtain ⟨_, _, _, bare, complaint, -, -, hbare, rfl⟩ := program_diagnosed h
  have hcomplaint : (bare.because complaint).complaint = some complaint := by
    rw [Rejection.because, hbare]
    rfl
  have hparse : parse tokens = .error (.ofRejection (bare.because complaint)) := by
    rw [parse, h]
  refine ⟨rfl, ⟨complaint, _, hcomplaint, hparse, ?_⟩, Grammar.program_fails (.place tokens) h,
    program_diagnosed h, fun γ inner c r' outer hcalls hinner => ?_⟩
  · rw [SyntaxError.ofRejection, hcomplaint]
    split
    next span hspan =>
      split
      · exact .inl rfl
      · exact .inr ⟨span, hspan, rfl⟩
    next => exact .inl rfl
  · have hfails := hcalls.fails (because_error hinner outer)
    rw [h] at hfails
    exact Except.error.inj hfails

/-- A sum in parentheses without its second operand, `(a +)`. -/
def openSumTokens : List Token :=
  wordsOn 0 [(.symbol .leftParen, none), (.identifier, some "a"), (.symbol .plus, none),
    (.symbol .rightParen, none)]

open Grammar in
theorem openSum_calls_quote : Rule.program.Calls (.start openSumTokens)
    (Rule.because .quoteValue ((nested 63).expr true)) ⟨some 0, openSumTokens.tail⟩ := by
  unfold Rule.program statements Rule.many
  -- the first statement begins with no keyword, so it is an expression
  refine .next rfl (.first (.optional ?_) _)
  refine .next rfl (.next rfl (.next rfl (.first ?_ _)))
  -- through the levels of operators, down to a value
  refine .first (.first (.first (.first (.first ?_ _) _) _) _) _
  refine .next rfl (.next rfl (.first ?_ _))
  -- the value is in parentheses
  exact .next rfl (.next rfl (.next rfl (.first (.self _ _) _)))

/-- The expression in parentheses fails for want of an operand, and that it is in parentheses adds
nothing. -/
theorem failures_diagnosed_openSum :
    let r : Rejection := ⟨false, true, some .addOperand, some ⟨0, 0, 0, 0⟩⟩
    Rule.program (.start openSumTokens) = .error r ∧ PlaceIn openSumTokens r.span ∧
      ∃ r', (Grammar.nested 63).expr true ⟨some 0, openSumTokens.tail⟩ = .error r' ∧
        r = r'.because .quoteValue := by
  intro r
  have hfails : Rule.program (.start openSumTokens) = .error r := rfl
  obtain ⟨-, -, hplace, -, hinnermost⟩ := failures_diagnosed openSumTokens r hfails
  exact ⟨hfails, hplace, r, rfl, hinnermost _ _ _ _ _ openSum_calls_quote rfl⟩

end TableScript
