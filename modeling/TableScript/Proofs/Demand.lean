import TableScript.Proofs.Commitment

/-!
Expressions that have to be there. A rule that has to match differs from one that need not only
where its construct does not begin at all: there one fails for good and the other leaves room for
something else. Once the first token fits, the two do the same.
-/

namespace TableScript

open Rule

/-- Rules that agree at a place agree there also with something after them. -/
theorem Rule.bind_eq_of_eq {α β : Type} {rule rule' : Rule α} {c : Cursor} (h : rule c = rule' c)
    (next : α → Rule β) : (rule >>= next) c = (rule' >>= next) c := by
  change (rule c >>= fun found => next found.1 found.2) = _
  rw [h]
  rfl

namespace Grammar

variable {deeper : Nested} {c : Cursor}

/-- The kinds of tokens at which an expression begins. -/
def openers : List Kind :=
  [.keyword .global, .keyword .if, .keyword .while, .keyword .loop, .keyword .for, .keyword .return,
    .keyword .continue, .keyword .break, .keyword .require, .symbol .minus, .keyword .not,
    .keyword .null, .keyword .true, .keyword .false, .identifier, .string, .number,
    .symbol .leftBracket, .symbol .leftBrace, .symbol .leftParen, .keyword .func]

theorem mem_openers_iff {kind : Kind} : kind ∈ openers ↔ starts kind = true := by
  cases kind with
  | identifier => decide
  | number => decide
  | string => decide
  | keyword word => cases word <;> decide
  | symbol mark => cases mark <;> decide

theorem absent_iff : Absent c ↔ ∀ token, c.rest.head? = some token → token.kind ∉ openers := by
  constructor
  · intro habsent token hhead hmem
    have hstarts := habsent token.kind (by rw [hhead]; rfl)
    rw [mem_openers_iff.1 hmem] at hstarts
    cases hstarts
  · intro h kind hkind
    obtain ⟨token, hhead, rfl⟩ := Option.map_eq_some_iff.1 hkind
    exact Bool.eq_false_iff.2 fun hstarts => h token hhead (mem_openers_iff.2 hstarts)

/-! ### Where the first token fits -/

theorem value_required_eq {token : Token} (hhead : c.rest.head? = some token)
    (hstarts : startsValue token.kind = true) : value deeper true c = value deeper false c := by
  unfold value
  cases hliteral : literal? c with
  | error rejection => rw [bind_error hliteral, bind_error hliteral]
  | ok found =>
      obtain ⟨found, c'⟩ := found
      rw [bind_run hliteral, bind_run hliteral]
      cases found with
      | some e => rfl
      | none =>
          obtain ⟨rfl, hkind⟩ := literal?_eq_none hliteral hhead hstarts
          simp only
          rw [peekKind_run, peekKind_run, hhead, Option.map_some]
          rcases hkind with hkind | hkind | hkind | hkind <;> rw [hkind]

theorem unary_required_eq {token : Token} (hhead : c.rest.head? = some token) (hplain : Plain c)
    (hstarts : starts token.kind = true) : unary deeper true c = unary deeper false c := by
  rw [unary, unary, peekKind_run, peekKind_run, hhead, Option.map_some, Option.bind_some]
  cases hop : unaryOp? token.kind with
  | some op => rfl
  | none =>
      have hleading : isLeading token.kind = false := hplain _ (by rw [hhead]; rfl)
      have hvalue : startsValue token.kind = true := by
        rw [starts, hop, hleading] at hstarts
        exact hstarts
      simp only
      rw [primary, primary, bind_run hplain.control?, bind_run hplain.control?]
      simp only
      rw [access, access]
      exact bind_eq_of_eq (value_required_eq hhead hvalue) _

/-- Only the first operand of a level has a flag to pass on. -/
theorem binary_required_eq {ω : Type} {operator? : Kind → Option ω} {operand : Bool → Rule Expr}
    {complaint : Complaint} {node : Expr → List (ω × Expr) → Expr}
    (h : operand true c = operand false c) :
    binary operator? operand complaint node true c =
      binary operator? operand complaint node false c :=
  bind_eq_of_eq h _

theorem logical_required_eq {keyword : Keyword} {operand : Bool → Rule Expr} {complaint : Complaint}
    {node : Expr → List Expr → Expr} (h : operand true c = operand false c) :
    logical keyword operand complaint node true c =
      logical keyword operand complaint node false c :=
  bind_eq_of_eq h _

theorem or_required_eq (h : unary deeper true c = unary deeper false c) :
    or deeper true c = or deeper false c := by
  have hcompare : compare deeper true c = compare deeper false c :=
    binary_required_eq (binary_required_eq (binary_required_eq h))
  exact logical_required_eq (logical_required_eq hcompare)

theorem expr_required_eq {token : Token} (hhead : c.rest.head? = some token)
    (hstarts : starts token.kind = true) : expr deeper true c = expr deeper false c := by
  rw [expr, expr]
  by_cases hglobal : c.rest.head?.map (·.kind) = some (.keyword .global)
  · have haccept : accept (.keyword .global) c = .ok (true, c.advance) := by
      rw [accept, peekKind_run, if_pos hglobal]
      rfl
    rw [bind_run haccept, bind_run haccept, if_pos rfl, if_pos rfl]
  · rw [bind_run (accept_other hglobal), bind_run (accept_other hglobal), if_neg (by decide),
      if_neg (by decide)]
    cases hcontrol : control? deeper c with
    | error rejection => rw [bind_error hcontrol, bind_error hcontrol]
    | ok found =>
        obtain ⟨found, c'⟩ := found
        rw [bind_run hcontrol, bind_run hcontrol]
        cases found with
        | some control => rfl
        | none =>
            have hplain := plain_of_control? hcontrol hglobal
            cases hcontrol.symm.trans hplain.control?
            have hor : or deeper true c = or deeper false c :=
              or_required_eq (unary_required_eq hhead hplain hstarts)
            simp only
            rw [peekSpan_run, peekSpan_run]
            exact bind_eq_of_eq hor _

/-! ### The flag of an expression -/

theorem expr_fails_iff : (∃ rejection, expr deeper false c = .error rejection ∧
    rejection.committed = false) ↔ Absent c := by
  constructor
  · rintro ⟨rejection, hrun, hcommitted⟩
    exact absent_of_expr hrun hcommitted
  · exact fun habsent => ⟨_, expr_absent habsent, rfl⟩

theorem exists_starts_of_not_absent (h : ¬Absent c) : ∃ token, c.rest.head? = some token ∧
    starts token.kind = true := by
  cases hhead : c.rest.head? with
  | none =>
      refine absurd (fun kind hkind => ?_) h
      rw [hhead] at hkind
      cases hkind
  | some token =>
      refine ⟨token, rfl, eq_true_of_ne_false fun hstarts => h fun kind hkind => ?_⟩
      rw [hhead] at hkind
      cases hkind
      exact hstarts

theorem commits_expr_true : (expr deeper true).Commits := by
  intro c rejection hrun
  by_cases habsent : Absent c
  · rw [expr_absent habsent] at hrun
    cases hrun
    rfl
  · obtain ⟨token, hhead, hstarts⟩ := exists_starts_of_not_absent habsent
    exact commitsAt_expr hhead hstarts rejection hrun

/-- An expression that need not be there gives way exactly where no token begins one. One that has
to be there fails for good at such a place, in the same way otherwise, and does the same as the
other one everywhere else. -/
theorem expr_demand (depth : Nat) (hdepth : depth < maxDepth) (c : Cursor) :
    let rule := (nested (maxDepth - depth)).expr
    ((∃ rejection, rule false c = .error rejection ∧ rejection.committed = false) ↔
      ∀ token, c.rest.head? = some token → token.kind ∉ openers) ∧
    (∀ rejection, rule false c = .error rejection → rejection.committed = false →
      rule true c = .error { rejection with committed := true }) ∧
    ((¬∃ rejection, rule false c = .error rejection ∧ rejection.committed = false) →
      rule true c = rule false c) ∧
    ∀ rejection, rule true c = .error rejection → rejection.committed = true := by
  obtain ⟨levels, hlevels⟩ : ∃ levels, maxDepth - depth = levels + 1 :=
    Nat.exists_eq_succ_of_ne_zero (Nat.sub_ne_zero_of_lt hdepth)
  rw [hlevels]
  refine ⟨expr_fails_iff.trans absent_iff, ?_, ?_, fun rejection => commits_expr_true c rejection⟩
  · intro rejection hrun hcommitted
    have habsent := absent_of_expr hrun hcommitted
    cases hrun.symm.trans (expr_absent habsent)
    exact expr_absent habsent
  · intro hbegins
    obtain ⟨token, hhead, hstarts⟩ := exists_starts_of_not_absent fun habsent =>
      hbegins (expr_fails_iff.2 habsent)
    exact expr_required_eq hhead hstarts

/-- On the last level that is allowed an `elif` begins nothing, and a sign begins an expression
whose operand is too deep. -/
theorem expr_demand_lastLevel : 63 < maxDepth ∧
    (nested (maxDepth - 63)).expr true (.start (wordsOn 0 [(.keyword .elif, none)])) =
      .error ⟨false, true, none, some ⟨0, 0, 0, 0⟩⟩ ∧
    (nested (maxDepth - 63)).expr true (.start (wordsOn 0 [(.symbol .minus, none)])) =
      .error ⟨false, true, some (.nestedTooDeeply .unary), none⟩ := by
  have hdepth : 63 < maxDepth := by decide
  obtain ⟨-, habsent, -⟩ := expr_demand 63 hdepth (.start (wordsOn 0 [(.keyword .elif, none)]))
  obtain ⟨-, -, hbegins, -⟩ := expr_demand 63 hdepth (.start (wordsOn 0 [(.symbol .minus, none)]))
  refine ⟨hdepth, habsent ⟨false, false, none, some ⟨0, 0, 0, 0⟩⟩ rfl rfl, ?_⟩
  refine (hbegins ?_).trans rfl
  rintro ⟨rejection, hrun, hcommitted⟩
  cases hrun
  cases hcommitted

end Grammar

end TableScript
