import TableScript.Proofs.Lookahead

/-!
The grammar looks one token ahead. What the rules for values have read ends with a fixed token;
expressions and control flow end before any token that does not continue an expression.
-/

namespace TableScript

open Rule

/-- A rule for expressions, which end before any token that does not continue them. -/
abbrev Rule.Bounded {α : Type} (rule : Rule α) (c : Cursor) : Prop :=
  rule.Foresees (fun _ => True) (fun _ c' => c'.Stops 1) c

namespace Grammar

/-- The rules for what stands one level deeper look one token ahead. -/
structure Foreseen (deeper : Nested) : Prop where
  expr : ∀ required c, (deeper.expr required).Bounded c
  operand : ∀ c, deeper.operand.Bounded c
  absent : ∀ c rejection, deeper.expr false c = .error rejection → rejection.committed = false →
    ∀ rest, rest.head? = c.rest.head? ∨ Absent ⟨c.line, rest⟩ →
      ∃ rejection', deeper.expr false ⟨c.line, rest⟩ = .error rejection' ∧
        rejection'.committed = false

variable {deeper : Nested} {c : Cursor}

/-! ### Blocks and control flow -/

theorem foresees_statements (h : Foreseen deeper) :
    (statements deeper).Foresees (fun _ => False) (fun _ c' => c'.Stops 1 ∧ Absent c') c := by
  refine Foresees.many (fun c => (h.expr false c).optional h.absent) (fun found c' hends => ?_) c
  cases found with
  | some e => exact hends.1
  | none => exact hends.2

theorem fixed_block (h : Foreseen deeper) (construct : Construct) :
    (block deeper construct).Fixed c := by
  refine (Foresees.expect _ _).andThen fun _ c' _ => ?_
  exact (foresees_statements h).before fun body _ _ => (Foresees.expect _ _).map _

theorem fixed_branch (h : Foreseen deeper) (keyword : String) : (branch deeper keyword).Fixed c :=
  ((h.expr true c).because _).before fun _ _ _ => (fixed_block h _).map _

theorem foresees_elifs (h : Foreseen deeper) :
    (many (after (.keyword .elif) (branch deeper "elif"))).Foresees (fun _ => False)
      (fun _ c' => c'.Stops 1) c := by
  refine Foresees.many (fun c => .after fun _ => fixed_branch h _) (fun found c' hstops => ?_) c
  cases found with
  | some branch => trivial
  | none => exact hstops.ne (by decide) (by decide)

theorem bounded_cond (h : Foreseen deeper) : (cond deeper).Bounded c := by
  refine (fixed_branch h _).andThen fun first c' _ => ?_
  refine (foresees_elifs h).bind (N := fun _ _ => False) (fun rest c'' _ => ?_) ?_
    fun _ _ => False.elim
  · refine (Foresees.after fun _ => fixed_block h _).andReturn (fun _ => False.elim) ?_
    intro otherwise c'' hstops
    cases otherwise with
    | some body => trivial
    | none => exact hstops.ne (by decide) (by decide)
  · exact fun _ _ _ => .inr id

theorem fixed_whileLoop (h : Foreseen deeper) : (whileLoop deeper).Fixed c :=
  ((h.expr true c).because _).before fun _ _ _ => (fixed_block h _).map _

theorem fixed_forLoop (h : Foreseen deeper) : (forLoop deeper).Fixed c := by
  refine (Foresees.name _).andThen fun value c' _ => ?_
  refine (Foresees.after fun _ => Foresees.name _).before fun key c' _ => ?_
  refine (Foresees.accept _).before fun found c' _ => .ite (fun _ => ?_) fun _ => ?_
  · refine ((h.expr true _).because _).before fun items _ _ => (fixed_block h _).map _
  · refine (Foresees.expect _ _).andThen fun _ c' _ => .ite (fun _ => ?_) fun _ => ?_
    · exact .reject_bind _
    · refine ((h.expr true _).because _).before fun start _ _ => ?_
      refine (Foresees.expect _ _).andThen fun _ _ _ => ?_
      refine ((h.expr true _).because _).before fun stop _ _ => ?_
      refine (Foresees.after fun _ => (h.expr true _).because _).before fun step _ _ => ?_
      exact (fixed_block h _).map _

theorem bounded_returnValue (h : Foreseen deeper) : (returnValue deeper).Foresees (fun _ => False)
    (fun _ c' => c'.Stops 1) c := by
  refine (Foresees.after fun _ => (h.expr true _).because _).andReturn (fun _ => False.elim) ?_
  intro value c' hstops
  cases value with
  | some value => exact hstops
  | none => exact hstops.ne (by decide) (by decide)

/-- Control flow ends where an expression does. Where there is none, nothing is said of what else could
stand there. -/
theorem foresees_control? (h : Foreseen deeper) : (control? deeper).Foresees (·.isSome)
    (EndsWith (fun _ c' => c'.Stops 1) fun _ => False) c := by
  refine .peekKind ?_ fun found c' => ?_
  · split
    next hkind =>
      refine .advanceOf hkind ((bounded_cond h).andReturn (fun _ _ => trivial) fun _ _ => id)
    next hkind =>
      refine .advanceOf hkind ((fixed_whileLoop h).andReturn (fun _ _ => trivial) fun _ _ _ => trivial)
    next hkind =>
      refine .advanceOf hkind ((fixed_block h _).andReturn (fun _ _ => trivial) fun _ _ _ => trivial)
    next hkind =>
      refine .advanceOf hkind ((fixed_forLoop h).andReturn (fun _ _ => trivial) fun _ _ _ => trivial)
    next hkind =>
      refine .advanceOf hkind ((bounded_returnValue h).andReturn (fun _ => id) fun _ _ => id)
    next hkind =>
      refine .advanceOf hkind ((Foresees.pure _).mono (fun _ => False.elim) fun _ _ _ => trivial)
    next hkind =>
      refine .advanceOf hkind ((Foresees.pure _).mono (fun _ => False.elim) fun _ _ _ => trivial)
    next => exact .reject _
    next => exact .nothing
  · cases found with
    | some control => exact .inl rfl
    | none => exact .inr False.elim

/-! ### Values -/

/-- Items after commas end where there is no comma and the last item ends. -/
theorem foresees_commas {α : Type} {rule : Rule α} {Moves : α → Prop} {Ends : α → Cursor → Prop}
    {E : Cursor → Prop} (h : ∀ c, rule.Foresees Moves Ends c) (hends : ∀ x c', E c' → Ends x c')
    (hcomma : ∀ c', E c' → c'.rest.head?.map (·.kind) ≠ some (.symbol .comma)) :
    (many (after (.symbol .comma) rule)).Foresees (fun _ => False) (fun _ => E) c := by
  refine Foresees.many (fun _ => .after h) (fun found c' hE => ?_) c
  cases found with
  | some x => exact hends x c' hE
  | none => exact hcomma c' hE

theorem foresees_names :
    (many (after (.symbol .comma) (name .funcParam))).Foresees (fun _ => False)
      (fun _ c' => c'.rest.head?.map (·.kind) ≠ some (.symbol .comma)) c :=
  foresees_commas (fun _ => Foresees.name _) (fun _ _ _ => trivial) fun _ => id

theorem fixed_function (h : Foreseen deeper) : (function deeper).Fixed c := by
  refine Foresees.name?.before fun name c' _ => ?_
  refine (Foresees.expect _ _).andThen fun _ c' _ => ?_
  -- the rest of the rule, once the parameters are known
  have hbody : ∀ params c', (expect (.symbol .rightParen) .funcClose >>= fun _ =>
      block deeper .func >>= fun body => pure (Expr.function name params body)).Fixed c' :=
    fun params c' => (Foresees.expect _ _).andThen fun _ _ _ => (fixed_block h _).map _
  refine Foresees.name?.before fun first c' _ => ?_
  cases first with
  | none => exact hbody [] c'
  | some first =>
      exact foresees_names.before fun rest c' _ => hbody (first :: rest) c'

theorem Closed.ne_comma (h : Closed c) : c.rest.head?.map (·.kind) ≠ some (.symbol .comma) := by
  intro hcomma
  rcases h _ hcomma with hkind | hkind | hkind <;> cases hkind

theorem foresees_elements? (h : Foreseen deeper) (construct : Construct) :
    (elements? deeper construct).Foresees (fun _ => False) (fun _ c' => Closed c') c := by
  refine ((h.expr false c).optional h.absent).bind (N := fun _ _ => False) (fun first c' _ => ?_) ?_
    fun _ _ => False.elim
  · cases first with
    | none => exact (Foresees.pure none).mono (fun _ => False.elim) fun _ _ _ => trivial
    | some first =>
        have hrest := foresees_commas (c := c') (fun c =>
          (h.expr true c).because (.nextElement construct)) (fun _ _ => Closed.stops)
          fun _ => Closed.ne_comma
        exact hrest.andReturn (fun _ => id) fun _ _ => id
  · intro first _ c'
    refine .inr fun hclosed => ?_
    cases first with
    | some first => exact hclosed.stops
    | none => exact hclosed.absent

theorem fixed_list (h : Foreseen deeper) : (list deeper).Fixed c :=
  (foresees_elements? h _).before fun _ _ _ => (Foresees.expect _ _).map _

theorem foresees_literal? : literal?.Foresees (·.isSome)
    (EndsWith (fun _ _ => True) fun _ => False) c := by
  refine .peek ?_ fun found c' => ?_
  · cases hhead : c.rest.head? with
    | none => exact .nothing
    | some token =>
        have hpass : ∀ e : Expr, (advance >>= fun _ => pure (some e)).Foresees (·.isSome)
            (EndsWith (fun _ _ => True) fun _ => False) c :=
          fun e => (Foresees.advance hhead).andReturn (fun _ _ => trivial) fun _ _ _ => trivial
        simp only
        split
        iterate 5 exact hpass _
        · split
          · exact hpass _
          · exact .reject _
        · exact .nothing
  · cases found with
    | some e => exact .inl rfl
    | none => exact .inr False.elim

theorem bounded_entryValue (h : Foreseen deeper) : (entryValue deeper).Bounded c :=
  (Foresees.expect _ _).andThen fun _ c' _ => ((h.expr true c').because _).mono (fun _ => False.elim)
    fun _ _ => id

theorem bounded_entry (h : Foreseen deeper) : (entry deeper).Bounded c := by
  refine .peek ?_ fun _ _ => .inl trivial
  cases hhead : c.rest.head? with
  | none => exact .reject _
  | some token =>
      simp only
      split
      · exact (Foresees.advance hhead).andThen fun _ _ _ => (bounded_entryValue h).map _
      iterate 2
        refine foresees_literal?.before fun found c' _ => ?_
        cases found with
        | none => exact .reject _
        | some key => exact (bounded_entryValue h).map _
      · refine (Foresees.advance hhead).andThen fun _ c' _ => ?_
        refine ((h.expr true c').because _).before fun key _ _ => ?_
        exact (Foresees.expect _ _).andThen fun _ _ _ => (bounded_entryValue h).map _
      · exact .reject _

/-- A comma that no entry follows is passed too. -/
theorem foresees_entryAfterComma (h : Foreseen deeper) :
    (entryAfterComma deeper).Foresees (·.isSome)
      (fun _ c' => c'.rest.head?.map (·.kind) = some (.symbol .rightBrace)) c := by
  refine (Foresees.accept _).bind (N := fun _ y => y.isSome) (fun found c' _ => ?_) ?_
    fun _ _ => .inr
  · refine .ite (fun hfound => ?_) fun hfound => .nothing
    refine .peekKind (.ite (fun _ => .nothing) fun _ => ?_) fun found c' => ?_
    · exact (bounded_entry h).andReturn (fun _ _ => trivial) fun _ c' hbrace =>
        (closed_of_kind hbrace (.inr (.inr rfl))).stops
    · cases found with
      | some entry => exact .inl rfl
      | none =>
          refine .inr fun hbrace => ?_
          rw [peekKind_run, if_pos hbrace]
          rfl
  · intro found y c'
    refine .inr fun hbrace hfound hcomma => ?_
    cases hbrace.symm.trans hcomma

theorem foresees_entries (h : Foreseen deeper) :
    (many (entryAfterComma deeper)).Foresees (fun _ => False)
      (fun _ c' => c'.rest.head?.map (·.kind) = some (.symbol .rightBrace)) c :=
  Foresees.many (fun _ => foresees_entryAfterComma h) (fun _ _ => id) c

theorem fixed_table (h : Foreseen deeper) : (table deeper).Fixed c := by
  refine (Foresees.accept _).bind (N := fun found _ => found = false) (fun found c' _ => ?_) ?_ ?_
  · cases found with
    | true => exact (Foresees.pure _).mono (by simp) fun _ _ _ => trivial
    | false =>
        refine (bounded_entry h).before fun first c' _ => ?_
        exact (foresees_entries h).before fun rest c' _ => (Foresees.expect _ _).map _
  · intro found _ c'
    cases found with
    | true => exact .inr fun _ hfalse => by cases hfalse
    | false => exact .inl rfl
  · intro found _ _
    cases found <;> simp

theorem fixed_quote (h : Foreseen deeper) : (quote deeper).Fixed c :=
  ((h.expr true c).because _).before fun _ _ _ => (Foresees.expect _ _).map _

theorem fixed_value (h : Foreseen deeper) (required : Bool) : (value deeper required).Fixed c := by
  refine foresees_literal?.bind (N := fun found _ => found = none) (fun found c' _ => ?_) ?_ ?_
  · cases found with
    | some e => exact (Foresees.pure e).mono (by simp) fun _ _ _ => trivial
    | none =>
        refine .peekKind ?_ fun _ _ => .inl rfl
        split
        next hkind => exact .advanceOf hkind ((fixed_list h).mono (fun _ => False.elim) fun _ _ => id)
        next hkind => exact .advanceOf hkind ((fixed_table h).mono (fun _ => False.elim) fun _ _ => id)
        next hkind => exact .advanceOf hkind ((fixed_quote h).mono (fun _ => False.elim) fun _ _ => id)
        next hkind =>
          exact .advanceOf hkind ((fixed_function h).mono (fun _ => False.elim) fun _ _ => id)
        next => exact .noMatch _
  · intro found _ c'
    cases found with
    | some e => exact .inr fun _ => trivial
    | none => exact .inl rfl
  · intro found _ _
    cases found <;> simp

/-! ### Expressions -/

theorem seven_le_strength_iff {kind : Kind} : 7 ≤ kind.strength ↔
    kind = .symbol .dot ∨ kind = .symbol .leftParen ∨ kind = .symbol .leftBracket := by
  constructor
  · intro hstrength
    unfold Kind.strength at hstrength
    split at hstrength <;> simp_all
  · rintro (rfl | rfl | rfl) <;> decide

/-- Where a value does not stop, an access to its part follows. -/
theorem exists_of_not_stops (h : ¬c.Stops 7) : ∃ token, c.rest.head? = some token ∧
    (token.kind = .symbol .dot ∨ (token.kind = .symbol .leftParen ∨
      token.kind = .symbol .leftBracket) ∧ c.line = some token.span.line) := by
  simp only [Cursor.Stops, Classical.not_forall] at h
  obtain ⟨token, hhead, hnot⟩ := h
  refine ⟨token, hhead, ?_⟩
  rcases seven_le_strength_iff.1 (Nat.le_of_not_lt fun hlt => hnot (.inl hlt)) with hkind | hkind
  · exact .inl hkind
  · exact .inr ⟨hkind, Decidable.not_not.1 fun hline => hnot (.inr ⟨hkind, hline⟩)⟩

theorem stops_congr {c' : Cursor} {level : Nat} (hline : c'.line = c.line)
    (hhead : c'.rest.head? = c.rest.head?) (h : c.Stops level) : c'.Stops level := by
  rw [Cursor.Stops, hline, hhead]
  exact h

section Accessor

variable {token : Token}

theorem accessor?_member (hhead : c.rest.head? = some token) (hkind : token.kind = .symbol .dot) :
    accessor? deeper c = (advance >>= fun _ => name .memberName >>= fun name =>
      pure (some (Accessor.member name))) c := by
  rw [accessor?, peekKind_run, hhead, Option.map_some, hkind]

theorem accessor?_call (hhead : c.rest.head? = some token) (hkind : token.kind = .symbol .leftParen)
    (hline : c.line = some token.span.line) :
    accessor? deeper c = (advance >>= fun _ => elements? deeper .call >>= fun args =>
      expect (.symbol .rightParen) .callClose >>= fun _ =>
      pure (some (Accessor.call (args.getD [])))) c := by
  rw [accessor?, peekKind_run, hhead, Option.map_some, hkind]
  refine (bind_run (onSameLine_run hhead) _).trans ?_
  rw [if_pos (decide_eq_true hline)]

theorem accessor?_index (hhead : c.rest.head? = some token)
    (hkind : token.kind = .symbol .leftBracket) (hline : c.line = some token.span.line) :
    accessor? deeper c = (advance >>= fun _ => because .indexValue (deeper.expr true) >>= fun index =>
      expect (.symbol .rightBracket) .indexClose >>= fun _ =>
      pure (some (Accessor.index index))) c := by
  rw [accessor?, peekKind_run, hhead, Option.map_some, hkind]
  refine (bind_run (onSameLine_run hhead) _).trans ?_
  rw [if_pos (decide_eq_true hline)]

end Accessor

theorem foresees_accessor? (h : Foreseen deeper) : (accessor? deeper).Foresees (·.isSome)
    (EndsWith (fun _ _ => True) fun c' => c'.Stops 7) c := by
  have hstay : ∀ found c', found.isSome = true ∨ (EndsWith (fun _ _ => True) (fun c' => c'.Stops 7)
      found c' → accessor? deeper c' = .ok (found, c')) := by
    intro found c'
    cases found with
    | some accessor => exact .inl rfl
    | none => exact .inr (accessor?_stops deeper)
  by_cases hstops : c.Stops 7
  · refine Foresees.nothing.congr (fun rest hhead => ?_) hstay
    exact accessor?_stops deeper (stops_congr (c := c) rfl hhead hstops)
  · obtain ⟨token, hhead, hkind | ⟨hkind | hkind, hline⟩⟩ := exists_of_not_stops hstops
    · refine .congr ?_ (fun rest hrest => accessor?_member (hrest.trans hhead) hkind) hstay
      refine (Foresees.advance hhead).andThen fun _ _ _ => ?_
      exact (Foresees.name _).andReturn (fun _ => False.elim) fun _ _ _ => trivial
    · refine .congr ?_ (fun rest hrest => accessor?_call (hrest.trans hhead) hkind hline) hstay
      refine (Foresees.advance hhead).andThen fun _ _ _ => (foresees_elements? h _).before ?_
      intro args c' _
      exact (Foresees.expect _ _).andReturn (fun _ _ => trivial) fun _ _ _ => trivial
    · refine .congr ?_ (fun rest hrest => accessor?_index (hrest.trans hhead) hkind hline) hstay
      refine (Foresees.advance hhead).andThen fun _ _ _ => ((h.expr true _).because _).before ?_
      intro index c' _
      exact (Foresees.expect _ _).andReturn (fun _ _ => trivial) fun _ _ _ => trivial

theorem bounded_access (h : Foreseen deeper) (required : Bool) :
    (access deeper required).Bounded c := by
  refine (fixed_value h required).andThen fun target c' _ => ?_
  refine (Foresees.many (fun _ => foresees_accessor? h) (fun found c' hstops => ?_) c').andReturn
    (fun _ => id) fun _ _ hstops => hstops
  cases found with
  | some accessor => trivial
  | none => exact hstops.mono (by decide)

theorem bounded_primary (h : Foreseen deeper) (required : Bool) :
    (primary deeper required).Bounded c := by
  refine (foresees_control? h).bind (N := fun found _ => found = none) (fun found c' _ => ?_) ?_ ?_
  · cases found with
    | some control => exact (Foresees.pure _).mono (by simp) fun _ _ _ => trivial
    | none => exact (bounded_access h required).mono (fun _ _ => trivial) fun _ _ => id
  · intro found _ c'
    cases found with
    | some control => exact .inr id
    | none => exact .inl rfl
  · intro found _ _
    cases found <;> simp

theorem bounded_unary (h : Foreseen deeper) (required : Bool) (c : Cursor) :
    (unary deeper required).Bounded c := by
  refine .peekKind ?_ fun _ _ => .inl trivial
  split
  next op hop =>
    obtain ⟨kind, hkind, -⟩ := Option.bind_eq_some_iff.1 hop
    exact .advanceOf hkind (((h.operand _).because _).map _)
  next => exact bounded_primary h required

theorem foresees_operation {ω : Type} {operator? : Kind → Option ω} {operand : Bool → Rule Expr}
    {complaint : Complaint} {strength : Nat}
    (hoperator : ∀ {kind op}, operator? kind = some op → kind.strength = strength)
    (hpositive : 0 < strength) (hstrength : strength < 7)
    (hoperand : ∀ required c, (operand required).Bounded c) (c : Cursor) :
    (operation operator? operand complaint).Foresees (·.isSome) (fun _ c' => c'.Stops 1) c := by
  refine .peekKind ?_ fun found c' => ?_
  · split
    next op hop =>
      obtain ⟨kind, hkind, -⟩ := Option.bind_eq_some_iff.1 hop
      exact .advanceOf hkind (((hoperand true _).because _).map _)
    next => exact .nothing
  · cases found with
    | some pair => exact .inl rfl
    | none =>
        exact .inr fun hstops => operation_stops hoperator hstrength (hstops.mono hpositive)

theorem bounded_binary {ω : Type} {operator? : Kind → Option ω} {operand : Bool → Rule Expr}
    {complaint : Complaint} {node : Expr → List (ω × Expr) → Expr} {strength : Nat}
    (hoperator : ∀ {kind op}, operator? kind = some op → kind.strength = strength)
    (hpositive : 0 < strength) (hstrength : strength < 7)
    (hoperand : ∀ required c, (operand required).Bounded c) (required : Bool) (c : Cursor) :
    (binary operator? operand complaint node required).Bounded c := by
  refine (hoperand required c).bind (N := fun _ _ => False) (fun first c' _ => ?_)
    (fun _ _ _ => .inr id) fun _ _ _ => .inl trivial
  have hitem : ∀ c, (operation operator? operand complaint).Foresees (·.isSome)
      (fun _ c' => c'.Stops 1) c := foresees_operation hoperator hpositive hstrength hoperand
  exact (Foresees.many hitem (fun _ _ => id) c').andReturn (fun _ => id) fun _ _ => id

theorem bounded_logical {keyword : Keyword} {operand : Bool → Rule Expr} {complaint : Complaint}
    {node : Expr → List Expr → Expr} (hkeyword : 1 ≤ (Kind.keyword keyword).strength)
    (hoperator : (Kind.keyword keyword).strength < 7)
    (hoperand : ∀ required c, (operand required).Bounded c) (required : Bool) (c : Cursor) :
    (logical keyword operand complaint node required).Bounded c := by
  refine (hoperand required c).bind (N := fun _ _ => False) (fun first c' _ => ?_)
    (fun _ _ _ => .inr id) fun _ _ _ => .inl trivial
  refine (Foresees.many (E := fun c' => c'.Stops 1)
    (fun c => .after fun c => (hoperand true c).because _) (fun found c' hstops => ?_) c').andReturn
    (fun _ => id) fun _ _ => id
  cases found with
  | some e => exact hstops
  | none => exact hstops.ne hkeyword hoperator

section Levels

variable (h : Foreseen deeper) (required : Bool) (c : Cursor)

include h

theorem bounded_mul : (mul deeper required).Bounded c :=
  bounded_binary strength_of_mulOp? (by decide) (by decide) (bounded_unary h) required c

theorem bounded_add : (add deeper required).Bounded c :=
  bounded_binary strength_of_addOp? (by decide) (by decide) (bounded_mul h) required c

theorem bounded_compare : (compare deeper required).Bounded c :=
  bounded_binary strength_of_compareOp? (by decide) (by decide) (bounded_add h) required c

theorem bounded_and : (and deeper required).Bounded c :=
  bounded_logical (by decide) (by decide) (bounded_compare h) required c

theorem bounded_or : (or deeper required).Bounded c :=
  bounded_logical (by decide) (by decide) (bounded_and h) required c

end Levels

theorem bounded_global (h : Foreseen deeper) : (global deeper).Bounded c := by
  refine (Foresees.name _).andThen fun name c' _ => (Foresees.expect _ _).andThen fun _ c' _ => ?_
  exact ((h.expr true c').because _).map _

theorem foresees_update? (h : Foreseen deeper) :
    (update? deeper).Foresees (·.isSome) (fun _ c' => c'.Stops 1) c := by
  have hvalue : ∀ (f : Expr → Update) c, (because .assignValue (deeper.expr true) >>= fun value =>
      pure (some (f value))).Foresees (fun _ => False) (fun _ c' => c'.Stops 1) c :=
    fun f c => ((h.expr true c).because _).map _
  have hdone : ∀ (update : Update) c, (pure (some update) : Rule (Option Update)).Foresees
      (fun _ => False) (fun _ c' => c'.Stops 1) c :=
    fun update c => (Foresees.pure _).mono (fun _ => False.elim) fun _ _ _ => trivial
  refine .peekKind ?_ fun found c' => ?_
  · split
    next hkind => exact .advanceOf hkind (hvalue _ _)
    next hkind => exact .advanceOf hkind (hvalue _ _)
    next hkind => exact .advanceOf hkind (hvalue _ _)
    next hkind => exact .advanceOf hkind (hdone _ _)
    next hkind => exact .advanceOf hkind (hdone _ _)
    next => exact .nothing
  · cases found with
    | some update => exact .inl rfl
    | none => exact .inr update?_stops

/-- The operators that make the expression before them a target. -/
def updates : Kind → Bool
  | .symbol .assign | .symbol .addAssign | .symbol .subAssign | .symbol .increment
  | .symbol .decrement => true
  | _ => false

theorem update?_other (h : ∀ kind, c.rest.head?.map (·.kind) = some kind → updates kind = false) :
    update? deeper c = .ok (none, c) := by
  rw [update?, peekKind_run]
  refine congrFun (g := (pure none : Rule (Option Update))) ?_ c
  split
  iterate 5 next hkind => exact absurd (h _ hkind) (by decide)
  rfl

theorem update?_ne_none {kind : Kind} {c' : Cursor} (hkind : c.rest.head?.map (·.kind) = some kind)
    (hupdates : updates kind = true) : update? deeper c ≠ .ok (none, c') := by
  intro h
  rw [update?, peekKind_run, hkind] at h
  unfold updates at hupdates
  split at hupdates
  · exact bind_some_ne_none (because .assignValue (deeper.expr true)) Update.set c.advance h
  · exact bind_some_ne_none (because .assignValue (deeper.expr true)) Update.addTo c.advance h
  · exact bind_some_ne_none (because .assignValue (deeper.expr true)) Update.subFrom c.advance h
  · cases h
  · cases h
  · cases hupdates

/-- Where one update is found, any other tokens after its operator make one too. -/
theorem update?_some {update : Update} {c' d d' : Cursor} {found : Option Update}
    (h : update? deeper c = .ok (some update, c')) (hhead : d.rest.head? = c.rest.head?)
    (hfound : update? deeper d = .ok (found, d')) : found ≠ none := by
  rintro rfl
  cases hkind : c.rest.head?.map (·.kind) with
  | none =>
      cases h.symm.trans (update?_other (by simp [hkind]))
  | some kind =>
      cases hupdates : updates kind with
      | true => exact update?_ne_none (by rw [hhead, hkind]) hupdates hfound
      | false =>
          refine absurd (h.symm.trans (update?_other fun kind' hkind' => ?_)) (by simp)
          cases hkind.symm.trans hkind'
          exact hupdates

/-- An expression, or the assignment that an update after it makes of it. That it is no target is found
out only now, but is said of the place where it began. -/
def assigned (span : Option Span) (left : Expr) : Option Update → Rule Expr
  | none => pure left
  | some update => match target? left with
    | some target => pure (.assign target update)
    | none => throw ((Rejection.noMatch span).final.because .assignTarget)

theorem expr_eq (deeper : Nested) (required : Bool) :
    expr deeper required = (accept (.keyword .global) >>= fun found =>
      if found then global deeper
      else control? deeper >>= fun found => match found with
        | some control => pure (.control control)
        | none => peekSpan >>= fun span => or deeper required >>= fun left =>
          update? deeper >>= assigned span left) :=
  rfl

section Assigned

variable {span : Option Span} {left e : Expr} {found : Option Update} {c' : Cursor}
  {rejection : Rejection}

theorem settles_assigned {E : Expr → Cursor → Prop} :
    (assigned span left found).Settles (fun _ => False) E c := by
  intro e c' hrun
  cases found with
  | none =>
      cases hrun
      exact ⟨[], .nil c, False.elim, fun rest _ => rfl⟩
  | some update =>
      cases htarget : target? left with
      | some target =>
          simp only [assigned, htarget] at hrun ⊢
          cases hrun
          exact ⟨[], .nil c, False.elim, fun rest _ => rfl⟩
      | none =>
          simp only [assigned, htarget] at hrun
          cases hrun

theorem target?_of_assigned (h : assigned span left found c = .error rejection) :
    found ≠ none ∧ target? left = none ∧
      rejection = (Rejection.noMatch span).final.because .assignTarget := by
  cases found with
  | none => cases h
  | some update =>
      cases htarget : target? left with
      | some target =>
          simp only [assigned, htarget] at h
          cases h
      | none =>
          simp only [assigned, htarget] at h
          cases h
          exact ⟨by simp, rfl, rfl⟩

theorem assigned_error (hfound : found ≠ none) (htarget : target? left = none) :
    assigned span left found c = .error ((Rejection.noMatch span).final.because .assignTarget) := by
  obtain ⟨update, rfl⟩ := Option.ne_none_iff_exists'.1 hfound
  simp only [assigned, htarget]
  rfl

end Assigned

theorem bounded_assignment (h : Foreseen deeper) (required : Bool) (span : Option Span) :
    (or deeper required >>= fun left => update? deeper >>= assigned span left).Bounded c where
  matched := by
    refine (bounded_or h required c).matched.bind (N := fun _ _ => False) (fun left c' _ => ?_)
      (fun _ _ _ => .inr id) fun _ _ _ => .inl trivial
    exact (foresees_update? h).matched.bind (N := fun _ _ => False)
      (fun _ _ _ => settles_assigned) (fun _ _ _ => .inr id) fun _ _ => False.elim
  failed := by
    intro rejection hrun hspan
    cases hor : or deeper required c with
    | error found =>
        rw [bind_error hor] at hrun
        cases hrun
        obtain ⟨hsome, hwants, hmore⟩ := (bounded_or h required c).failed _ hor hspan
        refine ⟨hsome, hwants, fun more => ?_⟩
        obtain ⟨rejection', hor'⟩ := hmore more
        exact ⟨rejection', bind_error hor' _⟩
    | ok found =>
        obtain ⟨left, c₁⟩ := found
        obtain ⟨used, hpasses, hused, hrest⟩ := (bounded_or h required c).matched left c₁ hor
        rw [bind_run hor] at hrun
        -- once the operator is there, the expression before it is read in the same way
        have hmore : c₁.rest ≠ [] → ∀ more, (or deeper required >>= fun left =>
            update? deeper >>= assigned span left) ⟨c.line, c.rest ++ more⟩ =
            (update? deeper >>= assigned span left) ⟨c₁.line, c₁.rest ++ more⟩ := by
          intro hsome more
          have hor' := hrest (c₁.rest ++ more) (.inl (List.head?_append_of_ne_nil _ hsome))
          rw [hpasses.rest, List.append_assoc, bind_run hor']
        have hnonempty : c.rest ≠ [] := by simp [hpasses.rest, hused trivial]
        cases hupdate : update? deeper c₁ with
        | error found =>
            rw [bind_error hupdate] at hrun
            cases hrun
            obtain ⟨hsome, hwants, hfails⟩ := (foresees_update? h).failed _ hupdate hspan
            refine ⟨hnonempty, hwants, fun more => ?_⟩
            obtain ⟨rejection', hupdate'⟩ := hfails more
            exact ⟨rejection', by rw [hmore hsome, bind_error hupdate']⟩
        | ok found =>
            obtain ⟨update, c₂⟩ := found
            rw [bind_run hupdate] at hrun
            obtain ⟨hfound, htarget, rfl⟩ := target?_of_assigned hrun
            obtain ⟨update, rfl⟩ := Option.ne_none_iff_exists'.1 hfound
            have hsome : c₁.rest ≠ [] := by
              obtain ⟨used', hpasses', hused', -⟩ := (foresees_update? h).matched _ _ hupdate
              simp [hpasses'.rest, hused' rfl]
            refine ⟨hnonempty, rfl, fun more => ?_⟩
            rw [hmore hsome]
            cases hupdate' : update? deeper ⟨c₁.line, c₁.rest ++ more⟩ with
            | error rejection' => exact ⟨rejection', bind_error hupdate' _⟩
            | ok found =>
                obtain ⟨found, c₃⟩ := found
                have hfound' := update?_some hupdate (List.head?_append_of_ne_nil _ hsome) hupdate'
                exact ⟨_, (bind_run hupdate' _).trans (assigned_error hfound' htarget)⟩

theorem bounded_expr (h : Foreseen deeper) (required : Bool) (c : Cursor) :
    (expr deeper required).Bounded c := by
  rw [expr_eq]
  refine (Foresees.accept _).before fun found c' _ => .ite (fun _ => bounded_global h) fun _ => ?_
  refine (foresees_control? h).bind (N := fun found _ => found = none) (fun found c'' _ => ?_) ?_ ?_
  · cases found with
    | some control => exact (Foresees.pure _).mono (by simp) fun _ _ _ => trivial
    | none =>
        refine .peekSpan ?_ fun _ _ => .inl rfl
        exact (bounded_assignment h required _).mono (fun _ _ => trivial) fun _ _ => id
  · intro found _ c'
    cases found with
    | some control => exact .inr id
    | none => exact .inl rfl
  · intro found _ _
    cases found <;> simp

/-- At every number of levels the nested rules look one token ahead. -/
theorem foreseen_nested (levels : Nat) : Foreseen (nested levels) := by
  induction levels with
  | zero =>
      have htooDeep : ∀ construct c, (tooDeep construct).Bounded c :=
        fun construct c => .of_fails fun c' => ⟨_, rfl, rfl, fun _ => rfl⟩
      refine ⟨fun _ => htooDeep _, htooDeep _, ?_⟩
      intro c rejection hrun hcommitted
      cases hrun
      cases hcommitted
  | succ levels ih =>
      refine ⟨bounded_expr ih, bounded_unary ih true, ?_⟩
      intro c rejection hrun hcommitted rest hhead
      have habsent : Absent ⟨c.line, rest⟩ := by
        rcases hhead with hhead | habsent
        · have hhere := absent_of_expr hrun hcommitted
          rw [Absent, ← hhead] at hhere
          exact hhere
        · exact habsent
      exact ⟨_, expr_absent habsent, rfl⟩

end Grammar

/-- What a program reads, and where it fails, is settled by what was read and one token more. -/
theorem foresees_program (c : Cursor) : Rule.program.Foresees (fun _ => False)
    (fun _ c' => c'.Stops 1 ∧ Grammar.Absent c') c :=
  Grammar.foresees_statements (Grammar.foreseen_nested Grammar.maxDepth)

/-- Where the program ends before the tokens do, more tokens change nothing. -/
theorem program_append {tokens rest : List Token} {token : Token} {program : Block}
    {line : Option Nat} (h : Rule.program (.start tokens) = .ok (program, ⟨line, token :: rest⟩))
    (more : List Token) : Rule.program (.start (tokens ++ more)) =
      .ok (program, ⟨line, token :: (rest ++ more)⟩) := by
  obtain ⟨used, hpasses, -, hrest⟩ := (foresees_program (.start tokens)).matched _ _ h
  have htokens : tokens = used ++ token :: rest := hpasses.rest
  have hrun := hrest (token :: (rest ++ more)) (.inl rfl)
  rw [htokens, List.append_assoc]
  exact hrun

/-- An error that is not at the end of the input stays an error. -/
theorem parse_append_error {tokens : List Token} {e : SyntaxError} (h : parse tokens = .error e)
    (hcomplete : e.isIncomplete = false) (more : List Token) :
    ∃ e', parse (tokens ++ more) = .error e' := by
  unfold parse at h ⊢
  cases hrun : Rule.program (.start tokens) with
  | error rejection =>
      simp only [hrun] at h
      cases h
      have hspan : rejection.span ≠ none := by
        intro hnone
        rw [SyntaxError.ofRejection, hnone] at hcomplete
        cases hcomplete
      obtain ⟨-, -, hmore⟩ := (foresees_program (.start tokens)).failed _ hrun hspan
      obtain ⟨rejection', hrun'⟩ := hmore more
      have hrun' : Rule.program (.start (tokens ++ more)) = .error rejection' := hrun'
      exact ⟨_, by rw [hrun']⟩
  | ok found =>
      obtain ⟨program, line, rest⟩ := found
      cases rest with
      | nil =>
          simp only [hrun] at h
          cases h
      | cons token rest => exact ⟨_, by rw [program_append hrun more]⟩

/-- A complete error is permanent: no further tokens mend it. So each beginning of a program is a
program itself or reported as incomplete. -/
theorem complete_error_permanent (tokens more : List Token) :
    (∀ e, parse tokens = .error e → e.isIncomplete = false →
      ∃ e', parse (tokens ++ more) = .error e') ∧
    ((∃ program, parse (tokens ++ more) = .ok program) →
      (∃ program, parse tokens = .ok program) ∨
        ∃ complaint, parse tokens = .error (.incomplete complaint)) := by
  refine ⟨fun e h hcomplete => parse_append_error h hcomplete more, ?_⟩
  rintro ⟨program, hwhole⟩
  cases hbeginning : parse tokens with
  | ok program => exact .inl ⟨program, rfl⟩
  | error e =>
      cases hcomplete : e.isIncomplete with
      | true =>
          cases e with
          | incomplete complaint => exact .inr ⟨complaint, rfl⟩
          | _ => cases hcomplete
      | false =>
          obtain ⟨e', herror⟩ := parse_append_error hbeginning hcomplete more
          cases hwhole.symm.trans herror

/-- A count in brackets whose target is none: the brackets that are still open do not matter. -/
def badTargetTokens : List Token :=
  wordsOn 0 [(.identifier, some "f"), (.symbol .leftParen, none), (.number, some "1"),
    (.symbol .increment, none)]

/-- A table in an assignment, as far as the colon of its second entry. -/
def openTableTokens : List Token :=
  wordsOn 0 [(.identifier, some "t"), (.symbol .assign, none), (.symbol .leftBrace, none),
    (.identifier, some "a"), (.symbol .colon, none), (.keyword .null, none), (.symbol .comma, none),
    (.identifier, some "b"), (.symbol .colon, none)]

theorem complete_error_permanent_tokens :
    (∃ e, parse (badTargetTokens ++ wordsOn 1 [(.symbol .rightParen, none)]) = .error e) ∧
    ((∃ program, parse openTableTokens = .ok program) ∨
      ∃ complaint, parse openTableTokens = .error (.incomplete complaint)) := by
  have hbad : parse badTargetTokens =
      .error (.invalid (some .assignTarget) ⟨0, 0, 0, 0⟩) := rfl
  have hwhole : ∃ program, parse (openTableTokens ++ wordsOn 1 [(.string, some "x"),
      (.symbol .rightBrace, none)]) = .ok program := ⟨_, rfl⟩
  exact ⟨(complete_error_permanent badTargetTokens _).1 _ hbad rfl,
    (complete_error_permanent openTableTokens _).2 hwhole⟩

/-! ### What a program was read from -/

/-- The tokens that a program was read from are that program. -/
theorem parse_consumed {tokens : List Token} {program : Block} {c : Cursor}
    (h : Rule.program (.start tokens) = .ok (program, c)) :
    ∃ used, tokens = used ++ c.rest ∧ parse used = .ok program := by
  obtain ⟨used, hpasses, -, hrest⟩ := (foresees_program (.start tokens)).matched _ _ h
  have hend : Grammar.Closed ⟨c.line, []⟩ := fun kind hkind => by cases hkind
  have hrun := hrest [] (.inr ⟨hend.stops, hend.absent⟩)
  rw [List.append_nil] at hrun
  exact ⟨used, hpasses.rest, parse_eq_ok_iff.2 ⟨c.line, hrun⟩⟩

/-- A token is unexpected only where a program ends before it. -/
theorem program_of_unexpectedToken {tokens : List Token} {token : Token}
    (h : parse tokens = .error (.unexpectedToken token)) :
    ∃ program line rest, Rule.program (.start tokens) = .ok (program, ⟨line, token :: rest⟩) := by
  unfold parse at h
  cases hrun : Rule.program (.start tokens) with
  | error rejection =>
      simp only [hrun, SyntaxError.ofRejection] at h
      split at h
      · split at h <;> cases h
      · cases h
  | ok found =>
      obtain ⟨program, line, rest⟩ := found
      cases rest with
      | nil =>
          simp only [hrun] at h
          cases h
      | cons next rest =>
          simp only [hrun] at h
          cases h
          exact ⟨program, line, rest, rfl⟩

/-- A program depends only on the tokens that it was read from: these alone are accepted as the same
program. So the tokens before an unexpected one are a program. -/
theorem parse_take_consumed (tokens : List Token) :
    (∀ program c, Rule.program (.start tokens) = .ok (program, c) →
      tokens.drop (tokens.length - c.rest.length) = c.rest ∧
        parse (tokens.take (tokens.length - c.rest.length)) = .ok program) ∧
    ∀ token, parse tokens = .error (.unexpectedToken token) →
      ∃ before rest program, tokens = before ++ token :: rest ∧ parse before = .ok program ∧
        ∃ line, Rule.program (.start tokens) = .ok (program, ⟨line, token :: rest⟩) := by
  refine ⟨fun program c h => ?_, fun token h => ?_⟩
  · obtain ⟨used, rfl, hparse⟩ := parse_consumed h
    rw [List.length_append, Nat.add_sub_cancel]
    exact ⟨List.drop_left, List.take_left ▸ hparse⟩
  · obtain ⟨program, line, rest, hrun⟩ := program_of_unexpectedToken h
    obtain ⟨before, htokens, hparse⟩ := parse_consumed hrun
    exact ⟨before, rest, program, htokens, hparse, line, hrun⟩

/-- An assignment and then a bracket that closes nothing. -/
def strayBracketTokens : List Token :=
  wordsOn 0 [(.identifier, some "a"), (.symbol .assign, none), (.keyword .null, none),
    (.symbol .rightParen, none), (.identifier, some "b")]

theorem parse_take_consumed_tokens :
    (∃ program, parse (strayBracketTokens.take 3) = .ok program) ∧
      ∃ before rest program, strayBracketTokens =
        before ++ (Token.mk (.symbol .rightParen) none ⟨0, 0, 0, 0⟩) :: rest ∧
        parse before = .ok program := by
  have hprogram : ∃ program c, Rule.program (.start strayBracketTokens) = .ok (program, c) ∧
      c.rest.length = 2 := ⟨_, _, rfl, rfl⟩
  have hstray : ∃ token, parse strayBracketTokens = .error (.unexpectedToken token) ∧
      token = Token.mk (.symbol .rightParen) none ⟨0, 0, 0, 0⟩ := ⟨_, rfl, rfl⟩
  obtain ⟨program, c, hrun, hlength⟩ := hprogram
  obtain ⟨token, herror, rfl⟩ := hstray
  obtain ⟨-, hparse⟩ := (parse_take_consumed strayBracketTokens).1 program c hrun
  obtain ⟨before, rest, program', htokens, hbefore, -⟩ :=
    (parse_take_consumed strayBracketTokens).2 _ herror
  rw [hlength] at hparse
  exact ⟨⟨program, hparse⟩, before, rest, program', htokens, hbefore⟩

end TableScript
