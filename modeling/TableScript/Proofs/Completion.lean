import TableScript.Proofs.Resumption

/-!
Incomplete input can be completed. Where the grammar fails at the end of the input, the constructs that
are open can be closed: an operand that is missing may be `null`, and a block or a list may be empty.
-/

namespace TableScript

open Rule

/-- A rule whose last token is fixed, and what becomes of it at the end of the input. -/
abbrev Rule.Closable {α : Type} (rule : Rule α) (c : Cursor) : Prop :=
  rule.Completes (fun _ => True) (fun _ _ => True) (fun _ => True) c

/-- A rule for expressions, and what becomes of it at the end of the input. -/
abbrev Rule.Extensible {α : Type} (rule : Rule α) (c : Cursor) : Prop :=
  rule.Completes (fun _ => True) (fun _ d => d.Stops 1) (fun _ => True) c

namespace Grammar

variable {deeper : Nested} {c : Cursor} {α β : Type} {G : β → Prop} {E : β → Cursor → Prop}

/-- Levels of nesting are left. -/
def Roomy (deeper : Nested) : Prop :=
  ∃ levels, deeper = nested (levels + 1)

/-- No level of nesting is left. -/
def Full (deeper : Nested) : Prop :=
  deeper = nested 0

/-- What stands one level deeper can be completed, and if it resumes then there is such a level. -/
structure Completing (deeper : Nested) : Prop where
  foreseen : Foreseen deeper
  room : Roomy deeper ∨ Full deeper
  expr : ∀ required c, (deeper.expr required).Completes (fun _ => Roomy deeper)
    (fun _ d => d.Stops 1) (fun _ => True) c
  operand : ∀ c, deeper.operand.Extensible c

/-! ### What can be added -/

section Null

variable {line : Option Nat} {rest : List Token} {required : Bool}

theorem plain_null : Plain ⟨line, .ofKind (.keyword .null) :: rest⟩ := by
  intro kind hkind
  cases hkind
  rfl

theorem unary_null (hstops : Cursor.Stops ⟨some 0, rest⟩ 1) :
    unary deeper required ⟨line, .ofKind (.keyword .null) :: rest⟩ = .ok (.null, ⟨some 0, rest⟩) := by
  have hvalue : value deeper required ⟨line, .ofKind (.keyword .null) :: rest⟩ =
      .ok (.null, ⟨some 0, rest⟩) := rfl
  exact unary_of_access plain_null rfl (access_of_value hvalue (hstops.mono (by decide)))

theorem expr_null (hstops : Cursor.Stops ⟨some 0, rest⟩ 1) :
    expr deeper required ⟨line, .ofKind (.keyword .null) :: rest⟩ = .ok (.null, ⟨some 0, rest⟩) :=
  expr_of_unary plain_null (unary_null hstops) hstops

theorem begins_unary : (unary deeper required).Begins (fun _ => True) (fun _ d => d.Stops 1)
    fun _ => True :=
  fun _ => ⟨[_], .null, some 0, trivial, fun _ hstops => ⟨unary_null hstops, fun _ => trivial⟩⟩

theorem begins_expr : (expr deeper required).Begins (fun _ => True) (fun _ d => d.Stops 1)
    fun _ => True :=
  fun _ => ⟨[_], .null, some 0, trivial, fun _ hstops => ⟨expr_null hstops, fun _ => trivial⟩⟩

end Null

theorem Roomy.begins_expr (h : Roomy deeper) (required : Bool) :
    (deeper.expr required).Begins (fun _ => Roomy deeper) (fun _ d => d.Stops 1) fun _ => True := by
  obtain ⟨levels, rfl⟩ := h
  exact fun _ => ⟨[_], .null, some 0, ⟨levels, rfl⟩, fun _ hstops =>
    ⟨expr_null hstops, fun _ => trivial⟩⟩

theorem closed_ofKind {kind : Kind} (hkind : kind = .symbol .rightParen ∨
      kind = .symbol .rightBracket ∨ kind = .symbol .rightBrace) (line : Option Nat)
    (rest : List Token) : Closed ⟨line, .ofKind kind :: rest⟩ :=
  closed_of_kind rfl hkind

/-! ### An expression and what follows it -/

section Value

variable {complaint : Complaint} {next : Expr → Rule β}

theorem begins_exprThen (hroomy : Roomy deeper) (hnext : ∀ e, (next e).Begins G E fun d => d.Stops 1) :
    (because complaint (deeper.expr true) >>= next).Begins G E fun _ => True :=
  ((hroomy.begins_expr true).because complaint).bind fun e _ => hnext e

theorem heads_expr (h : Completing deeper) : (because complaint (deeper.expr true)).Heads []
    (fun _ => Roomy deeper) (fun _ d => d.Stops 1) fun _ => True := by
  refine h.room.imp (fun hroomy => (hroomy.begins_expr true).because complaint) fun hfull line => ?_
  rw [hfull]
  exact ⟨absurd rfl, .expression, rfl⟩

theorem heads_exprThen (h : Completing deeper)
    (hnext : Roomy deeper → ∀ e, (next e).Begins G E fun d => d.Stops 1) :
    (because complaint (deeper.expr true) >>= next).Heads [] G E fun _ => True :=
  (heads_expr h).bind fun e hroomy => hnext hroomy e

theorem completes_exprThen (h : Completing deeper)
    (hnext : Roomy deeper → ∀ e c', (next e).Completes G E (fun d => d.Stops 1) c')
    (hbegins : Roomy deeper → ∀ e, (next e).Begins G E fun d => d.Stops 1) :
    (because complaint (deeper.expr true) >>= next).Completes G E (fun _ => True) c := by
  refine .bind ((h.foreseen.expr true c).because complaint).matched
    ((h.expr true c).because complaint) (fun e c' hrun => ?_) fun e hroomy => hbegins hroomy e
  rcases h.room with hroomy | hfull
  · exact hnext hroomy e c'
  · rw [hfull] at hrun
    cases hrun

end Value

/-! ### Blocks and control flow -/

theorem Roomy.statements_absent (h : Roomy deeper) {d : Cursor} (habsent : Absent d) :
    statements deeper d = .ok ([], d) := by
  obtain ⟨levels, rfl⟩ := h
  have hnone : optional ((nested (levels + 1)).expr false) d = .ok (none, d) :=
    optional_absent (expr_absent habsent) rfl
  exact (Repeats.nil hnone).many

theorem completes_statements (h : Completing deeper) {Opens : Cursor → Prop} :
    (statements deeper).Completes (fun _ => True) (fun _ d => d.Stops 1 ∧ Absent d) Opens c := by
  rcases h.room with ⟨levels, rfl⟩ | hfull
  · have hnone : ∀ d, Absent d → optional ((nested (levels + 1)).expr false) d = .ok (none, d) :=
      fun d habsent => optional_absent (expr_absent habsent) rfl
    refine Completes.many (fun c => (h.foreseen.expr false c).optional h.foreseen.absent)
      (fun c => (h.expr false c).optional) (fun found d hends => ?_) (fun d hends => hnone d hends.2)
      (fun line => ⟨_, hnone _ fun kind hkind => by cases hkind⟩) c
    cases found with
    | some e => exact hends.1
    | none => exact hends.2
  · rw [hfull]
    have hitem : optional ((nested 0).expr false) c = .error ((Rejection.noMatch
        (c.rest.head?.map (·.span))).final.because (.nestedTooDeeply .expression)) := rfl
    exact .of_tooDeep (manyWithin_error hitem c.rest)

section Block

variable {construct : Construct}

theorem begins_body (hroomy : Roomy deeper) : (statements deeper >>= fun body =>
      expect (.symbol .rightBrace) (.blockClose construct) >>= fun _ => pure body).Begins
      (fun _ => True) (fun _ _ => True) fun _ => True := by
  intro line
  refine ⟨[.ofKind (.symbol .rightBrace)], [], some 0, trivial, fun rest _ => ⟨?_, fun _ => trivial⟩⟩
  have hclosed := closed_ofKind (.inr (.inr rfl)) line rest
  exact (bind_run (hroomy.statements_absent hclosed.absent) _).trans
    (bind_run (expect_ofKind line rest) _)

theorem heads_body (h : Completing deeper) : (statements deeper >>= fun body =>
      expect (.symbol .rightBrace) (.blockClose construct) >>= fun _ => pure body).Heads []
      (fun _ => True) (fun _ _ => True) fun _ => True := by
  refine h.room.imp begins_body fun hfull line => ?_
  rw [hfull]
  exact ⟨absurd rfl, .expression, rfl⟩

theorem completes_body (h : Completing deeper) : (statements deeper >>= fun body =>
      expect (.symbol .rightBrace) (.blockClose construct) >>= fun _ => pure body).Closable c := by
  have hends : ∀ d, NextIs (.symbol .rightBrace) d → d.Stops 1 ∧ Absent d := by
    intro d hnext
    have hclosed : Closed d := closed_of_kind hnext (.inr (.inr rfl))
    exact ⟨hclosed.stops, hclosed.absent⟩
  refine .bind (foresees_statements h.foreseen).matched (completes_statements h) (fun body c' _ => ?_)
    fun body _ => ?_
  · exact (Completes.expect.map _).opens hends
  · exact .step expect_ofKind (.pure trivial) fun _ _ => hends _ rfl

theorem begins_block (hroomy : Roomy deeper) : (block deeper construct).Begins (fun _ => True)
    (fun _ _ => True) (NextIs (.symbol .leftBrace)) :=
  (begins_body hroomy).step expect_ofKind fun _ _ => rfl

theorem heads_block (h : Completing deeper) : (block deeper construct).Heads
    [.ofKind (.symbol .leftBrace)] (fun _ => True) (fun _ _ => True)
    (NextIs (.symbol .leftBrace)) :=
  (heads_body h).step expect_ofKind fun _ _ => rfl

theorem completes_block (h : Completing deeper) : (block deeper construct).Completes (fun _ => True)
    (fun _ _ => True) (NextIs (.symbol .leftBrace)) c :=
  .expect_bind (heads_block h) fun _ => completes_body h

end Block

theorem stops_of_nextIs {kind : Kind} (hkind : kind.strength < 1) {d : Cursor} (h : NextIs kind d) :
    d.Stops 1 := by
  intro token htoken
  left
  cases (congrArg (Option.map (·.kind)) (Option.mem_def.1 htoken)).symm.trans h
  exact hkind

/-- A block at the end of a construct, behind an expression. -/
theorem begins_lastBlock {construct : Construct} (hroomy : Roomy deeper) (f : Block → β) :
    (block deeper construct >>= fun body => pure (f body)).Begins (fun _ => True) (fun _ _ => True)
      (NextIs (.symbol .leftBrace)) :=
  (begins_block hroomy).bind fun _ _ => .pure trivial

theorem heads_guarded {complaint : Complaint} {construct : Construct} (h : Completing deeper)
    (f : Expr → Block → β) :
    (because complaint (deeper.expr true) >>= fun e => block deeper construct >>= fun body =>
      pure (f e body)).Heads [] (fun _ => True) (fun _ _ => True) fun _ => True :=
  heads_exprThen h fun hroomy e => (begins_lastBlock hroomy _).mono fun _ =>
    stops_of_nextIs (by decide)

theorem completes_guarded {complaint : Complaint} {construct : Construct} (h : Completing deeper)
    (f : Expr → Block → β) :
    (because complaint (deeper.expr true) >>= fun e => block deeper construct >>= fun body =>
      pure (f e body)).Closable c := by
  refine completes_exprThen h (fun _ e c' => ?_) fun hroomy e => ?_
  · exact ((completes_block h).map _).opens fun _ => stops_of_nextIs (by decide)
  · exact (begins_lastBlock hroomy _).mono fun _ => stops_of_nextIs (by decide)

theorem completes_cond (h : Completing deeper) : (cond deeper).Extensible c := by
  have hstops : ∀ {d : Cursor} {keyword : Keyword}, (Kind.keyword keyword).strength = 1 →
      d.Stops 1 → ¬NextIs (.keyword keyword) d :=
    fun hkeyword hstops => hstops.ne (Nat.le_of_eq hkeyword.symm) (by rw [hkeyword]; decide)
  have hbranch : ∀ c, (branch deeper "elif").Closable c := fun c => completes_guarded h _
  refine .bind (fixed_branch h.foreseen _).matched (completes_guarded h _) (fun first c' _ => ?_)
    fun first _ => ?_
  · refine .bind (foresees_elifs h.foreseen).matched (.many_after (fun _ => fixed_branch h.foreseen _)
      hbranch (fun _ _ _ => trivial) (fun _ => hstops rfl) c') (fun rest c'' _ => ?_) fun rest _ => ?_
    · refine (Completes.after (fun _ => fixed_block h.foreseen _) fun _ =>
        (completes_block h).anywhere).andReturn (fun _ _ => trivial) fun found d hd => ?_
      cases found with
      | some body => trivial
      | none => exact hstops rfl hd
    · exact .skip (fun d hd => after_other (hstops rfl hd)) (.pure trivial)
  · refine .mono (.skip (fun d hd => many_after_other (hstops rfl hd)) ?_) fun _ _ => trivial
    refine .skip (fun d hd => after_other (hstops rfl hd)) ?_
    exact .pure trivial

/-- What follows the names of a loop over items or numbers. -/
def forRest (deeper : Nested) (value : String) (key : Option String) : Rule Control := do
  if ← accept (.keyword .in) then
    let items ← because .forItems (deeper.expr true)
    return .forIn value key items (← block deeper .for)
  expect (.keyword .of) .forKeyword
  if key.isSome then
    reject .forSingle
  let start ← because .forStart (deeper.expr true)
  expect (.symbol .dotDot) .forDots
  let stop ← because .forStop (deeper.expr true)
  let step ← after (.symbol .dotDot) (because .forStep (deeper.expr true))
  return .forOf value start stop step (← block deeper .for)

theorem forLoop_eq (deeper : Nested) : forLoop deeper = (name .forName >>= fun value =>
    after (.symbol .comma) (name .forKey) >>= fun key => forRest deeper value key) :=
  rfl

section ForLoop

variable {value : String} {key : Option String}

/-- The step of a loop over numbers, which may be missing, and the block. -/
theorem begins_step (hroomy : Roomy deeper) (f : Option Expr → Block → Control) :
    (after (.symbol .dotDot) (because .forStep (deeper.expr true)) >>= fun step =>
      block deeper .for >>= fun body => pure (f step body)).Begins
      (fun _ => True) (fun _ _ => True) (NextIs (.symbol .leftBrace)) :=
  .skip (fun _ hnext => after_other (hnext.ne (by decide))) (begins_lastBlock hroomy (f none))

theorem completes_step (h : Completing deeper) (f : Option Expr → Block → Control) :
    (after (.symbol .dotDot) (because .forStep (deeper.expr true)) >>= fun step =>
      block deeper .for >>= fun body => pure (f step body)).Completes
      (fun _ => True) (fun _ _ => True) (NextIs (.symbol .leftBrace)) c :=
  .after_bind (fun c => (h.foreseen.expr true c).because _) (fun _ => completes_guarded h _)
    (fun _ hnext => hnext.ne (by decide)) ((completes_block h).map _)

theorem completes_numbers (h : Completing deeper) :
    (because .forStart (deeper.expr true) >>= fun start =>
      expect (.symbol .dotDot) .forDots >>= fun _ => because .forStop (deeper.expr true) >>= fun stop =>
      after (.symbol .dotDot) (because .forStep (deeper.expr true)) >>= fun step =>
      block deeper .for >>= fun body => pure (Control.forOf value start stop step body)).Closable c := by
  have hstop : Roomy deeper → ∀ start, (expect (.symbol .dotDot) .forDots >>= fun _ =>
      because .forStop (deeper.expr true) >>= fun stop =>
      after (.symbol .dotDot) (because .forStep (deeper.expr true)) >>= fun step =>
      block deeper .for >>= fun body => pure (Control.forOf value start stop step body)).Begins
      (fun _ => True) (fun _ _ => True) (NextIs (.symbol .dotDot)) := by
    intro hroomy start
    refine .step expect_ofKind ?_ fun _ _ => rfl
    exact begins_exprThen hroomy fun stop => (begins_step hroomy _).mono fun _ =>
      stops_of_nextIs (by decide)
  refine completes_exprThen h (fun hroomy start c' => ?_) fun hroomy start => ?_
  · refine .opens (.expect_bind (.inl (hstop hroomy start)) fun c' => ?_) fun _ =>
      stops_of_nextIs (by decide)
    refine completes_exprThen h (fun _ stop c' => ?_) fun hroomy stop => ?_
    · exact (completes_step h _).opens fun _ => stops_of_nextIs (by decide)
    · exact (begins_step hroomy _).mono fun _ => stops_of_nextIs (by decide)
  · exact (hstop hroomy start).mono fun _ => stops_of_nextIs (by decide)

theorem heads_forRest (h : Completing deeper) : (forRest deeper value key).Heads
    [.ofKind (.keyword .in)] (fun _ => True) (fun _ _ => True) (NextIs (.keyword .in)) := by
  refine Heads.step accept_ofKind ?_ fun _ _ => rfl
  exact heads_guarded h _

theorem completes_forRest (h : Completing deeper) : (forRest deeper value key).Completes
    (fun _ => True) (fun _ _ => True) (NextIs (.keyword .in)) c := by
  by_cases hnil : c.rest = []
  · refine .of_heads .forKeyword hnil (fun rejection hrun hspan => ?_) (heads_forRest h)
    obtain ⟨line, rest⟩ := c
    cases hnil
    cases hrun
    rfl
  · refine .accept_bind hnil (fun _ => completes_guarded h _) fun _ => ?_
    refine .of_ne_nil hnil (.of_parts (Foresees.expect _ _).matched (fun _ hrun hspan => ?_)
      (fun _ c' _ => ?_) fun _ _ _ _ _ _ => trivial)
    · exact absurd (expect_error hrun hspan).1 hnil
    · refine .ite (fun _ => ?_) fun _ => completes_numbers h
      intro rejection hrun hspan
      cases hrun
      exact .inr (.names rfl)

end ForLoop

theorem completes_forLoop (h : Completing deeper) : (forLoop deeper).Closable c := by
  have hnames : ∀ value, (after (.symbol .comma) (name .forKey) >>= fun key =>
      forRest deeper value key).Heads [.ofKind (.keyword .in)] (fun _ => True) (fun _ _ => True)
      (NextIs (.keyword .in)) := by
    intro value
    exact .skip (fun _ hnext => after_other (hnext.ne (by decide))) (heads_forRest h) (by simp)
  rw [forLoop_eq]
  refine .name_bind (.step name_ofKind ((hnames _).mono fun _ _ => trivial) fun _ _ => trivial)
    fun value c' _ => ?_
  refine .anywhere (.after_bind (fun _ => .name _) (fun _ => ?_) (fun _ hnext => hnext.ne (by decide))
    (completes_forRest h))
  refine .name_bind (.step name_ofKind ((heads_forRest h).mono fun _ _ => trivial) fun _ _ => trivial)
    fun key c' _ => ?_
  exact (completes_forRest h).anywhere

theorem completes_returnValue (h : Completing deeper) : (returnValue deeper).Extensible c := by
  refine (Completes.after (fun c => (h.foreseen.expr true c).because _) fun c =>
    (h.expr true c).because _).andReturn (fun _ _ => trivial) fun found d hstops => ?_
  cases found with
  | some value => exact hstops
  | none => exact hstops.ne (by decide) (by decide)

theorem completes_control? (h : Completing deeper) {Opens : Cursor → Prop} :
    (control? deeper).Completes (·.isSome) (EndsWith (fun _ d => d.Stops 1) fun _ => False) Opens
      c := by
  by_cases hnil : c.rest = []
  · obtain ⟨line, rest⟩ := c
    cases hnil
    exact .of_ok rfl
  · refine .peekKind hnil ?_
    split
    next hkind =>
      exact .advanceOf hkind ((completes_cond h).andReturn (fun _ _ => rfl) fun _ _ => id)
    next hkind =>
      exact .advanceOf hkind ((completes_guarded h _).andReturn (fun _ _ => rfl) fun _ _ _ => trivial)
    next hkind =>
      exact .advanceOf hkind ((completes_block h).anywhere.andReturn (fun _ _ => rfl) fun _ _ _ =>
        trivial)
    next hkind =>
      exact .advanceOf hkind ((completes_forLoop h).andReturn (fun _ _ => rfl) fun _ _ _ => trivial)
    next hkind =>
      exact .advanceOf hkind ((completes_returnValue h).andReturn (fun _ _ => rfl) fun _ _ => id)
    next hkind => exact .advanceOf hkind (.pure _)
    next hkind => exact .advanceOf hkind (.pure _)
    next => exact .reject hnil
    next => exact .pure none

/-! ### Values -/

/-- What follows the parameters of a function. -/
theorem heads_funcBody (h : Completing deeper) (f : Block → Expr) :
    (expect (.symbol .rightParen) .funcClose >>= fun _ => block deeper .func >>= fun body =>
      pure (f body)).Heads [.ofKind (.symbol .rightParen), .ofKind (.symbol .leftBrace)]
      (fun _ => True) (fun _ _ => True) (NextIs (.symbol .rightParen)) := by
  refine .step expect_ofKind ?_ fun _ _ => rfl
  exact ((heads_block h).bind fun _ _ => .pure trivial).mono fun _ _ => trivial

theorem completes_funcBody (h : Completing deeper) (f : Block → Expr) :
    (expect (.symbol .rightParen) .funcClose >>= fun _ => block deeper .func >>= fun body =>
      pure (f body)).Completes (fun _ => True) (fun _ _ => True) (NextIs (.symbol .rightParen)) c :=
  .expect_bind (heads_funcBody h f) fun _ => ((completes_block h).map _).anywhere

/-- The parameters after the first one. -/
theorem completes_names {next : List String → Rule β}
    (hheads : ∀ names, (next names).Heads
      [.ofKind (.symbol .rightParen), .ofKind (.symbol .leftBrace)] G E (NextIs (.symbol .rightParen)))
    (hnext : ∀ names c, (next names).Completes G E (NextIs (.symbol .rightParen)) c) :
    (many (after (.symbol .comma) (name .funcParam)) >>= next).Completes G E
      (NextIs (.symbol .rightParen)) c := by
  have hshorter : ∀ c x c', after (.symbol .comma) (name .funcParam) c = .ok (some x, c') →
      c'.rest.length < c.rest.length :=
    fun c x c' => length_lt_of_foresees (.after fun _ => .name _)
  induction hlength : c.rest.length using Nat.strongRecOn generalizing c next with
  | ind n ih =>
      rw [many_bind_eq hshorter]
      refine .after_bind (fun _ => .name _) (fun hcomma => ?_) (fun _ hnext => hnext.ne (by decide))
        (hnext [] c)
      refine .name_bind (.step name_ofKind ?_ fun _ _ => trivial) fun name c' hname => ?_
      · exact .mono (.skip (fun _ hnext => many_after_other (hnext.ne (by decide))) (hheads _)
          (by simp)) fun _ _ => trivial
      · have hitem : after (.symbol .comma) (Rule.name .funcParam) c = .ok (some name, c') := by
          rw [after, bind_run hcomma.accept, if_pos rfl, bind_run hname]
          rfl
        exact .anywhere (ih _ (hlength ▸ hshorter _ _ _ hitem) (fun names => hheads (name :: names))
          (fun names => hnext (name :: names)) rfl)

/-- The left parenthesis of a function and its first parameter. -/
theorem completes_params {next : Option String → Rule β}
    (hheads : (next none).Heads [.ofKind (.symbol .rightParen), .ofKind (.symbol .leftBrace)] G E
      (NextIs (.symbol .rightParen)))
    (hnone : ∀ c, (next none).Completes G E (NextIs (.symbol .rightParen)) c)
    (hsome : ∀ first c, (next (some first)).Completes G E (NextIs (.symbol .rightParen)) c) :
    (expect (.symbol .leftParen) .funcOpen >>= fun _ => name? >>= next).Completes G E
      (NextIs (.symbol .leftParen)) c := by
  have hname : ∀ d, NextIs (.symbol .rightParen) d → ¬NextIs .identifier d :=
    fun _ hnext => hnext.ne (by decide)
  have hfirst : (name? >>= next).Heads
      [.ofKind (.symbol .rightParen), .ofKind (.symbol .leftBrace)] G E fun _ => True :=
    .mono (.skip (fun d hnext => name?_other (hname d hnext)) hheads (by simp)) fun _ _ => trivial
  refine .expect_bind (hfirst.step expect_ofKind fun _ _ => rfl) fun c' => ?_
  exact .anywhere (.name?_bind (fun first c' => (hsome first c').anywhere) hname (hnone c'))

theorem completes_function (h : Completing deeper) : (function deeper).Closable c := by
  have hname : ∀ d, NextIs (.symbol .leftParen) d → ¬NextIs .identifier d :=
    fun _ hnext => hnext.ne (by decide)
  refine .anywhere (.name?_bind (fun name c' => .anywhere (completes_params ?_ ?_ ?_)) hname
    (completes_params ?_ ?_ ?_))
  iterate 2
    · exact heads_funcBody h _
    · exact fun c => completes_funcBody h _
    · exact fun first c => completes_names (fun _ => heads_funcBody h _) fun _ _ =>
        completes_funcBody h _

theorem completes_elements? (h : Completing deeper) (construct : Construct) :
    (elements? deeper construct).Completes (fun _ => True) (fun _ d => Closed d) (fun _ => True)
      c := by
  refine .bind ((h.foreseen.expr false c).optional h.foreseen.absent).matched (h.expr false c).optional
    (fun first c' _ => ?_) fun first hfirst => ?_
  · cases first with
    | none => exact .pure none
    | some first =>
        exact (Completes.many_after (fun c => (h.foreseen.expr true c).because _)
          (fun c => (h.expr true c).because _) (fun _ _ => Closed.stops) (fun _ => Closed.ne_comma)
          c').andReturn (fun _ _ => trivial) fun _ _ => id
  · obtain ⟨first, rfl, -⟩ := hfirst
    exact .mono (.skip (fun _ hclosed => many_after_other (Closed.ne_comma hclosed)) (.pure trivial))
      fun _ => Closed.stops

/-- Elements and the bracket that closes them. -/
theorem completes_closed {kind : Kind} {construct : Construct}
    {complaint : Option (List Expr) → Complaint} (h : Completing deeper)
    (hkind : kind = .symbol .rightParen ∨ kind = .symbol .rightBracket ∨ kind = .symbol .rightBrace)
    (f : Option (List Expr) → β) : (elements? deeper construct >>= fun found =>
      expect kind (complaint found) >>= fun _ => pure (f found)).Closable c := by
  refine .bind (foresees_elements? h.foreseen _).matched (completes_elements? h _)
    (fun found c' _ => ?_) fun found _ => ?_
  · exact (Completes.expect.map _).opens fun _ hnext => closed_of_kind hnext hkind
  · exact .step expect_ofKind (.pure trivial) (closed_ofKind hkind)

theorem completes_list (h : Completing deeper) : (list deeper).Closable c :=
  completes_closed h (.inr (.inl rfl)) _

theorem begins_entryValue (hroomy : Roomy deeper) : (entryValue deeper).Begins (fun _ => Roomy deeper)
    (fun _ d => d.Stops 1) (NextIs (.symbol .colon)) :=
  .step expect_ofKind ((hroomy.begins_expr true).because _) fun _ _ => rfl

theorem completes_entryValue (h : Completing deeper) : (entryValue deeper).Completes
    (fun _ => Roomy deeper) (fun _ d => d.Stops 1) (NextIs (.symbol .colon)) c :=
  .expect_bind ((heads_expr h).step expect_ofKind fun _ _ => rfl) fun c' => (h.expr true c').because _

theorem literal?_none {c' : Cursor} (h : literal? c = .ok (none, c')) : c' = c := by
  by_cases hstarts : ∃ token, c.rest.head? = some token ∧ startsValue token.kind = true
  · obtain ⟨token, hhead, hstarts⟩ := hstarts
    exact (literal?_eq_none h hhead hstarts).1
  · have hrun : literal? c = .ok (none, c) := by
      refine literal?_absent fun kind hkind => Bool.eq_false_iff.2 fun htrue => hstarts ?_
      obtain ⟨token, hhead, rfl⟩ := Option.map_eq_some_iff.1 hkind
      exact ⟨token, hhead, htrue⟩
    cases hrun.symm.trans h
    rfl

/-- A token that is there is a value by itself or not, whatever follows. -/
theorem completes_literal? (hne : c.rest ≠ []) {Ends : Option Expr → Cursor → Prop}
    {Opens : Cursor → Prop} : literal?.Completes (fun _ => False) Ends Opens c := by
  refine .peek hne ?_
  cases hhead : c.rest.head? with
  | none => exact .pure none
  | some token =>
      have hpass : ∀ e : Expr, (advance >>= fun _ => pure (some e)).Completes (fun _ => False) Ends
          Opens c :=
        fun e => .advanceOf (congrArg (Option.map (·.kind)) hhead) (.pure _)
      simp only
      split
      iterate 5 exact hpass _
      · split
        · exact hpass _
        · exact .reject hne
      · exact .pure none

theorem completes_literal?_bind {next : Option Expr → Rule β} {Opens : Cursor → Prop}
    (hne : c.rest ≠ []) (hsome : ∀ e c', (next (some e)).Completes G E (fun _ => True) c')
    (hnone : (next none).Completes G E Opens c) : (literal? >>= next).Completes G E Opens c := by
  refine .of_ne_nil hne (.bind foresees_literal?.matched (completes_literal? hne)
    (fun found c' hrun => ?_) fun _ => False.elim)
  cases found with
  | some e => exact hsome e c'
  | none =>
      cases literal?_none hrun
      exact .of_ne_nil hne hnone

theorem completes_entry (h : Completing deeper) (hne : c.rest ≠ []) {Opens : Cursor → Prop} :
    (entry deeper).Completes (fun _ => True) (fun _ d => d.Stops 1) Opens c := by
  have hany : ∀ (f : Expr → Entry) c', (entryValue deeper >>= fun e => pure (f e)).Extensible c' :=
    fun f c' => ((completes_entryValue h).andReturn (fun _ _ => trivial) fun _ _ => id).anywhere
  refine .peek hne ?_
  cases hhead : c.rest.head? with
  | none => exact .reject hne
  | some token =>
      have hkind := congrArg (Option.map (·.kind)) hhead
      simp only
      split
      · exact .advanceOf hkind (hany _ _)
      iterate 2 exact completes_literal?_bind hne (fun key c' => hany _ c') (.reject hne)
      · -- a key in brackets
        have hclose : Roomy deeper → ∀ key, (expect (.symbol .rightBracket) .keyClose >>= fun _ =>
            entryValue deeper >>= fun e => pure (Entry.computed key e)).Begins (fun _ => True)
            (fun _ d => d.Stops 1) (NextIs (.symbol .rightBracket)) := by
          intro hroomy key
          refine .step expect_ofKind (.mono (.bind (begins_entryValue hroomy) fun _ _ => ?_)
            fun _ _ => trivial) fun _ _ => rfl
          exact .pure trivial
        refine .advanceOf hkind (completes_exprThen h (fun hroomy key c' => ?_) fun hroomy key => ?_)
        · exact .opens (.expect_bind (.inl (hclose hroomy key)) fun c' => hany _ c') fun _ =>
            stops_of_nextIs (by decide)
        · exact (hclose hroomy key).mono fun _ => stops_of_nextIs (by decide)
      · exact .reject hne

theorem entryAfterComma_other {d : Cursor} (h : ¬NextIs (.symbol .comma) d) :
    entryAfterComma deeper d = .ok (none, d) := by
  rw [entryAfterComma, bind_run (accept_other h)]
  rfl

theorem completes_entryAfterComma (h : Completing deeper) :
    (entryAfterComma deeper).Completes (fun _ => True) (fun _ => NextIs (.symbol .rightBrace))
      (fun _ => True) c := by
  by_cases hcomma : NextIs (.symbol .comma) c
  · refine .accept_bind hcomma.ne_nil (fun _ => ?_) fun hother => absurd hcomma hother
    by_cases hnil : c.advance.rest = []
    · -- the brace that comes next closes the table
      refine .of_begins hnil fun line => ⟨[], none, line, trivial, fun rest hbrace =>
        ⟨?_, fun _ => trivial⟩⟩
      change (peekKind >>= _) ⟨line, rest⟩ = _
      rw [peekKind_run, if_pos hbrace]
      rfl
    · refine .peekKind hnil (.ite (fun _ => .pure none) fun _ => ?_)
      exact (completes_entry h hnil).andReturn (fun _ _ => trivial) fun _ _ =>
        stops_of_nextIs (by decide)
  · exact .of_ok (entryAfterComma_other hcomma)

theorem entries_other {d : Cursor} (h : NextIs (.symbol .rightBrace) d) :
    many (entryAfterComma deeper) d = .ok ([], d) :=
  (Repeats.nil (entryAfterComma_other (h.ne (by decide)))).many

/-- The entries after the first one, and the brace that closes the table. -/
theorem completes_entries (h : Completing deeper) (f : List Entry → Expr) :
    (many (entryAfterComma deeper) >>= fun rest => expect (.symbol .rightBrace) .tableClose >>= fun _ =>
      pure (f rest)).Completes (fun _ => True) (fun _ _ => True) (NextIs (.symbol .rightBrace)) c := by
  have hmany : (many (entryAfterComma deeper)).Completes (fun _ => True)
      (fun _ => NextIs (.symbol .rightBrace)) (NextIs (.symbol .rightBrace)) c := by
    refine .many (fun _ => foresees_entryAfterComma h.foreseen)
      (fun _ => completes_entryAfterComma h) (fun _ _ => id) (fun d hbrace => ?_) (fun line => ?_) c
    · exact entryAfterComma_other (NextIs.ne hbrace (by decide))
    · exact ⟨_, entryAfterComma_other (Option.some_ne_none _).symm⟩
  refine .bind_opens (foresees_entries h.foreseen).matched hmany (fun rest c' _ => ?_)
    (fun rest _ => ?_) fun _ _ _ _ _ => id
  · exact Completes.expect.map _
  · exact .step expect_ofKind (.pure trivial) fun _ _ => rfl

theorem completes_table (h : Completing deeper) : (table deeper).Closable c := by
  by_cases hnil : c.rest = []
  · refine .of_begins hnil fun line =>
      ⟨[.ofKind (.symbol .rightBrace)], .table [], some 0, trivial, ?_⟩
    exact fun rest _ => ⟨bind_run (accept_ofKind line rest) _, fun _ => trivial⟩
  · refine .accept_bind hnil (fun _ => .pure _) fun _ => ?_
    refine .bind (bounded_entry h.foreseen).matched (completes_entry h hnil) (fun first c' _ => ?_)
      fun first _ => ?_
    · exact (completes_entries h _).opens fun _ => stops_of_nextIs (by decide)
    · refine .mono (.skip (fun _ => entries_other) ?_) fun _ => stops_of_nextIs (by decide)
      exact .step expect_ofKind (.pure trivial) fun _ _ => rfl

theorem completes_quote (h : Completing deeper) : (quote deeper).Closable c := by
  refine completes_exprThen h (fun _ e c' => ?_) fun _ e => ?_
  · exact (Completes.expect.map _).opens fun _ => stops_of_nextIs (by decide)
  · exact .step expect_ofKind (.pure trivial) fun _ _ => stops_of_nextIs (by decide) rfl

theorem completes_value (h : Completing deeper) (hne : c.rest ≠ []) (required : Bool)
    {Opens : Cursor → Prop} :
    (value deeper required).Completes (fun _ => True) (fun _ _ => True) Opens c := by
  refine completes_literal?_bind hne (fun e _ => .pure e) (.peekKind hne ?_)
  split
  next hkind => exact .advanceOf hkind (completes_list h)
  next hkind => exact .advanceOf hkind (completes_table h)
  next hkind => exact .advanceOf hkind (completes_quote h)
  next hkind => exact .advanceOf hkind (completes_function h)
  next => exact .noMatch hne

/-! ### Expressions -/

theorem completes_accessor? (h : Completing deeper) : (accessor? deeper).Completes (fun _ => True)
    (EndsWith (fun _ _ => True) fun d => d.Stops 7) (fun _ => True) c := by
  by_cases hstops : c.Stops 7
  · exact .of_ok (accessor?_stops deeper hstops)
  · obtain ⟨token, hhead, hcases⟩ := exists_of_not_stops hstops
    have hthere := congrArg (Option.map (·.kind)) hhead
    have hne : c.rest ≠ [] := by
      intro hnil
      rw [hnil] at hhead
      cases hhead
    obtain hkind | ⟨hkind | hkind, hline⟩ := hcases
    · refine .congr hne (.advanceOf hthere ?_) fun rest hrest =>
        accessor?_member (hrest.trans hhead) hkind
      exact Completes.name.anywhere.andReturn (fun _ _ => trivial) fun _ _ _ => trivial
    · refine .congr hne (.advanceOf hthere ?_) fun rest hrest =>
        accessor?_call (hrest.trans hhead) hkind hline
      exact (completes_closed h (.inl rfl) _).mono (fun _ => id) (fun _ _ _ => trivial) fun _ _ => id
    · refine .congr hne (.advanceOf hthere ?_) fun rest hrest =>
        accessor?_index (hrest.trans hhead) hkind hline
      refine completes_exprThen h (fun _ index c' => ?_) fun _ index => ?_
      · exact (Completes.expect.andReturn (fun _ _ => trivial) fun _ _ _ => trivial).opens fun _ =>
          stops_of_nextIs (by decide)
      · exact .step expect_ofKind (.pure trivial) fun _ _ => stops_of_nextIs (by decide) rfl

theorem stops_of_nil (hnil : c.rest = []) (level : Nat) : c.Stops level := by
  intro token htoken
  rw [hnil] at htoken
  cases htoken

theorem completes_access (h : Completing deeper) (hne : c.rest ≠ []) (required : Bool)
    {Opens : Cursor → Prop} :
    (access deeper required).Completes (fun _ => True) (fun _ d => d.Stops 1) Opens c := by
  have hseven : ∀ d : Cursor, d.Stops 1 → accessor? deeper d = .ok (none, d) :=
    fun d hstops => accessor?_stops deeper (hstops.mono (by decide))
  refine .of_ne_nil hne (.bind (fixed_value h.foreseen required).matched
    (completes_value h hne required) (fun target c' _ => ?_) fun target _ => ?_)
  · refine (Completes.many (fun _ => foresees_accessor? h.foreseen) (fun _ => completes_accessor? h)
      (fun found d hstops => ?_) hseven (fun line => ⟨_, hseven _ (stops_of_nil rfl 1)⟩) c').andReturn
      (fun _ _ => trivial) fun _ _ => id
    cases found with
    | some accessor => trivial
    | none => exact hstops.mono (by decide)
  · exact .mono (.skip (fun d hstops => (Repeats.nil (hseven d hstops)).many) (.pure trivial))
      fun _ _ => trivial

theorem control?_none {c' : Cursor} (h : control? deeper c = .ok (none, c')) : c' = c := by
  by_cases hglobal : NextIs (.keyword .global) c
  · rw [control?, peekKind_run, hglobal] at h
    cases h
    rfl
  · cases (plain_of_control? h hglobal).control?.symm.trans h
    rfl

/-- Control flow, or else something at the same place. -/
theorem completes_control?_bind {next : Option Control → Rule Expr} {Opens : Cursor → Prop}
    (h : Completing deeper) (hne : c.rest ≠ [])
    (hsome : ∀ control, next (some control) = pure (.control control))
    (hnone : (next none).Completes (fun _ => True) (fun _ d => d.Stops 1) Opens c) :
    (control? deeper >>= next).Completes (fun _ => True) (fun _ d => d.Stops 1) Opens c := by
  refine .of_ne_nil hne (.bind (foresees_control? h.foreseen).matched (completes_control? h)
    (fun found c' hrun => ?_) fun found hfound => ?_)
  · cases found with
    | some control =>
        rw [hsome]
        exact .pure _
    | none =>
        cases control?_none hrun
        exact .of_ne_nil hne hnone
  · obtain ⟨control, rfl⟩ := Option.isSome_iff_exists.1 hfound
    rw [hsome]
    exact .pure trivial

theorem completes_primary (h : Completing deeper) (hne : c.rest ≠ []) (required : Bool)
    {Opens : Cursor → Prop} :
    (primary deeper required).Completes (fun _ => True) (fun _ d => d.Stops 1) Opens c :=
  completes_control?_bind h hne (fun _ => rfl) (completes_access h hne required)

theorem completes_unary (h : Completing deeper) (required : Bool) (c : Cursor) :
    (unary deeper required).Extensible c := by
  by_cases hnil : c.rest = []
  · exact .of_begins hnil begins_unary
  · refine .peekKind hnil ?_
    split
    next op hop =>
      obtain ⟨kind, hkind, -⟩ := Option.bind_eq_some_iff.1 hop
      exact .advanceOf hkind (((h.operand _).because _).map _)
    next => exact completes_primary h hnil required

section Operators

variable {operand : Bool → Rule Expr} {complaint : Complaint}
  (hbounded : ∀ required c, (operand required).Bounded c)
  (hoperand : ∀ required c, (operand required).Extensible c)

include hbounded hoperand

theorem completes_binary {ω : Type} {operator? : Kind → Option ω} {strength : Nat}
    {node : Expr → List (ω × Expr) → Expr}
    (hoperator : ∀ {kind op}, operator? kind = some op → kind.strength = strength)
    (hpositive : 0 < strength) (hstrength : strength < 7) (required : Bool) (c : Cursor) :
    (binary operator? operand complaint node required).Extensible c := by
  have hnone : ∀ d : Cursor, d.Stops 1 → operation operator? operand complaint d = .ok (none, d) :=
    fun d hstops => operation_stops hoperator hstrength (hstops.mono hpositive)
  have hitem : ∀ c, (operation operator? operand complaint).Completes (·.isSome)
      (fun _ d => d.Stops 1) (fun _ => True) c := by
    intro c
    by_cases hnil : c.rest = []
    · exact .of_ok (hnone c (stops_of_nil hnil 1))
    · refine .peekKind hnil ?_
      split
      next op hop =>
        obtain ⟨kind, hkind, -⟩ := Option.bind_eq_some_iff.1 hop
        exact .advanceOf hkind (((hoperand true _).because _).andReturn (fun _ _ => rfl) fun _ _ => id)
      next => exact .pure none
  refine .bind (hbounded required c).matched (hoperand required c) (fun first c' _ => ?_)
    fun first _ => ?_
  · exact (Completes.many (foresees_operation hoperator hpositive hstrength hbounded) hitem
      (fun _ _ => id) hnone (fun line => ⟨_, hnone _ (stops_of_nil rfl 1)⟩) c').andReturn
      (fun _ _ => trivial) fun _ _ => id
  · exact .skip (fun d hstops => (Repeats.nil (hnone d hstops)).many) (.pure trivial)

theorem completes_logical {keyword : Keyword} {node : Expr → List Expr → Expr}
    (hkeyword : 1 ≤ (Kind.keyword keyword).strength) (hoperator : (Kind.keyword keyword).strength < 7)
    (required : Bool) (c : Cursor) :
    (logical keyword operand complaint node required).Extensible c := by
  have hother : ∀ d : Cursor, d.Stops 1 → ¬NextIs (.keyword keyword) d :=
    fun _ hstops => hstops.ne hkeyword hoperator
  refine .bind (hbounded required c).matched (hoperand required c) (fun first c' _ => ?_)
    fun first _ => ?_
  · exact (Completes.many_after (fun c => (hbounded true c).because _)
      (fun c => (hoperand true c).because _) (fun _ _ => id) hother c').andReturn
      (fun _ _ => trivial) fun _ _ => id
  · exact .skip (fun d hstops => many_after_other (hother d hstops)) (.pure trivial)

end Operators

section Levels

variable (h : Completing deeper) (required : Bool) (c : Cursor)

include h

theorem completes_mul : (mul deeper required).Extensible c :=
  completes_binary (bounded_unary h.foreseen) (completes_unary h) strength_of_mulOp? (by decide)
    (by decide) required c

theorem completes_add : (add deeper required).Extensible c :=
  completes_binary (bounded_mul h.foreseen) (completes_mul h) strength_of_addOp? (by decide)
    (by decide) required c

theorem completes_compare : (compare deeper required).Extensible c :=
  completes_binary (bounded_add h.foreseen) (completes_add h) strength_of_compareOp? (by decide)
    (by decide) required c

theorem completes_and : (and deeper required).Extensible c :=
  completes_logical (bounded_compare h.foreseen) (completes_compare h) (by decide) (by decide)
    required c

theorem completes_or : (or deeper required).Extensible c :=
  completes_logical (bounded_and h.foreseen) (completes_and h) (by decide) (by decide)
    required c

end Levels

theorem completes_global (h : Completing deeper) : (global deeper).Extensible c := by
  have hvalue : ∀ name, (expect (.symbol .assign) .globalAssign >>= fun _ =>
      because .globalValue (deeper.expr true) >>= fun e => pure (Expr.global name e)).Heads
      [.ofKind (.symbol .assign)] (fun _ => True) (fun _ d => d.Stops 1)
      (NextIs (.symbol .assign)) := by
    intro name
    exact .step expect_ofKind (heads_exprThen h fun _ e => .pure trivial) fun _ _ => rfl
  refine .name_bind (.step name_ofKind ((hvalue _).mono fun _ _ => trivial) fun _ _ => trivial)
    fun name c' _ => .anywhere (.expect_bind (hvalue name) fun c' => ?_)
  exact ((h.expr true c').because _).andReturn (fun _ _ => trivial) fun _ _ => id

/-! ### Assignments -/

theorem completes_update? (h : Completing deeper) {Opens : Cursor → Prop} :
    (update? deeper).Completes (fun found => found.isSome = true ∧ Roomy deeper)
      (fun _ d => d.Stops 1) Opens c := by
  have hvalue : ∀ (f : Expr → Update) c, (because .assignValue (deeper.expr true) >>= fun value =>
      pure (some (f value))).Completes (fun found => found.isSome = true ∧ Roomy deeper)
      (fun _ d => d.Stops 1) (fun _ => True) c :=
    fun f c => ((h.expr true c).because _).andReturn (fun _ hroomy => ⟨rfl, hroomy⟩) fun _ _ => id
  by_cases hnil : c.rest = []
  · exact .of_ok (update?_stops (stops_of_nil hnil 1))
  · refine .peekKind hnil ?_
    split
    next hkind => exact .advanceOf hkind (hvalue _ _)
    next hkind => exact .advanceOf hkind (hvalue _ _)
    next hkind => exact .advanceOf hkind (hvalue _ _)
    next hkind => exact .advanceOf hkind (.pure _)
    next hkind => exact .advanceOf hkind (.pure _)
    next => exact .pure none

theorem assigns_cases {kind : Kind} (h : kind.assigns = true) : kind = .symbol .assign ∨
    kind = .symbol .addAssign ∨ kind = .symbol .subAssign := by
  unfold Kind.assigns at h
  split at h
  · exact .inl rfl
  · exact .inr (.inl rfl)
  · exact .inr (.inr rfl)
  · cases h

/-- Only a sign that assigns lets an update fail. -/
theorem assigns_of_update? {rejection : Rejection} (h : update? deeper c = .error rejection) :
    ∃ sign after, c.rest = sign :: after ∧ sign.kind.assigns = true := by
  obtain ⟨line, rest⟩ := c
  cases rest with
  | nil => cases h
  | cons sign after =>
      refine ⟨sign, after, rfl, ?_⟩
      cases hupdates : updates sign.kind with
      | false =>
          refine absurd (h.symm.trans (update?_other fun kind hkind => ?_)) (by simp)
          cases hkind
          exact hupdates
      | true =>
          have hhead : (Cursor.mk line (sign :: after)).rest.head?.map (·.kind) = some sign.kind := rfl
          rw [update?, peekKind_run, hhead] at h
          unfold updates at hupdates
          split at hupdates
          next hkind => rw [hkind]; rfl
          next hkind => rw [hkind]; rfl
          next hkind => rw [hkind]; rfl
          next hkind => rw [hkind] at h; cases h
          next hkind => rw [hkind] at h; cases h
          next => cases hupdates

/-- With `null` for its value, every assignment is complete. -/
theorem update?_null (hroomy : Roomy deeper) {sign : Token} (hsign : sign.kind.assigns = true)
    (line : Option Nat) :
    ∃ update d, update? deeper ⟨line, [sign, .ofKind (.keyword .null)]⟩ = .ok (some update, d) := by
  obtain ⟨levels, rfl⟩ := hroomy
  have hvalue : because .assignValue ((nested (levels + 1)).expr true)
      ⟨some sign.span.line, [.ofKind (.keyword .null)]⟩ = .ok (.null, ⟨some 0, []⟩) :=
    because_run (expr_null (stops_of_nil rfl 1)) _
  have hupdate : ∀ f : Expr → Update, (because .assignValue ((nested (levels + 1)).expr true) >>=
      fun e => pure (some (f e))) ⟨some sign.span.line, [.ofKind (.keyword .null)]⟩ =
      .ok (some (f .null), ⟨some 0, []⟩) := fun f => bind_run hvalue _
  have hhead : (Cursor.mk line [sign, .ofKind (.keyword .null)]).rest.head?.map (·.kind) =
      some sign.kind := rfl
  rw [update?, peekKind_run, hhead]
  rcases assigns_cases hsign with hkind | hkind | hkind <;> rw [hkind]
  · exact ⟨_, _, hupdate .set⟩
  · exact ⟨_, _, hupdate .addTo⟩
  · exact ⟨_, _, hupdate .subFrom⟩

theorem completes_assignment (h : Completing deeper) (hne : c.rest ≠ []) (required : Bool) (span : Span)
    {Opens : Cursor → Prop} :
    (or deeper required >>= fun left => update? deeper >>= assigned (some span) left).Completes
      (fun _ => True) (fun _ d => d.Stops 1) Opens c := by
  refine .of_ne_nil hne (.bind (bounded_or h.foreseen required c).matched (completes_or h required c)
    (fun left c' _ => ?_) fun left _ => ?_)
  · refine .of_parts (foresees_update? h.foreseen).matched (fun rejection hrun hspan => ?_)
      (fun found c'' _ => ?_) fun _ _ _ _ _ => id
    · rcases completes_update? h rejection hrun hspan with hresumes | hstuck
      · cases htarget : target? left with
        | some target =>
            refine .inl (hresumes.bind fun found hfound => ?_)
            obtain ⟨update, rfl⟩ := Option.isSome_iff_exists.1 hfound.1
            simp only [assigned, htarget]
            exact .pure trivial
        | none =>
            -- the sign is there, and the expression before it is no target
            obtain ⟨-, -, -, ⟨-, hroomy⟩, -⟩ := hresumes
            obtain ⟨sign, after, hrest, hsign⟩ := assigns_of_update? hrun
            obtain ⟨update, d, hnull⟩ := update?_null hroomy hsign c'.line
            refine .inr (.target [] after sign span hrest hsign ?_)
            exact (bind_run hnull _).trans (assigned_error (Option.some_ne_none update) htarget)
      · exact .inr hstuck.bind
    · refine .of_span fun rejection hrun => ?_
      obtain ⟨-, -, rfl⟩ := target?_of_assigned hrun
      exact Option.some_ne_none span
  · exact .skip (fun _ => update?_stops) (.pure trivial)

theorem completes_expr (h : Completing deeper) (required : Bool) (c : Cursor) :
    (expr deeper required).Extensible c := by
  by_cases hnil : c.rest = []
  · exact .of_begins hnil begins_expr
  · rw [expr_eq]
    refine .accept_bind hnil (fun _ => completes_global h) fun _ => ?_
    refine completes_control?_bind h hnil (fun _ => rfl) (.peekSpan hnil ?_)
    obtain ⟨token, rest, hrest⟩ := List.exists_cons_of_ne_nil hnil
    rw [hrest]
    exact completes_assignment h hnil required token.span

/-- At every number of levels what is incomplete can be completed. -/
theorem completing_nested (levels : Nat) : Completing (nested levels) := by
  induction levels with
  | zero =>
      exact ⟨foreseen_nested 0, .inr rfl, fun _ _ => .of_tooDeep rfl, fun _ => .of_tooDeep rfl⟩
  | succ levels ih =>
      refine ⟨foreseen_nested _, .inl ⟨levels, rfl⟩, fun required c => ?_, completes_unary ih true⟩
      exact (completes_expr ih required c).mono (fun _ _ => ⟨levels, rfl⟩) (fun _ _ => id)
        fun _ _ => id

end Grammar

end TableScript
