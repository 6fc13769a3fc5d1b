import TableScript.Proofs.Performance

/-!
The machine does what the grammar says, one recogniser for each rule and one level of nesting after
another. Called from outside, it ends from every place and at every depth, and it puts the cursor
back when it fails.
-/

namespace TableScript

variable {α β : Type} {tokens : List Token}

namespace Recogniser

/-- The recognisers that are called one level deeper do what the rules there do. -/
structure Performed (tokens : List Token) (depth : Nat) (callees : Callees) (deeper : Nested) :
    Prop where
  rounds : tokens.length < callees.rounds
  foreseen : Grammar.Foreseen deeper
  expr : ∀ required (k : Mark tokens),
    Performs depth k (callees.expr required) (deeper.expr required)
  operand : ∀ k : Mark tokens, Performs depth k callees.operand deeper.operand

theorem Performed.rounds_left {depth : Nat} {callees : Callees} {deeper : Nested}
    (h : Performed tokens depth callees deeper) (k : Mark tokens) :
    tokens.length - k.val < callees.rounds :=
  Nat.lt_of_le_of_lt (Nat.sub_le _ _) h.rounds

section Rules

variable {depth : Nat} {callees : Callees} {deeper : Nested} {k : Mark tokens}

/-! ### Blocks and control flow -/

theorem performs_statements (h : Performed tokens depth callees deeper) (k : Mark tokens) :
    Performs depth k (statements callees) (Grammar.statements deeper) :=
  .many h.rounds (fun k => (h.expr false k).optional) (fun c _ _ => Rule.length_lt_of_foresees
    ((h.foreseen.expr false c).optional h.foreseen.absent)) k

theorem performs_block (h : Performed tokens depth callees deeper) (construct : Construct)
    (k : Mark tokens) :
    Performs depth k (block callees construct) (Grammar.block deeper construct) :=
  .attempt <| (Performs.expect _ _).bind fun _ k => (performs_statements h k).bind fun body _ =>
    (Performs.expect _ _).andReturn fun _ => body

theorem performs_condition (h : Performed tokens depth callees deeper) (keyword : String)
    (construct : Construct) (k : Mark tokens) :
    Performs depth k (condition callees keyword construct)
      (Grammar.condition deeper keyword construct) :=
  (h.expr true k).because _

theorem performs_branch (h : Performed tokens depth callees deeper) (keyword : String)
    (k : Mark tokens) : Performs depth k (branch callees keyword) (Grammar.branch deeper keyword) :=
  (performs_condition h _ _ k).bind fun _ k => (performs_block h _ k).andReturn _

theorem performs_elifs (h : Performed tokens depth callees deeper) (k : Mark tokens) :
    Performs depth k (many callees.rounds (after (.keyword .elif) (branch callees "elif")))
      (Rule.many (Rule.after (.keyword .elif) (Grammar.branch deeper "elif"))) :=
  .many h.rounds (fun _ => .after _ (performs_branch h _)) (fun _ _ _ =>
    Rule.length_lt_of_foresees (.after fun _ => Grammar.fixed_branch h.foreseen _)) k

theorem performs_cond (h : Performed tokens depth callees deeper)
    (hkind : tokens[k.val]?.map (·.kind) = some (.keyword .if)) :
    Performs depth k (cond callees) (Rule.advance >>= fun _ => Grammar.cond deeper) := by
  refine .attempt (.opened hkind fun k => ?_)
  refine (performs_branch h _ k).bind fun first k => (performs_elifs h k).bind fun rest k => ?_
  exact (Performs.after _ (performs_block h _)).andReturn _

theorem performs_whileLoop (h : Performed tokens depth callees deeper)
    (hkind : tokens[k.val]?.map (·.kind) = some (.keyword .while)) :
    Performs depth k (whileLoop callees) (Rule.advance >>= fun _ => Grammar.whileLoop deeper) :=
  .attempt <| .opened hkind fun k => (performs_condition h _ _ k).bind fun _ k =>
    (performs_block h _ k).andReturn _

theorem performs_endlessLoop (h : Performed tokens depth callees deeper)
    (hkind : tokens[k.val]?.map (·.kind) = some (.keyword .loop)) :
    Performs depth k (endlessLoop callees) (Rule.advance >>= fun _ =>
      Grammar.block deeper .loop >>= fun body => pure (.loop body)) :=
  .attempt <| .opened hkind fun k => (performs_block h _ k).andReturn _

theorem performs_forLoop (h : Performed tokens depth callees deeper)
    (hkind : tokens[k.val]?.map (·.kind) = some (.keyword .for)) :
    Performs depth k (forLoop callees) (Rule.advance >>= fun _ => Grammar.forLoop deeper) := by
  refine .attempt (.opened hkind fun k => ?_)
  refine (Performs.name _).bind fun value k => ?_
  refine (Performs.after _ fun _ => .name _).bind fun key k => ?_
  refine (Performs.taken _).bind fun found k => .ite (fun _ => ?_) fun _ => ?_
  · exact ((h.expr true k).because _).bind fun items k => (performs_block h _ k).andReturn _
  · refine (Performs.expect _ _).bind fun _ k => ?_
    -- a key is refused here, and what would follow is the same without one
    refine .ite (fun _ => (Performs.reject _).bind fun _ k => ?_) fun _ => ?_
    all_goals
      refine ((h.expr true k).because _).bind fun start k => ?_
      refine (Performs.expect _ _).bind fun _ k => ((h.expr true k).because _).bind fun stop k => ?_
      refine (Performs.after _ fun k => (h.expr true k).because _).bind fun step k => ?_
      exact (performs_block h _ k).andReturn _

theorem performs_returnValue (h : Performed tokens depth callees deeper)
    (hkind : tokens[k.val]?.map (·.kind) = some (.keyword .return)) :
    Performs depth k (returnValue callees) (Rule.advance >>= fun _ => Grammar.returnValue deeper) :=
  .attempt <| .opened hkind fun _ =>
    (Performs.after _ fun k => (h.expr true k).because _).andReturn _

theorem performs_control? (h : Performed tokens depth callees deeper) (k : Mark tokens) :
    Performs depth k (optional (control callees)) (Grammar.control? deeper) := by
  unfold control Grammar.control?
  refine Performs.optionalKind ?_
  cases hkind : tokens[k.val]?.map (·.kind) with
  | none => exact .missing rfl
  | some kind =>
      obtain ⟨token, hhead, -⟩ := Option.map_eq_some_iff.1 hkind
      cases kind with
      | keyword word =>
          cases word with
          | «if» => exact (performs_cond h hkind).begun Grammar.commits_cond
          | «while» => exact (performs_whileLoop h hkind).begun Grammar.commits_whileLoop
          | loop =>
              have hcommits : (Grammar.block deeper .loop >>= fun body =>
                  pure (Control.loop body)).Commits := (Grammar.commits_block _).andReturn _
              simpa only [bind_assoc, pure_bind] using (performs_endlessLoop h hkind).begun hcommits
          | «for» => exact (performs_forLoop h hkind).begun Grammar.commits_forLoop
          | «return» => exact (performs_returnValue h hkind).begun Grammar.commits_returnValue
          | «continue» => exact ((Performs.advance hhead).andReturn _).begun (.pure _)
          | «break» => exact ((Performs.advance hhead).andReturn _).begun (.pure _)
          | require => exact ((Performs.reject _).found (Rule.Commits.reject _ _)).congr rfl rfl
          | _ => exact .missing rfl
      | _ => exact .missing rfl

/-! ### Values -/

theorem performs_params (h : Performed tokens depth callees deeper) (k : Mark tokens) :
    Performs depth k (many callees.rounds (after (.symbol .comma) (name .funcParam)))
      (Rule.many (Rule.after (.symbol .comma) (Rule.name .funcParam))) :=
  .many h.rounds (fun _ => .after _ fun _ => .name _) (fun _ _ _ =>
    Rule.length_lt_of_foresees (.after fun _ => .name _)) k

theorem performs_function (h : Performed tokens depth callees deeper)
    (hkind : tokens[k.val]?.map (·.kind) = some (.keyword .func)) :
    Performs depth k (function callees) (Rule.advance >>= fun _ => Grammar.function deeper) := by
  refine .attempt (.opened hkind fun k => ?_)
  refine Performs.name?.bind fun name k => (Performs.expect _ _).bind fun _ k => ?_
  refine Performs.name?.bind fun first k => ?_
  cases first with
  | none =>
      refine (Performs.pure _).bind fun params k => (Performs.expect _ _).bind fun _ k => ?_
      exact (performs_block h _ k).andReturn _
  | some first =>
      refine (performs_params h k).bind fun rest k => ?_
      refine (Performs.pure _).bind fun params k => (Performs.expect _ _).bind fun _ k => ?_
      exact (performs_block h _ k).andReturn _

theorem performs_others (h : Performed tokens depth callees deeper) (construct : Construct)
    (k : Mark tokens) : Performs depth k (others callees construct) (Rule.many (Rule.after
      (.symbol .comma) (Rule.because (.nextElement construct) (deeper.expr true)))) :=
  .many h.rounds (fun _ => .after _ fun k => (h.expr true k).because _) (fun _ _ _ =>
    Rule.length_lt_of_foresees (.after fun c => (h.foreseen.expr true c).because _)) k

/-- Whether there are elements is settled by the first one. -/
theorem performs_elements? (h : Performed tokens depth callees deeper) (construct : Construct)
    (k : Mark tokens) : Performs depth k (optional (elements callees construct))
      (Grammar.elements? deeper construct) := by
  have helements : Performs depth k (elements callees construct false)
      (deeper.expr false >>= fun first => Rule.many (Rule.after (.symbol .comma)
        (Rule.because (.nextElement construct) (deeper.expr true))) >>= fun rest =>
        pure (first :: rest)) :=
    .attempt <| (h.expr false k).bind fun first k => (performs_others h construct k).andReturn _
  refine helements.optional.congr rfl ?_
  rw [Rule.optional_bind_eq fun _ => (Rule.Commits.many (.after (.because _ _) _)).andReturn _,
    Grammar.elements?]
  refine congrFun (congrArg (Rule.optional _ >>= ·) (funext fun found => ?_)) _
  cases found with
  | none => rfl
  | some first => simp only [Option.elim_some, bind_assoc, pure_bind]

theorem performs_list (h : Performed tokens depth callees deeper)
    (hkind : tokens[k.val]?.map (·.kind) = some (.symbol .leftBracket)) :
    Performs depth k (list callees) (Rule.advance >>= fun _ => Grammar.list deeper) :=
  .attempt <| .opened hkind fun k => (performs_elements? h _ k).bind fun _ _ =>
    (Performs.expect _ _).andReturn _

theorem performs_quote (h : Performed tokens depth callees deeper)
    (hkind : tokens[k.val]?.map (·.kind) = some (.symbol .leftParen)) :
    Performs depth k (quote callees) (Rule.advance >>= fun _ => Grammar.quote deeper) :=
  .attempt <| .opened hkind fun k => ((h.expr true k).because _).bind fun inner _ =>
    (Performs.expect _ _).andReturn fun _ => inner

theorem performs_literal? (k : Mark tokens) :
    Performs depth k literal? Grammar.literal? := by
  refine .peek ?_
  cases hhead : tokens[k.val]? with
  | none => exact .pure _
  | some token =>
      simp only
      cases token.kind with
      | identifier => exact (Performs.advance hhead).andReturn _
      | string => exact (Performs.advance hhead).andReturn _
      | number =>
          simp only
          cases Number.ofText? token.textD with
          | some value => exact (Performs.advance hhead).andReturn _
          | none => exact .reject _
      | keyword word =>
          cases word with
          | null => exact (Performs.advance hhead).andReturn _
          | true => exact (Performs.advance hhead).andReturn _
          | false => exact (Performs.advance hhead).andReturn _
          | _ => exact .pure _
      | symbol mark => exact .pure _

theorem performs_entryValue (h : Performed tokens depth callees deeper) (k : Mark tokens) :
    Performs depth k (entryValue callees) (Grammar.entryValue deeper) :=
  (Performs.expect _ _).bind fun _ k => (h.expr true k).because _

theorem performs_entry (h : Performed tokens depth callees deeper) (k : Mark tokens) :
    Performs depth k (entry callees) (Grammar.entry deeper) := by
  refine .peek ?_
  cases hhead : tokens[k.val]? with
  | none => exact .reject _
  | some token =>
      simp only
      cases token.kind with
      | identifier =>
          exact (Performs.advance hhead).bind fun _ k => (performs_entryValue h k).andReturn _
      | string | number =>
          refine (performs_literal? k).bind fun found k => ?_
          cases found with
          | none => exact .reject _
          | some key => exact (performs_entryValue h k).andReturn _
      | keyword word => exact .reject _
      | symbol mark =>
          cases mark with
          | leftBracket =>
              refine (Performs.advance hhead).bind fun _ k => ?_
              refine ((h.expr true k).because _).bind fun key k => ?_
              exact (Performs.expect _ _).bind fun _ k => (performs_entryValue h k).andReturn _
          | _ => exact .reject _

/-- The entries of a table, with its closing brace. -/
def entriesRule (deeper : Nested) : Rule (List Entry) := do
  let first ← Grammar.entry deeper
  let rest ← Rule.many (Grammar.entryAfterComma deeper)
  Rule.expect (.symbol .rightBrace) .tableClose
  return first :: rest

theorem entriesRule_eq (h : Grammar.Foreseen deeper) : entriesRule deeper =
    (Grammar.entry deeper >>= fun first => Rule.accept (.symbol .comma) >>= fun found =>
      if found then
        Rule.peekKind >>= fun kind =>
        if kind = some (.symbol .rightBrace) then
          Rule.expect (.symbol .rightBrace) .tableClose >>= fun _ => pure [first]
        else
          entriesRule deeper >>= fun rest => pure (first :: rest)
      else
        Rule.expect (.symbol .rightBrace) .tableClose >>= fun _ => pure [first]) := by
  rw [entriesRule]
  refine congrArg (Grammar.entry deeper >>= ·) (funext fun first => ?_)
  rw [Rule.many_bind_eq fun _ _ _ => Rule.length_lt_of_foresees
    (Grammar.foresees_entryAfterComma h), Grammar.entryAfterComma, bind_assoc]
  refine congrArg (Rule.accept _ >>= ·) (funext fun found => ?_)
  cases found with
  | false => rfl
  | true =>
      simp only [if_true, bind_assoc]
      refine congrArg (Rule.peekKind >>= ·) (funext fun kind => ?_)
      by_cases hkind : kind = some (.symbol .rightBrace)
      · simp only [if_pos hkind, pure_bind, Option.elim_none]
      · simp only [if_neg hkind, bind_assoc, pure_bind, Option.elim_some]

/-- An entry takes tokens, so the loop over entries ends. -/
theorem performs_entries {rounds : Nat} (h : Performed tokens depth callees deeper)
    (k : Mark tokens) (hrounds : tokens.length - k.val < rounds) :
    Performs depth k (entries rounds (entry callees)) (entriesRule deeper) := by
  induction rounds generalizing k with
  | zero => exact absurd hrounds (Nat.not_lt_zero _)
  | succ rounds ih =>
      rw [entries, entriesRule_eq h.foreseen]
      refine (performs_entry h k).bindAt fun first k₁ hfirst => ?_
      have hlt := ((Grammar.bounded_entry h.foreseen).mark_le hfirst).2 trivial
      refine (Performs.taken _).bindAt fun found k₂ hfound => .ite (fun _ => ?_) fun _ => ?_
      · have hle := ((Rule.Foresees.accept _).mark_le hfound).1
        have hk₂ := k₂.isLt
        by_cases hkind : tokens[k₂.val]?.map (·.kind) = some (.symbol .rightBrace)
        · refine ((Performs.expect (.symbol .rightBrace) .tableClose).andReturn
            fun _ => [first]).congr ?_ ?_
          · rw [bind_run (taken_there hkind), bind_run (expect_there hkind _)]
            rfl
          · rw [Rule.peekKind_run, Cursor.head?_behind, if_pos hkind]
        · refine ((ih k₂ (by omega)).andReturn (first :: ·)).congr ?_ ?_
          · rw [bind_run (taken_other hkind)]
            rfl
          · rw [Rule.peekKind_run, Cursor.head?_behind, if_neg hkind]
      · exact (Performs.expect _ _).andReturn _

theorem performs_table (h : Performed tokens depth callees deeper)
    (hkind : tokens[k.val]?.map (·.kind) = some (.symbol .leftBrace)) :
    Performs depth k (table callees) (Rule.advance >>= fun _ => Grammar.table deeper) := by
  refine .attempt (.opened hkind fun k => (Performs.taken _).bind fun found k => ?_)
  refine .ite (fun _ => .pure _) fun _ => ?_
  refine ((performs_entries h k (h.rounds_left k)).andReturn Expr.table).congr rfl ?_
  simp only [entriesRule, bind_assoc, pure_bind]

theorem performs_value (h : Performed tokens depth callees deeper) (required : Bool)
    (k : Mark tokens) :
    Performs depth k (value callees required) (Grammar.value deeper required) := by
  refine (performs_literal? k).bind fun found k => ?_
  cases found with
  | some e => exact .pure e
  | none =>
      refine .peekKind ?_
      cases hkind : tokens[k.val]?.map (·.kind) with
      | none => exact .noMatch required
      | some kind =>
          cases kind with
          | keyword word =>
              cases word with
              | func => exact performs_function h hkind
              | _ => exact .noMatch required
          | symbol mark =>
              cases mark with
              | leftBracket => exact performs_list h hkind
              | leftBrace => exact performs_table h hkind
              | leftParen => exact performs_quote h hkind
              | _ => exact .noMatch required
          | _ => exact .noMatch required

/-! ### Access to parts -/

section Lines

variable {token : Token} {s : Standing}

theorem continuesLine_none (hhead : tokens[s.cursor]? = none) :
    continuesLine tokens s = some (.ok false, s) := by
  rw [continuesLine, peek_run, hhead]
  rfl

theorem continuesLine_enclosing (hhead : tokens[s.cursor]? = some token)
    (hkind : token.kind = .symbol .leftBracket ∨ token.kind = .symbol .leftParen) :
    continuesLine tokens s =
      some (.ok (decide ((Cursor.behind tokens s.cursor).line = some token.span.line)), s) := by
  rw [continuesLine, peek_run, hhead]
  simp only [if_pos hkind]
  obtain ⟨cursor, depth⟩ := s
  cases cursor with
  | zero => rfl
  | succ before =>
      show some (Except.ok (tokens[before]?.any _), _) = some (Except.ok (decide
        (tokens[before]?.map (·.span.line) = some token.span.line)), _)
      cases tokens[before]? <;> simp

theorem continuesLine_other (hhead : tokens[s.cursor]? = some token)
    (hkind : ¬(token.kind = .symbol .leftBracket ∨ token.kind = .symbol .leftParen)) :
    continuesLine tokens s = some (.ok true, s) := by
  rw [continuesLine, peek_run, hhead]
  simp only [if_neg hkind]
  rfl

/-- Where nothing continues a value, the machine does not move. -/
theorem accessor_stops (hstops : (Cursor.behind tokens s.cursor).Stops 7) (required : Bool) :
    accessor callees required tokens s = (noMatch required : Recogniser Accessor) tokens s := by
  rw [accessor]
  cases hhead : tokens[s.cursor]? with
  | none =>
      rw [bind_run (continuesLine_none hhead)]
      rfl
  | some token =>
      by_cases hkind : token.kind = .symbol .leftBracket ∨ token.kind = .symbol .leftParen
      · have hline : (Cursor.behind tokens s.cursor).line ≠ some token.span.line := by
          rcases hstops token (by simpa using hhead) with hstrength | ⟨-, hline⟩
          · rcases hkind with hkind | hkind <;> rw [hkind] at hstrength <;>
              exact absurd hstrength (by decide)
          · exact hline
        rw [bind_run (continuesLine_enclosing hhead hkind), decide_eq_false hline]
        rfl
      · have hdot : token.kind ≠ .symbol .dot := by
          intro hdot
          rcases hstops token (by simpa using hhead) with hstrength | ⟨henclosing, -⟩
          · rw [hdot] at hstrength
            exact absurd hstrength (by decide)
          · exact hkind henclosing.symm
        rw [bind_run (continuesLine_other hhead hkind), if_pos rfl]
        refine attempt_noMatch ?_
        rw [part, peekKind_run, hhead, Option.map_some]
        refine congrFun (congrFun (f := _) (g := noMatch required) ?_ tokens) s
        split
        next hbracket => exact absurd (.inl (Option.some.inj hbracket)) hkind
        next hother => exact absurd (Option.some.inj hother) hdot
        next hparen => exact absurd (.inr (Option.some.inj hparen)) hkind
        rfl

end Lines

/-- An access that is there, on the line of the value. -/
theorem performs_accessor {rule : Rule Accessor}
    (h : Performs depth k (part callees false) (Rule.advance >>= fun _ => rule))
    (hcontinues : continuesLine tokens ⟨k, depth⟩ = some (.ok true, ⟨k, depth⟩))
    (hcommits : rule.Commits) : Performs depth k (optional (accessor callees))
      (Rule.advance >>= fun _ => rule >>= fun accessor => pure (some accessor)) :=
  (h.attempt.congr (bind_run hcontinues _) rfl).begun hcommits

section Parts

variable {token : Token} (hhead : tokens[k.val]? = some token)
include hhead

theorem performs_member (hkind : token.kind = .symbol .dot) :
    Performs depth k (part callees false) (Rule.advance >>= fun _ =>
      Rule.name .memberName >>= fun name => pure (Accessor.member name)) := by
  refine ((Performs.advance hhead).bind fun _ _ => (Performs.name _).andReturn _).congr ?_ rfl
  rw [part, peekKind_run, hhead, Option.map_some, hkind]

theorem performs_call (h : Performed tokens depth callees deeper)
    (hkind : token.kind = .symbol .leftParen) :
    Performs depth k (part callees false) (Rule.advance >>= fun _ =>
      Grammar.elements? deeper .call >>= fun args =>
      Rule.expect (.symbol .rightParen) .callClose >>= fun _ =>
      pure (Accessor.call (args.getD []))) := by
  refine ((Performs.advance hhead).bind fun _ k => (performs_elements? h _ k).bind fun _ _ =>
    (Performs.expect _ _).andReturn _).congr ?_ rfl
  rw [part, peekKind_run, hhead, Option.map_some, hkind]

theorem performs_index (h : Performed tokens depth callees deeper)
    (hkind : token.kind = .symbol .leftBracket) :
    Performs depth k (part callees false) (Rule.advance >>= fun _ =>
      Rule.because .indexValue (deeper.expr true) >>= fun index =>
      Rule.expect (.symbol .rightBracket) .indexClose >>= fun _ =>
      pure (Accessor.index index)) := by
  refine ((Performs.advance hhead).bind fun _ k => ((h.expr true k).because _).bind fun _ _ =>
    (Performs.expect _ _).andReturn _).congr ?_ rfl
  rw [part, peekKind_run, hhead, Option.map_some, hkind]

end Parts

theorem performs_accessor? (h : Performed tokens depth callees deeper) (k : Mark tokens) :
    Performs depth k (optional (accessor callees)) (Grammar.accessor? deeper) := by
  by_cases hstops : (Cursor.behind tokens k).Stops 7
  · exact (Performs.missing (accessor_stops hstops false)).congr rfl
      (Grammar.accessor?_stops deeper hstops)
  · obtain ⟨token, hhead, htoken⟩ := Grammar.exists_of_not_stops hstops
    have hhere := (Cursor.head?_behind tokens k).symm.trans hhead
    rcases htoken with hkind | ⟨hkind | hkind, hline⟩
    · have hcontinues : continuesLine tokens ⟨k, depth⟩ = some (.ok true, ⟨k, depth⟩) :=
        continuesLine_other hhere (by simp [hkind])
      refine (performs_accessor (performs_member hhere hkind) hcontinues
        ((Rule.Commits.name _).andReturn _)).congr rfl ?_
      rw [Grammar.accessor?_member hhead hkind]
      simp only [bind_assoc, pure_bind]
    · have hcontinues := continuesLine_enclosing (s := ⟨k, depth⟩) hhere (.inr hkind)
      rw [decide_eq_true hline] at hcontinues
      refine (performs_accessor (performs_call hhere h hkind) hcontinues
        ((Grammar.commits_elements? _).bind fun _ =>
          (Rule.Commits.expect _ _).andReturn _)).congr rfl ?_
      rw [Grammar.accessor?_call hhead hkind hline]
      simp only [bind_assoc, pure_bind]
    · have hcontinues := continuesLine_enclosing (s := ⟨k, depth⟩) hhere (.inl hkind)
      rw [decide_eq_true hline] at hcontinues
      refine (performs_accessor (performs_index hhere h hkind) hcontinues
        ((Rule.Commits.because _ _).bind fun _ =>
          (Rule.Commits.expect _ _).andReturn _)).congr rfl ?_
      rw [Grammar.accessor?_index hhead hkind hline]
      simp only [bind_assoc, pure_bind]

theorem performs_accessors (h : Performed tokens depth callees deeper) (k : Mark tokens) :
    Performs depth k (accessors callees) (Rule.many (Grammar.accessor? deeper)) :=
  .many h.rounds (performs_accessor? h) (fun _ _ _ => Rule.length_lt_of_foresees
    (Grammar.foresees_accessor? h.foreseen)) k

theorem performs_access (h : Performed tokens depth callees deeper) (required : Bool)
    (k : Mark tokens) :
    Performs depth k (access callees required) (Grammar.access deeper required) :=
  .attempt <| (performs_value h required k).bind fun _ k => (performs_accessors h k).andReturn _

/-! ### Levels of expressions -/

theorem performs_primary (h : Performed tokens depth callees deeper) (required : Bool)
    (k : Mark tokens) :
    Performs depth k (primary callees required) (Grammar.primary deeper required) := by
  refine (performs_control? h k).bind fun found k => ?_
  cases found with
  | some control => exact .pure _
  | none => exact performs_access h required k

theorem performs_unary (h : Performed tokens depth callees deeper) (required : Bool)
    (k : Mark tokens) :
    Performs depth k (unary callees required) (Grammar.unary deeper required) := by
  refine .attempt (.peekKind ?_)
  cases hop : (tokens[k.val]?.map (·.kind)).bind Grammar.unaryOp? with
  | some op =>
      obtain ⟨kind, hkind, -⟩ := Option.bind_eq_some_iff.1 hop
      obtain ⟨token, hhead, -⟩ := Option.map_eq_some_iff.1 hkind
      exact (Performs.advance hhead).bind fun _ k => ((h.operand k).because _).andReturn _
  | none => exact performs_primary h required k

section Operators

variable {ω : Type} {operator? : Kind → Option ω} {operand : Bool → Recogniser Expr}
  {operand' : Bool → Rule Expr} {complaint : Complaint}

/-- A tail of operators and operands that may be missing. -/
theorem performs_tail {m : Bool → Recogniser (List α)} {items : Rule (List α)}
    (h : Performs depth k (optional m) (items >>= fun xs =>
      pure (if xs.isEmpty then none else some xs))) (f : List α → β) :
    Performs depth k (optional m >>= fun found => pure (f (found.getD [])))
      (items >>= fun xs => pure (f xs)) := by
  refine (h.andReturn fun found => f (found.getD [])).congr rfl ?_
  simp only [bind_assoc, pure_bind]
  refine congrFun (congrArg (items >>= ·) (funext fun xs => ?_)) _
  cases xs <;> rfl

theorem performs_operation (hoperand : ∀ required (k : Mark tokens),
      Performs depth k (operand required) (operand' required)) (k : Mark tokens) :
    Performs depth k (operation operator? operand complaint)
      (Grammar.operation operator? operand' complaint) := by
  refine .peekKind ?_
  cases hop : (tokens[k.val]?.map (·.kind)).bind operator? with
  | some op =>
      obtain ⟨kind, hkind, -⟩ := Option.bind_eq_some_iff.1 hop
      obtain ⟨token, hhead, -⟩ := Option.map_eq_some_iff.1 hkind
      exact (Performs.advance hhead).bind fun _ k => ((hoperand true k).because _).andReturn _
  | none => exact .pure none

theorem operation_none {c c' : Cursor}
    (h : Grammar.operation operator? operand' complaint c = .ok (none, c')) : c' = c := by
  rw [Grammar.operation, Rule.peekKind_run] at h
  cases hop : (c.rest.head?.map (·.kind)).bind operator? with
  | none =>
      rw [hop] at h
      cases h
      rfl
  | some op =>
      rw [hop] at h
      exact absurd h (Grammar.bind_some_ne_none _ _ c.advance)

theorem many_nil {item : Rule (Option α)} {c c' : Cursor}
    (hshorter : ∀ c x c', item c = .ok (some x, c') → c'.rest.length < c.rest.length)
    (h : Rule.many item c = .ok ([], c')) : item c = .ok (none, c') := by
  rw [Rule.many_eq hshorter] at h
  cases hrun : item c with
  | error rejection =>
      rw [Rule.bind_error hrun] at h
      cases h
  | ok found =>
      obtain ⟨found, c₁⟩ := found
      rw [Rule.bind_run hrun] at h
      cases found with
      | none =>
          cases h
          rfl
      | some x =>
          simp only at h
          cases hrest : Rule.many item c₁ with
          | error rejection =>
              rw [Rule.bind_error hrest] at h
              cases h
          | ok rest =>
              rw [Rule.bind_run hrest] at h
              cases h

section Binary

variable {strength rounds : Nat} (hrounds : tokens.length < rounds)
  (hoperator : ∀ {kind op}, operator? kind = some op → kind.strength = strength)
  (hpositive : 0 < strength) (hstrength : strength < 7)
  (hbounded : ∀ required c, (operand' required).Bounded c)
  (hoperand : ∀ required (k : Mark tokens),
    Performs depth k (operand required) (operand' required))
include hoperator hpositive hstrength hbounded

theorem operation_shorter (c : Cursor) (x : ω × Expr) (c' : Cursor)
    (h : Grammar.operation operator? operand' complaint c = .ok (some x, c')) :
    c'.rest.length < c.rest.length :=
  Rule.length_lt_of_foresees
    (Grammar.foresees_operation hoperator hpositive hstrength hbounded c) h

include hrounds hoperand

theorem performs_operations (k : Mark tokens) :
    Performs depth k (many rounds (operation operator? operand complaint))
      (Rule.many (Grammar.operation operator? operand' complaint)) :=
  .many hrounds (performs_operation hoperand)
    (operation_shorter hoperator hpositive hstrength hbounded) k

/-- A tail that is missing has moved nothing. -/
theorem performs_binaryTail (k : Mark tokens) :
    Performs depth k (optional (binaryTail rounds operator? operand complaint))
      (Rule.many (Grammar.operation operator? operand' complaint) >>= fun xs =>
        pure (if xs.isEmpty then none else some xs)) := by
  have htail : Performs depth k (binaryTail rounds operator? operand complaint false)
      (Rule.many (Grammar.operation operator? operand' complaint) >>= fun xs =>
        if xs.isEmpty then Rule.noMatch false else pure xs) :=
    .attempt <| (performs_operations hrounds hoperator hpositive hstrength hbounded hoperand k).bind
      fun xs _ => .ite (fun _ => .noMatch false) fun _ => .pure xs
  refine htail.optional.congr rfl ?_
  rw [Rule.optional]
  cases hrun : Rule.many (Grammar.operation operator? operand' complaint) (.behind tokens k) with
  | error rejection =>
      have hcommitted := Rule.Commits.many (Grammar.commits_operation _ _ _) _ rejection hrun
      rw [Rule.bind_error hrun, Rule.bind_error hrun]
      exact (if_pos hcommitted).symm
  | ok found =>
      obtain ⟨xs, c⟩ := found
      rw [Rule.bind_run hrun, Rule.bind_run hrun]
      cases xs with
      | cons x xs => rfl
      | nil =>
          cases operation_none
            (many_nil (operation_shorter hoperator hpositive hstrength hbounded) hrun)
          rfl

theorem performs_binary {node : Expr → List (ω × Expr) → Expr} (required : Bool)
    (k : Mark tokens) : Performs depth k (binary rounds operator? operand complaint node required)
      (Grammar.binary operator? operand' complaint node required) :=
  .attempt <| (hoperand required k).bind fun first k =>
    performs_tail (performs_binaryTail hrounds hoperator hpositive hstrength hbounded hoperand k)
      fun rest => if rest.isEmpty then first else node first rest

end Binary

/-! The loop over operands that a keyword joins takes the first one at once. -/

def operandsRule (keyword : Keyword) (rule : Rule Expr) : Rule (List Expr) := do
  let first ← rule
  let rest ← Rule.many (Rule.after (.keyword keyword) rule)
  return first :: rest

variable {keyword : Keyword} {rule : Rule Expr} {m : Recogniser Expr}

theorem operandsRule_eq (h : ∀ c, rule.Bounded c) : operandsRule keyword rule =
    (rule >>= fun first => Rule.accept (.keyword keyword) >>= fun found =>
      if found then operandsRule keyword rule >>= fun rest => pure (first :: rest)
      else pure [first]) := by
  rw [operandsRule]
  refine congrArg (rule >>= ·) (funext fun first => ?_)
  rw [Rule.many_bind_eq fun _ _ _ => Rule.length_lt_of_foresees (.after h), Rule.after_bind_eq]
  simp only [bind_assoc, pure_bind, Option.elim_none, Option.elim_some]

theorem performs_operands {rounds : Nat} (hbounded : ∀ c, rule.Bounded c)
    (h : ∀ k : Mark tokens, Performs depth k m rule) (k : Mark tokens)
    (hrounds : tokens.length - k.val < rounds) :
    Performs depth k (operands rounds keyword m) (operandsRule keyword rule) := by
  induction rounds generalizing k with
  | zero => exact absurd hrounds (Nat.not_lt_zero _)
  | succ rounds ih =>
      rw [operands, operandsRule_eq hbounded]
      refine (h k).bindAt fun first k₁ hfirst => ?_
      have hlt := ((hbounded _).mark_le hfirst).2 trivial
      refine (Performs.taken _).bindAt fun found k₂ hfound => .ite (fun _ => ?_) fun _ => .pure _
      have hle := ((Rule.Foresees.accept _).mark_le hfound).1
      have hk₂ := k₂.isLt
      exact (ih k₂ (by omega)).andReturn (first :: ·)

theorem performs_logicalTail {rounds : Nat} (hrounds : tokens.length < rounds)
    (hbounded : ∀ required c, (operand' required).Bounded c)
    (hoperand : ∀ required (k : Mark tokens),
      Performs depth k (operand required) (operand' required)) (k : Mark tokens) :
    Performs depth k (optional (logicalTail rounds keyword operand complaint))
      (Rule.many (Rule.after (.keyword keyword) (Rule.because complaint (operand' true))) >>=
        fun xs => pure (if xs.isEmpty then none else some xs)) := by
  by_cases hkind : tokens[k.val]?.map (·.kind) = some (.keyword keyword)
  · have htail : Performs depth k (logicalTail rounds keyword operand complaint false)
        (Rule.advance >>= fun _ =>
          operandsRule keyword (Rule.because complaint (operand' true))) :=
      .attempt <| .opened hkind fun k => performs_operands (fun c => (hbounded true c).because _)
        (fun k => (hoperand true k).because _) k (Nat.lt_of_le_of_lt (Nat.sub_le _ _) hrounds)
    have hcommits : (operandsRule keyword (Rule.because complaint (operand' true))).Commits :=
      (Rule.Commits.because _ _).bind fun _ =>
        (Rule.Commits.many (.after (.because _ _) _)).andReturn _
    refine (htail.begun hcommits).congr rfl ?_
    rw [Rule.many_bind_eq fun _ _ _ => Rule.length_lt_of_foresees (.after fun c =>
      (hbounded true c).because _), Rule.after_bind_eq, Rule.accept_bind, Rule.peekKind_run,
      Cursor.head?_behind, if_pos hkind]
    simp only [if_true, operandsRule, bind_assoc, pure_bind, Option.elim_some, List.isEmpty_cons,
      Bool.false_eq_true, if_false]
  · have hother : logicalTail rounds keyword operand complaint false tokens ⟨k, depth⟩ =
        (noMatch false : Recogniser (List Expr)) tokens ⟨k, depth⟩ :=
      attempt_noMatch (bind_error (token_other hkind false) _)
    refine (Performs.missing hother).congr rfl ?_
    refine Rule.bind_run (Rule.Repeats.nil (Rule.after_other ?_)).many _
    rwa [Cursor.head?_behind]

theorem performs_logical {rounds : Nat} (hrounds : tokens.length < rounds)
    {node : Expr → List Expr → Expr} (hbounded : ∀ required c, (operand' required).Bounded c)
    (hoperand : ∀ required (k : Mark tokens),
      Performs depth k (operand required) (operand' required)) (required : Bool) (k : Mark tokens) :
    Performs depth k (logical rounds keyword operand complaint node required)
      (Grammar.logical keyword operand' complaint node required) :=
  .attempt <| (hoperand required k).bind fun first k =>
    performs_tail (performs_logicalTail hrounds hbounded hoperand k)
      fun rest => if rest.isEmpty then first else node first rest

end Operators

section Levels

variable (h : Performed tokens depth callees deeper) (required : Bool) (k : Mark tokens)
include h

theorem performs_mul : Performs depth k (mul callees required) (Grammar.mul deeper required) :=
  performs_binary h.rounds Grammar.strength_of_mulOp? (by decide) (by decide)
    (Grammar.bounded_unary h.foreseen) (performs_unary h) required k

theorem performs_add : Performs depth k (add callees required) (Grammar.add deeper required) :=
  performs_binary h.rounds Grammar.strength_of_addOp? (by decide) (by decide)
    (Grammar.bounded_mul h.foreseen) (performs_mul h) required k

theorem performs_compare :
    Performs depth k (compare callees required) (Grammar.compare deeper required) :=
  performs_binary h.rounds Grammar.strength_of_compareOp? (by decide) (by decide)
    (Grammar.bounded_add h.foreseen) (performs_add h) required k

theorem performs_and : Performs depth k (and callees required) (Grammar.and deeper required) :=
  performs_logical h.rounds (Grammar.bounded_compare h.foreseen) (performs_compare h) required k

theorem performs_or : Performs depth k (or callees required) (Grammar.or deeper required) :=
  performs_logical h.rounds (Grammar.bounded_and h.foreseen) (performs_and h) required k

end Levels

/-! ### Statements -/

theorem performs_global (h : Performed tokens depth callees deeper)
    (hkind : tokens[k.val]?.map (·.kind) = some (.keyword .global)) :
    Performs depth k (global callees) (Rule.advance >>= fun _ => Grammar.global deeper) :=
  .opened hkind fun _ => (Performs.name _).bind fun _ _ => (Performs.expect _ _).bind fun _ k =>
    ((h.expr true k).because _).andReturn _

theorem performs_update? (h : Performed tokens depth callees deeper) (k : Mark tokens) :
    Performs depth k (optional (update callees)) (Grammar.update? deeper) := by
  unfold update Grammar.update?
  refine Performs.congr (.optionalKind ?_) (optional_attempt _) rfl
  cases hkind : tokens[k.val]?.map (·.kind) with
  | none => exact .missing rfl
  | some kind =>
      obtain ⟨token, hhead, -⟩ := Option.map_eq_some_iff.1 hkind
      have hvalue : ∀ f : Expr → Update, Performs depth k
          (optional fun _ => advance >>= fun _ => because .assignValue (callees.expr true) >>=
            fun value => pure (f value))
          (Rule.advance >>= fun _ => Rule.because .assignValue (deeper.expr true) >>=
            fun value => pure (some (f value))) := by
        intro f
        have hcommits : (Rule.because .assignValue (deeper.expr true) >>= fun value =>
            pure (f value)).Commits := (Rule.Commits.because _ _).andReturn f
        have hassigns : Performs depth k (advance >>= fun _ =>
            because .assignValue (callees.expr true) >>= fun value => pure (f value))
            (Rule.advance >>= fun _ => Rule.because .assignValue (deeper.expr true) >>= fun value =>
              pure (f value)) :=
          (Performs.advance hhead).bind fun _ k => ((h.expr true k).because _).andReturn f
        simpa only [bind_assoc, pure_bind] using hassigns.begun hcommits
      cases kind with
      | symbol mark =>
          cases mark with
          | assign => exact hvalue .set
          | addAssign => exact hvalue .addTo
          | subAssign => exact hvalue .subFrom
          | increment => exact ((Performs.advance hhead).andReturn _).begun (.pure _)
          | decrement => exact ((Performs.advance hhead).andReturn _).begun (.pure _)
          | _ => exact .missing rfl
      | _ => exact .missing rfl

theorem performs_inner (h : Performed tokens depth callees deeper) (required : Bool)
    (k : Mark tokens) :
    Performs depth k (inner callees required) (Grammar.expr deeper required) := by
  rw [Grammar.expr, Rule.accept_bind]
  simp only [if_true, Bool.false_eq_true, if_false]
  refine .attempt (.peekKind (.ite (performs_global h) fun _ => ?_))
  refine (performs_control? h k).bind fun found k => ?_
  cases found with
  | some control => exact .pure _
  | none =>
      refine .peekSpan ((performs_or h required k).bind fun left k => ?_)
      refine (performs_update? h k).bind fun found k => ?_
      cases found with
      | none => exact .pure left
      | some update =>
          simp only
          cases Grammar.target? left with
          | some target => exact .pure _
          | none => exact .throw _

/-! ### Nested calls -/

theorem performs_nested {construct : Construct} {m : Recogniser Expr} {rule : Rule Expr}
    (hdepth : depth < Grammar.maxDepth) (h : Performs (depth + 1) k m rule) :
    Performs depth k (nested construct m) rule := by
  cases h with
  | ok hfound hrun => exact .ok hfound (nested_run hdepth hrun)
  | error hfails hrun => exact .error hfails (nested_run hdepth hrun)

theorem performs_tooDeep {construct : Construct} {m : Recogniser Expr}
    (hdepth : Grammar.maxDepth ≤ depth) :
    Performs depth k (nested construct m) (Grammar.tooDeep construct) := by
  have hreject : Performs depth k
      (peekSpan >>= fun span => rejectAt span (.nestedTooDeeply construct))
      (Grammar.tooDeep construct) := .peekSpan (.throw _)
  refine hreject.congr ?_ rfl
  rw [nested, if_pos hdepth]

/-- Room for one call more than there are levels left is room enough. -/
theorem performed_calls {rounds room depth : Nat} (hrounds : tokens.length < rounds)
    (hroom : Grammar.maxDepth - depth < room) :
    Performed tokens depth (calls rounds room) (Grammar.nested (Grammar.maxDepth - depth)) := by
  induction room generalizing depth with
  | zero => exact absurd hroom (Nat.not_lt_zero _)
  | succ room ih =>
      by_cases hdepth : depth < Grammar.maxDepth
      · have hlevels : Grammar.maxDepth - depth = Grammar.maxDepth - (depth + 1) + 1 := by omega
        have hinner : Performed tokens (depth + 1) (calls rounds room)
            (Grammar.nested (Grammar.maxDepth - (depth + 1))) := ih (by omega)
        rw [hlevels]
        exact ⟨hrounds, Grammar.foreseen_nested _,
          fun required k => performs_nested hdepth (performs_inner hinner required k),
          fun k => performs_nested hdepth (performs_unary hinner true k)⟩
      · have hlimit := Nat.le_of_not_lt hdepth
        rw [Nat.sub_eq_zero_of_le hlimit]
        exact ⟨hrounds, Grammar.foreseen_nested _, fun _ _ => performs_tooDeep hlimit,
          fun _ => performs_tooDeep hlimit⟩

/-! ### Loops -/

/-- The loops of the machine. -/
inductive IsLoop (callees : Callees) : {α : Type} → Recogniser α → Prop where
  | statements : IsLoop callees (statements callees)
  | elifs : IsLoop callees (many callees.rounds (after (.keyword .elif) (branch callees "elif")))
  | params : IsLoop callees (many callees.rounds (after (.symbol .comma) (name .funcParam)))
  | others (construct : Construct) : IsLoop callees (others callees construct)
  | entries : IsLoop callees (entries callees.rounds (entry callees))
  | accessors : IsLoop callees (accessors callees)
  | products : IsLoop callees
      (many callees.rounds (operation Grammar.mulOp? (unary callees) .mulOperand))
  | sums : IsLoop callees
      (many callees.rounds (operation Grammar.addOp? (mul callees) .addOperand))
  | comparisons : IsLoop callees
      (many callees.rounds (operation Grammar.compareOp? (add callees) .compareOperand))
  | ands : IsLoop callees
      (operands callees.rounds .and (because .andOperand (compare callees true)))
  | ors : IsLoop callees (operands callees.rounds .or (because .orOperand (and callees true)))

theorem IsLoop.performs {loop : Recogniser α} (hloop : IsLoop callees loop)
    (h : Performed tokens depth callees deeper) (k : Mark tokens) :
    ∃ rule, Performs depth k loop rule := by
  cases hloop with
  | statements => exact ⟨_, performs_statements h k⟩
  | elifs => exact ⟨_, performs_elifs h k⟩
  | params => exact ⟨_, performs_params h k⟩
  | others construct => exact ⟨_, performs_others h construct k⟩
  | entries => exact ⟨_, performs_entries h k (h.rounds_left k)⟩
  | accessors => exact ⟨_, performs_accessors h k⟩
  | products =>
      exact ⟨_, performs_operations h.rounds Grammar.strength_of_mulOp? (by decide) (by decide)
        (Grammar.bounded_unary h.foreseen) (performs_unary h) k⟩
  | sums =>
      exact ⟨_, performs_operations h.rounds Grammar.strength_of_addOp? (by decide) (by decide)
        (Grammar.bounded_mul h.foreseen) (performs_mul h) k⟩
  | comparisons =>
      exact ⟨_, performs_operations h.rounds Grammar.strength_of_compareOp? (by decide) (by decide)
        (Grammar.bounded_add h.foreseen) (performs_add h) k⟩
  | ands =>
      exact ⟨_, performs_operands (fun c => (Grammar.bounded_compare h.foreseen true c).because _)
        (fun k => (performs_compare h true k).because _) k (h.rounds_left k)⟩
  | ors =>
      exact ⟨_, performs_operands (fun c => (Grammar.bounded_and h.foreseen true c).because _)
        (fun k => (performs_and h true k).because _) k (h.rounds_left k)⟩

end Rules

/-! ### Calls from outside -/

/-- How a call ends. It fails where the rule fails, and then cursor and depth are as before. Or it
matches what the rule matches, then the depth is as before and the cursor has passed a number of
tokens at least, but not the end. -/
inductive Keeps (tokens : List Token) (s : Standing) (least : Nat) (m : Recogniser α)
    (rule : Rule α) : Prop where
  | failed {rejection : Rejection} (hrule : rule (.behind tokens s.cursor) = .error rejection)
      (hrun : m tokens s = some (.error rejection, s)) : Keeps tokens s least m rule
  | matched {x : α} {cursor : Nat}
      (hrule : rule (.behind tokens s.cursor) = .ok (x, .behind tokens cursor))
      (hrun : m tokens s = some (.ok x, ⟨cursor, s.depth⟩)) (hleast : s.cursor + least ≤ cursor)
      (hend : cursor ≤ tokens.length) : Keeps tokens s least m rule

/-- A failure puts the cursor back. -/
def Rewinds (m : Recogniser α) : Prop :=
  ∀ tokens s rejection s', m tokens s = some (.error rejection, s') → s'.cursor = s.cursor

theorem rewinds_attempt (m : Recogniser α) : (attempt m).Rewinds := by
  intro tokens s rejection s' hrun
  rw [attempt] at hrun
  split at hrun
  next hfails =>
    cases hrun
    rfl
  next hother => exact absurd hrun (hother rejection s')

theorem Rewinds.nested {m : Recogniser α} (h : m.Rewinds) (construct : Construct) :
    (nested construct m).Rewinds := by
  intro tokens s rejection s' hrun
  rw [Recogniser.nested] at hrun
  split at hrun
  · cases hrun
    rfl
  · split at hrun
    next result s₁ hm =>
      cases hrun
      exact (h tokens { s with depth := s.depth + 1 } rejection s₁ hm :)
    next => cases hrun

theorem rewinds_expr (rounds room : Nat) (required : Bool) :
    (expr rounds room required).Rewinds := by
  cases room with
  | zero =>
      intro tokens s rejection s' hrun
      cases hrun
  | succ room => exact (rewinds_attempt _).nested .expression

theorem Performs.keeps {m : Recogniser α} {rule : Rule α} {k : Mark tokens} {depth least : Nat}
    (h : Performs depth k m rule) (hrewinds : m.Rewinds)
    (hleast : ∀ x (k' : Mark tokens), rule (.behind tokens k) = .ok (x, .behind tokens k') →
      k.val + least ≤ k'.val) : Keeps tokens ⟨k, depth⟩ least m rule := by
  cases h with
  | error hfails hrun =>
      cases hrewinds _ _ _ _ hrun
      exact .failed hfails hrun
  | ok hfound hrun =>
      exact .matched hfound hrun (hleast _ _ hfound) (Nat.le_of_lt_succ (Fin.isLt _))

section Outside

variable {k : Mark tokens} {rounds room depth : Nat} (hrounds : tokens.length < rounds)
  (hroom : Grammar.maxDepth - depth < room)
include hrounds hroom

theorem keeps_expr (required : Bool) : Keeps tokens ⟨k, depth⟩ 1 (expr rounds room required)
    ((Grammar.nested (Grammar.maxDepth - depth)).expr required) := by
  have h := performed_calls hrounds hroom
  refine (h.expr required k).keeps (rewinds_expr rounds room required) fun x k' hrun => ?_
  exact ((h.foreseen.expr required _).mark_le hrun).2 trivial

theorem keeps_program : Keeps tokens ⟨k, depth⟩ 0 (program rounds room)
    (Grammar.statements (Grammar.nested (Grammar.maxDepth - depth))) := by
  have h := performed_calls hrounds hroom
  refine (performs_statements h k).attempt.keeps (rewinds_attempt _) fun x k' hrun => ?_
  exact ((Grammar.foresees_statements h.foreseen).mark_le hrun).1

theorem IsLoop.ends {loop : Recogniser α} (hloop : IsLoop (calls rounds room) loop) :
    ∃ outcome, loop tokens ⟨k, depth⟩ = some outcome := by
  obtain ⟨rule, hperforms⟩ := hloop.performs (performed_calls hrounds hroom) k
  cases hperforms with
  | ok _ hrun => exact ⟨_, hrun⟩
  | error _ hrun => exact ⟨_, hrun⟩

end Outside

/-- The programs are those that the machine takes to the end of their tokens. -/
theorem parse_eq_ok_iff_program {program : Block} : parse tokens = .ok program ↔
    Recogniser.program (tokens.length + 1) (Grammar.maxDepth + 1) tokens ⟨0, 0⟩ =
      some (.ok program, ⟨tokens.length, 0⟩) := by
  rw [parse_eq_ok_iff, ← Cursor.behind_zero]
  have hkeeps : Keeps tokens ⟨0, 0⟩ 0
      (Recogniser.program (tokens.length + 1) (Grammar.maxDepth + 1)) Rule.program :=
    keeps_program (k := 0) (Nat.lt_succ_self _) (Nat.lt_succ_self _)
  cases hkeeps with
  | failed hrule hrun =>
      rw [hrule, hrun]
      simp
  | @matched found cursor hrule hrun hleast hend =>
      rw [hrule, hrun]
      constructor
      · rintro ⟨line, hfound⟩
        obtain ⟨rfl, hcursor⟩ := Prod.mk.inj (Except.ok.inj hfound)
        have hlength : tokens.length ≤ cursor :=
          List.drop_eq_nil_iff.1 (congrArg Cursor.rest hcursor)
        rw [Nat.le_antisymm hend hlength]
      · intro hfound
        cases hfound
        exact ⟨_, congrArg (fun rest => Except.ok (_, Cursor.mk _ rest)) List.drop_length⟩

/-- From every place and at every depth, an expression and a program are recognised. Loops take no
more than one round for each token and one more, and nested calls go no deeper than the levels that
are left and one more. What comes out is what the rules say, a failure leaves cursor and depth as
they were, and an expression takes a token at least. -/
theorem keeps_standing (tokens : List Token) (s : Standing) (hcursor : s.cursor ≤ tokens.length)
    (rounds room : Nat) (hrounds : tokens.length < rounds)
    (hroom : Grammar.maxDepth - s.depth < room) :
    (∀ required, Keeps tokens s 1 (expr rounds room required)
      ((Grammar.nested (Grammar.maxDepth - s.depth)).expr required)) ∧
    Keeps tokens s 0 (program rounds room)
      (Grammar.statements (Grammar.nested (Grammar.maxDepth - s.depth))) ∧
    ∀ {α : Type} (loop : Recogniser α), IsLoop (calls rounds room) loop →
      ∃ outcome, loop tokens s = some outcome := by
  obtain ⟨cursor, depth⟩ := s
  let k : Mark tokens := ⟨cursor, Nat.lt_succ_of_le hcursor⟩
  exact ⟨keeps_expr (k := k) hrounds hroom, keeps_program (k := k) hrounds hroom,
    fun _ hloop => hloop.ends (k := k) hrounds hroom⟩

/-- A name is missing after `global`, which was already taken. -/
theorem keeps_standing_global :
    let tokens : List Token := [⟨.keyword .global, none, default⟩]
    0 ≤ tokens.length ∧ tokens.length < 2 ∧ Grammar.maxDepth - 3 < 62 ∧
      expr 2 62 true tokens ⟨0, 3⟩ =
        some (.error ⟨true, true, some .globalName, none⟩, ⟨0, 3⟩) := by
  intro tokens
  have hcursor : 0 ≤ tokens.length := by decide
  have hrounds : tokens.length < 2 := by decide
  have hroom : Grammar.maxDepth - 3 < 62 := by decide
  have hrule : (Grammar.nested (Grammar.maxDepth - 3)).expr true (.behind tokens 0) =
      .error ⟨true, true, some .globalName, none⟩ := rfl
  refine ⟨hcursor, hrounds, hroom, ?_⟩
  cases (keeps_standing tokens ⟨0, 3⟩ hcursor 2 62 hrounds hroom).1 true with
  | failed hfails hrun =>
      cases hrule.symm.trans hfails
      exact hrun
  | matched hfound => cases hrule.symm.trans hfound

end Recogniser

end TableScript
