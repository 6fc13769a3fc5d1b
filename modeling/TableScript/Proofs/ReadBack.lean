import TableScript.Proofs.Precedence

/-!
A program that is written out with parentheses is read back as it was. Each rule is run on the layout
of what it reads; what is nested deeper is read by rules with one level less, so that the argument
goes by induction on the number of levels.
-/

namespace TableScript

open Rule Layout

namespace Grammar

variable {style : Style} {deeper : Nested} {levels n m : Nat} {c c' : Cursor} {required : Bool}
  {e : Expr}

/-- The rules for what is nested deeper read back what has that number of levels at most. -/
structure ReadsBack (style : Style) (deeper : Nested) (levels : Nat) : Prop where
  slot : ∀ {e n c m c'} (wrapped required : Bool), e.Everywhere (Expr.Writable style) →
    (slot wrapped (e.layout style)).levels ≤ levels →
    (slot wrapped (e.layout style)).Covers n c m c' → c'.Stops 1 →
    deeper.expr required c = .ok (e, c')
  operand : ∀ {e n c m c'}, e.Everywhere (Expr.Writable style) →
    (nest (quoted (e.layout style))).levels ≤ levels →
    (nest (quoted (e.layout style))).Covers n c m c' → c'.Stops 7 →
    deeper.operand c = .ok (e, c')
  absent : ∀ {c}, 0 < levels → Closed c →
    ∃ rejection, deeper.expr false c = .error rejection ∧ rejection.committed = false

/-! ### Parentheses -/

theorem quoted_line {inner : Layout} (h : (quoted inner).Covers n c m c') : c'.line = some m := by
  obtain ⟨_, _, -, _, _, -, _, _, hright, rfl, rfl⟩ := h
  exact hright.line

theorem quoted_plain {inner : Layout} (h : (quoted inner).Covers n c m c') : Plain c := by
  obtain ⟨_, _, hleft, -⟩ := h
  exact plain_of_word hleft rfl

theorem value_quoted (h : ReadsBack style deeper levels) (he : e.Everywhere (Expr.Writable style))
    (hlevels : (quoted (e.layout style)).levels ≤ levels)
    (hcovers : (quoted (e.layout style)).Covers n c m c') :
    value deeper required c = .ok (e, c') := by
  obtain ⟨k₁, c₁, hleft, k₂, c₂, hinner, k₃, c₃, hright, rfl, rfl⟩ := hcovers
  have hslot : (slot false (e.layout style)).levels ≤ levels := by
    simpa [quoted, slot] using hlevels
  have hrun : deeper.expr true c₁ = .ok (e, c₂) :=
    h.slot false true he hslot hinner (.of_word hright (by decide))
  rw [value, bind_run (literal?_other hleft (.inl rfl))]
  simp only
  rw [peekKind_run, hleft.head_kind]
  simp only
  rw [advance_run hleft, quote, bind_run (because_run hrun _), bind_run (expect_run hright _)]
  rfl

theorem unary_quoted (h : ReadsBack style deeper levels) (he : e.Everywhere (Expr.Writable style))
    (hlevels : (quoted (e.layout style)).levels ≤ levels)
    (hcovers : (quoted (e.layout style)).Covers n c m c') (hstops : c'.Stops 7) :
    unary deeper required c = .ok (e, c') := by
  have hop : (c.rest.head?.map (·.kind)).bind unaryOp? = none := by
    obtain ⟨_, _, hleft, -⟩ := hcovers
    rw [hleft.head_kind]
    rfl
  exact unary_of_access (quoted_plain hcovers) hop
    (access_of_value (value_quoted h he hlevels hcovers) hstops)

/-! ### Operators -/

theorem many_operations {ω : Type} {operator? : Kind → Option ω} {operand : Bool → Rule Expr}
    {kind : ω → Kind} {strength : Nat} {rest : List (ω × Expr)}
    (hkind : ∀ op, operator? (kind op) = some op)
    (hoperator : ∀ {kind op}, operator? kind = some op → kind.strength = strength)
    (hstrength : strength < 7)
    (hoperand : ∀ pair ∈ rest, ∀ n c m c', (quoted (pair.2.layout style)).Covers n c m c' →
      c'.Stops (strength + 1) → operand true c = .ok (pair.2, c'))
    (hcovers : (row (rest.map (operationLayout style kind))).Covers n c m c')
    (hstops : c'.Stops strength) (complaint : Complaint) :
    many (operation operator? operand complaint) c = .ok (rest, c') := by
  refine many_row (P := fun _ c => c.Stops (strength + 1)) (Q := fun _ _ => True) ?_ ?_ ?_ hcovers
    trivial (hstops.mono (Nat.le_succ _)) (operation_stops hoperator hstrength hstops)
  · rintro ⟨op, e⟩ hpair n c m c' - ⟨k, c₁, hop, k', c₂, hquoted, rfl, rfl⟩ hnext
    have hrun := hoperand ⟨op, e⟩ hpair _ _ _ _ hquoted hnext
    rw [operation, peekKind_run, hop.head_kind, Option.bind_some, hkind op]
    simp only
    rw [advance_run hop, bind_run (because_run hrun _)]
    exact ⟨rfl, trivial⟩
  · rintro ⟨op, e⟩ - n c m c' ⟨k, c₁, hop, -⟩
    exact .of_word hop (by rw [hoperator (hkind op)]; exact Nat.lt_succ_self _)
  · exact fun _ _ => size_row_pos _ _

theorem many_logical {keyword : Keyword} {operand : Bool → Rule Expr} {rest : List Expr}
    (hstrength : (Kind.keyword keyword).strength < 7)
    (hoperand : ∀ e ∈ rest, ∀ n c m c', (quoted (e.layout style)).Covers n c m c' →
      c'.Stops ((Kind.keyword keyword).strength + 1) → operand true c = .ok (e, c'))
    (hcovers : (row (rest.map fun e => led (.keyword keyword) (quoted (e.layout style)))).Covers
      n c m c') (hstops : c'.Stops (Kind.keyword keyword).strength) (complaint : Complaint) :
    many (after (.keyword keyword) (because complaint (operand true))) c = .ok (rest, c') := by
  refine many_row (P := fun _ c => c.Stops ((Kind.keyword keyword).strength + 1))
    (Q := fun _ _ => True) ?_ ?_ ?_ hcovers trivial (hstops.mono (Nat.le_succ _))
    (after_other (hstops.ne (Nat.le_refl _) hstrength))
  · rintro e he n c m c' - ⟨k, c₁, hop, k', c₂, hquoted, rfl, rfl⟩ hnext
    exact ⟨after_run hop (because_run (hoperand e he _ _ _ _ hquoted hnext) _), trivial⟩
  · rintro e - n c m c' ⟨k, c₁, hop, -⟩
    exact .of_word hop (Nat.lt_succ_self _)
  · exact fun _ _ => size_row_pos _ _

theorem binary_run {ω : Type} {operator? : Kind → Option ω} {operand : Bool → Rule Expr}
    {complaint : Complaint} {kind : ω → Kind} {strength : Nat} {node : Expr → List (ω × Expr) → Expr}
    {first : Expr} {rest : List (ω × Expr)} (hkind : ∀ op, operator? (kind op) = some op)
    (hoperator : ∀ {kind op}, operator? kind = some op → kind.strength = strength)
    (hstrength : strength < 7)
    (hoperand : ∀ e ∈ first :: rest.map (·.2), ∀ required n c m c',
      (quoted (e.layout style)).Covers n c m c' → c'.Stops (strength + 1) →
      operand required c = .ok (e, c'))
    (hsome : rest ≠ [])
    (hcovers : (row (quoted (first.layout style) :: rest.map (operationLayout style kind))).Covers
      n c m c') (hstops : c'.Stops strength) :
    binary operator? operand complaint node required c = .ok (node first rest, c') := by
  rw [List.forall_mem_cons, List.forall_mem_map] at hoperand
  obtain ⟨k, c₁, hfirst, hrest⟩ := hcovers
  cases rest with
  | nil => exact absurd rfl hsome
  | cons pair rest =>
      have hnext : c₁.Stops (strength + 1) := by
        obtain ⟨_, _, ⟨_, _, hop, -⟩, -⟩ := hrest
        exact .of_word hop (by rw [hoperator (hkind _)]; exact Nat.lt_succ_self _)
      have hrestRun := many_operations hkind hoperator hstrength
        (fun pair hpair => hoperand.2 pair hpair true) hrest hstops
      rw [binary, bind_run (hoperand.1 required n c k c₁ hfirst hnext), bind_run (hrestRun complaint)]
      rfl

theorem logical_run {keyword : Keyword} {operand : Bool → Rule Expr} {complaint : Complaint}
    {node : Expr → List Expr → Expr} {first : Expr} {rest : List Expr}
    (hstrength : (Kind.keyword keyword).strength < 7)
    (hoperand : ∀ e ∈ first :: rest, ∀ required n c m c',
      (quoted (e.layout style)).Covers n c m c' → c'.Stops ((Kind.keyword keyword).strength + 1) →
      operand required c = .ok (e, c'))
    (hsome : rest ≠ [])
    (hcovers : (row (quoted (first.layout style) ::
      rest.map fun e => led (.keyword keyword) (quoted (e.layout style)))).Covers n c m c')
    (hstops : c'.Stops (Kind.keyword keyword).strength) :
    logical keyword operand complaint node required c = .ok (node first rest, c') := by
  rw [List.forall_mem_cons] at hoperand
  obtain ⟨k, c₁, hfirst, hrest⟩ := hcovers
  cases rest with
  | nil => exact absurd rfl hsome
  | cons e rest =>
      have hnext : c₁.Stops ((Kind.keyword keyword).strength + 1) := by
        obtain ⟨_, _, ⟨_, _, hop, -⟩, -⟩ := hrest
        exact .of_word hop (Nat.lt_succ_self _)
      have hrestRun := many_logical hstrength (fun e he => hoperand.2 e he true) hrest hstops
      rw [logical, bind_run (hoperand.1 required n c k c₁ hfirst hnext), bind_run (hrestRun complaint)]
      rfl

/-! ### Rows of expressions -/

/-- Where nothing is looked for, nothing is found. -/
theorem optional_closed (h : ReadsBack style deeper levels) (hlevels : 0 < levels)
    (hclosed : Closed c) : optional (deeper.expr false) c = .ok (none, c) := by
  obtain ⟨rejection, hrun, hcommitted⟩ := h.absent hlevels hclosed
  exact optional_absent hrun hcommitted

/-- Before more parts with commas, or before the bracket that closes them, a part ends. -/
theorem stops_of_commas {parts : List Layout}
    (h : (row (parts.map (led (.symbol .comma)))).Covers n c m c') (hclosed : Closed c') :
    c.Stops 1 := by
  cases parts with
  | nil =>
      obtain ⟨rfl, rfl⟩ := h
      exact hclosed.stops
  | cons part parts =>
      obtain ⟨_, _, ⟨_, _, hcomma, -⟩, -⟩ := h
      exact .of_word hcomma (by decide)

theorem many_slots (h : ReadsBack style deeper levels) {wrapped : Bool} {complaint : Complaint}
    {es : List Expr} (he : ∀ e ∈ es, e.Everywhere (Expr.Writable style))
    (hlevels : ∀ e ∈ es, (slot wrapped (e.layout style)).levels ≤ levels)
    (hcovers : (row (es.map fun e => led (.symbol .comma) (slot wrapped (e.layout style)))).Covers
      n c m c') (hclosed : Closed c') :
    many (after (.symbol .comma) (because complaint (deeper.expr true))) c = .ok (es, c') := by
  have hcomma : c'.rest.head?.map (·.kind) ≠ some (.symbol .comma) := by
    intro hkind
    rcases hclosed _ hkind with h | h | h <;> cases h
  refine many_row (P := fun _ c => c.Stops 1) (Q := fun _ _ => True) ?_ ?_ ?_ hcovers trivial
    hclosed.stops (after_other hcomma)
  · rintro e hmem n c m c' - ⟨k, c₁, hlead, k', c₂, hslot, rfl, rfl⟩ hnext
    have hrun := h.slot wrapped true (he e hmem) (hlevels e hmem) hslot hnext
    exact ⟨after_run hlead (because_run hrun _), trivial⟩
  · rintro e - n c m c' ⟨k, c₁, hlead, -⟩
    exact .of_word hlead (by decide)
  · exact fun _ _ => size_row_pos _ _

theorem elements?_run (h : ReadsBack style deeper levels) {wrapped : Bool} {es : List Expr}
    (he : ∀ e ∈ es, e.Everywhere (Expr.Writable style))
    (hlevels : (elements wrapped (es.map (Expr.layout style))).levels ≤ levels)
    (hcovers : (elements wrapped (es.map (Expr.layout style))).Covers n c m c')
    (hclosed : Closed c') (construct : Construct) :
    ∃ found, elements? deeper construct c = .ok (found, c') ∧ found.getD [] = es := by
  cases es with
  | nil =>
      obtain ⟨rfl, rfl⟩ := hcovers
      exact ⟨none, by rw [elements?, bind_run (optional_closed h hlevels hclosed)]; rfl, rfl⟩
  | cons e es =>
      rw [List.map_cons, elements, ← List.map_cons] at hcovers hlevels
      simp only [levels_separated_le, List.forall_mem_map, List.forall_mem_cons] at hlevels
      rw [List.forall_mem_cons] at he
      obtain ⟨k, c₁, hfirst, hrest⟩ := hcovers
      have hrun := h.slot wrapped false he.1 hlevels.1 hfirst (stops_of_commas hrest hclosed)
      refine ⟨some (e :: es), ?_, rfl⟩
      rw [elements?, bind_run (optional_run hrun)]
      rw [List.map_map, List.map_map] at hrest
      exact (bind_run (many_slots h he.2 hlevels.2 hrest hclosed) _).trans rfl

theorem statements_run (h : ReadsBack style deeper levels) (hlevels : 0 < levels) {es : Block}
    (he : ∀ e ∈ es, e.Everywhere (Expr.Writable style))
    (hes : ∀ e ∈ es, (slot true (e.layout style)).levels ≤ levels)
    (hcovers : (row (es.map fun e => statement (e.layout style))).Covers n c m c')
    (hclosed : Closed c') : statements deeper c = .ok (es, c') := by
  -- a statement ends where the next one begins on a later line
  refine many_row (P := fun n c => c.line = some n → c.Stops 1) (Q := fun _ _ => True) ?_ ?_ ?_
    hcovers trivial (fun _ => hclosed.stops) (optional_closed h hlevels hclosed)
  · rintro e hmem n c m c' - ⟨_, _, ⟨rfl, rfl⟩, k, c₁, hslot, rfl, rfl⟩ hnext
    have hrun := h.slot true false (he e hmem) (hes e hmem) hslot (hnext (quoted_line hslot))
    exact ⟨optional_run hrun, trivial⟩
  · rintro e - n c m c' ⟨_, _, ⟨rfl, rfl⟩, k, c₁, hslot, -⟩ hline token htoken
    obtain ⟨_, _, hleft, -⟩ := hslot
    obtain ⟨token', hhead, hkind, -, hplace⟩ := hleft.head
    cases hhead.symm.trans htoken
    refine .inr ⟨.inl hkind, ?_⟩
    rw [hline, hplace]
    simp
  · exact fun _ _ => size_statement_pos _

theorem block_run (h : ReadsBack style deeper levels) {es : Block}
    (he : ∀ e ∈ es, e.Everywhere (Expr.Writable style))
    (hlevels : (Layout.block (es.map (Expr.layout style))).levels ≤ levels)
    (hcovers : (Layout.block (es.map (Expr.layout style))).Covers n c m c')
    (construct : Construct) : Grammar.block deeper construct c = .ok (es, c') := by
  cases es with
  | nil =>
      obtain ⟨k₁, c₁, hleft, _, _, ⟨rfl, rfl⟩, k₂, c₂, hright, rfl, rfl⟩ := hcovers
      have hclosed := closed_of_word hright (.inr (.inr rfl))
      have hpos : 1 ≤ levels := by
        simpa [Layout.block, Layout.levels] using hlevels
      have hbody := (Repeats.nil (optional_closed h hpos hclosed)).many
      rw [Grammar.block, bind_run (expect_run hleft _), statements, bind_run hbody,
        bind_run (expect_run hright _)]
      rfl
  | cons e es =>
      rw [List.map_cons, Layout.block, ← List.map_cons] at hcovers hlevels
      obtain ⟨k₁, c₁, hleft, k₂, c₂, hbody, k₃, c₃, hright, rfl, rfl⟩ := hcovers
      rw [List.map_map] at hbody
      have hclosed := closed_of_word hright (.inr (.inr rfl))
      have hslots : ∀ e' ∈ e :: es, (slot true (e'.layout style)).levels ≤ levels := by
        simpa [statement, Layout.levels] using hlevels
      have hpos : 0 < levels := Nat.lt_of_lt_of_le (Nat.succ_pos _) (hslots e (by simp))
      rw [Grammar.block, bind_run (expect_run hleft _),
        bind_run (statements_run h hpos he hslots hbody hclosed), bind_run (expect_run hright _)]
      rfl

/-! ### Control flow -/

theorem slot_run (h : ReadsBack style deeper levels) {wrapped : Bool}
    (he : e.Everywhere (Expr.Writable style))
    (hlevels : (slot wrapped (e.layout style)).levels ≤ levels)
    (hcovers : (slot wrapped (e.layout style)).Covers n c m c') (hstops : c'.Stops 1)
    (complaint : Complaint) : because complaint (deeper.expr true) c = .ok (e, c') :=
  because_run (h.slot wrapped true he hlevels hcovers hstops) complaint

/-- An expression that a word leads to. -/
theorem led_run (h : ReadsBack style deeper levels) {wrapped : Bool} {lead : Kind}
    (he : e.Everywhere (Expr.Writable style))
    (hlevels : (led lead (slot wrapped (e.layout style))).levels ≤ levels)
    (hcovers : (led lead (slot wrapped (e.layout style))).Covers n c m c') (hstops : c'.Stops 1) :
    ∃ k c₁, (word ⟨lead, none⟩).Covers n c k c₁ ∧
      ∀ complaint, because complaint (deeper.expr true) c₁ = .ok (e, c') := by
  obtain ⟨k, c₁, hlead, _, _, hslot, rfl, rfl⟩ := hcovers
  exact ⟨k, c₁, hlead, slot_run h he (levels_led_le.1 hlevels) hslot hstops⟩

theorem block_stops {parts : List Layout} (h : (Layout.block parts).Covers n c m c') : c.Stops 1 := by
  cases parts <;> obtain ⟨_, _, hleft, -⟩ := h <;> exact .of_word hleft (by decide)

theorem block_head {parts : List Layout} (h : (Layout.block parts).Covers n c m c') :
    c.rest.head?.map (·.kind) = some (.symbol .leftBrace) := by
  cases parts <;> obtain ⟨_, _, hleft, -⟩ := h <;> exact hleft.head_kind

theorem branch_run (h : ReadsBack style deeper levels) {condition : Expr} {body : Block}
    (hcondition : condition.Everywhere (Expr.Writable style))
    (hbody : ∀ e ∈ body, e.Everywhere (Expr.Writable style))
    (hlevels : (branchLayout style (condition, body)).levels ≤ levels)
    (hcovers : (branchLayout style (condition, body)).Covers n c m c') (keyword : String) :
    branch deeper keyword c = .ok ((condition, body), c') := by
  obtain ⟨k₁, c₁, hslot, k₂, c₂, hblock, rfl, rfl⟩ := hcovers
  simp only [branchLayout, levels_row_le, List.forall_mem_cons] at hlevels
  have hrun := slot_run h hcondition hlevels.1 hslot (block_stops hblock)
  rw [branch, Grammar.condition, bind_run (hrun _), bind_run (block_run h hbody hlevels.2.1 hblock _)]
  rfl

theorem many_branches (h : ReadsBack style deeper levels) {rest : List (Expr × Block)}
    (he : ∀ branch ∈ rest, ∀ e ∈ branch.1 :: branch.2, e.Everywhere (Expr.Writable style))
    (hlevels : ∀ branch ∈ rest, (branchLayout style branch).levels ≤ levels)
    (hcovers : (row (rest.map fun branch => led (.keyword .elif) (branchLayout style branch))).Covers
      n c m c') (hother : c'.rest.head?.map (·.kind) ≠ some (.keyword .elif)) (keyword : String) :
    many (after (.keyword .elif) (branch deeper keyword)) c = .ok (rest, c') := by
  refine many_row (P := fun _ _ => True) (Q := fun _ _ => True) ?_ (fun _ _ _ _ _ _ _ => trivial) ?_
    hcovers trivial trivial (after_other hother)
  · rintro ⟨condition, body⟩ hmem n c m c' - ⟨k, c₁, hlead, k', c₂, hbranch, rfl, rfl⟩ -
    have hparts := List.forall_mem_cons.1 (he _ hmem)
    exact ⟨after_run hlead (branch_run h hparts.1 hparts.2 (hlevels _ hmem) hbranch _), trivial⟩
  · exact fun _ _ => size_row_pos _ _

theorem otherwise_run (h : ReadsBack style deeper levels) {otherwise : Option Block}
    (he : ∀ e ∈ otherwise.getD [], e.Everywhere (Expr.Writable style))
    (hlevels : (Layout.optional (otherwiseLayout style otherwise)).levels ≤ levels)
    (hcovers : (Layout.optional (otherwiseLayout style otherwise)).Covers n c m c')
    (hstops : c'.Stops 1) :
    after (.keyword .else) (Grammar.block deeper .cond) c = .ok (otherwise, c') ∧
      c.rest.head?.map (·.kind) ≠ some (.keyword .elif) := by
  cases otherwise with
  | none =>
      obtain ⟨rfl, rfl⟩ := hcovers
      exact ⟨after_other (hstops.ne (by decide) (by decide)), hstops.ne (by decide) (by decide)⟩
  | some body =>
      rw [otherwiseLayout, exprLayouts_eq, Layout.optional] at hcovers hlevels
      obtain ⟨k, c₁, helse, k', c₂, hblock, rfl, rfl⟩ := hcovers
      rw [levels_led_le] at hlevels
      constructor
      · exact after_run helse (block_run h he hlevels hblock _)
      · rw [helse.head_kind]
        decide

theorem cond_run (h : ReadsBack style deeper levels) {branches : List (Expr × Block)}
    {otherwise : Option Block}
    (he : (Expr.control (.cond branches otherwise)).Everywhere (Expr.Writable style))
    (hlevels : ((Control.cond branches otherwise).layout style).levels ≤ levels)
    (hcovers : ((Control.cond branches otherwise).layout style).Covers n c m c')
    (hstops : c'.Stops 1) :
    control? deeper c = .ok (some (.cond branches otherwise), c') := by
  have hbranches : ∀ branch ∈ branches, ∀ e ∈ branch.1 :: branch.2,
      e.Everywhere (Expr.Writable style) := by
    intro branch hbranch e hmem
    exact he.child (List.mem_append_left _ (List.mem_flatMap.2 ⟨branch, hbranch, hmem⟩))
  have hlast : ∀ e ∈ otherwise.getD [], e.Everywhere (Expr.Writable style) :=
    fun e hmem => he.child (List.mem_append_right _ hmem)
  rw [Control.layout, branchLayouts_eq] at hcovers hlevels
  cases branches with
  | nil => exact absurd rfl he.node
  | cons first rest =>
      rw [List.map_cons, Layout.branches] at hcovers hlevels
      simp only [levels_row_le, List.forall_mem_cons, levels_led_le, List.forall_mem_map] at hlevels
      obtain ⟨⟨hfirstLevels, hrestLevels⟩, hlastLevels, -⟩ := hlevels
      rw [List.forall_mem_cons, List.forall_mem_cons] at hbranches
      obtain ⟨k₁, c₁, ⟨k₂, c₂, ⟨_, c₃, hif, _, _, hfirst, rfl, rfl⟩, hrest⟩, _, _, helse, rfl, rfl⟩ :=
        hcovers
      rw [List.map_map] at hrest
      have hfirstRun := branch_run h hbranches.1.1 hbranches.1.2 hfirstLevels hfirst
      obtain ⟨hlastRun, hother⟩ := otherwise_run h hlast hlastLevels helse hstops
      have hrestRun := many_branches h hbranches.2 hrestLevels hrest hother
      have hrun : cond deeper c₃ = .ok (.cond (first :: rest) otherwise, c') := by
        rw [cond, bind_run (hfirstRun _), bind_run (hrestRun _), bind_run hlastRun]
        rfl
      rw [control?, peekKind_run, hif.head_kind]
      simp only
      rw [advance_run hif, bind_run hrun]
      rfl

theorem whileLoop_run (h : ReadsBack style deeper levels) {condition : Expr} {body : Block}
    (he : (Expr.control (.while condition body)).Everywhere (Expr.Writable style))
    (hlevels : ((Control.while condition body).layout style).levels ≤ levels)
    (hcovers : ((Control.while condition body).layout style).Covers n c m c') :
    control? deeper c = .ok (some (.while condition body), c') := by
  rw [Control.layout, exprLayouts_eq] at hcovers hlevels
  simp only [levels_row_le, List.forall_mem_cons] at hlevels
  obtain ⟨_, c₁, hwhile, _, c₂, hslot, _, _, hblock, rfl, rfl⟩ := hcovers
  have hcondition := slot_run h (he.child (.head _)) hlevels.2.1 hslot (block_stops hblock)
  have hbody := block_run h (fun e hmem => he.child (.tail _ hmem)) hlevels.2.2.1 hblock
  have hrun : whileLoop deeper c₁ = .ok (.while condition body, c') := by
    rw [whileLoop, Grammar.condition, bind_run (hcondition _), bind_run (hbody _)]
    rfl
  rw [control?, peekKind_run, hwhile.head_kind]
  simp only
  rw [advance_run hwhile, bind_run hrun]
  rfl

theorem loop_run (h : ReadsBack style deeper levels) {body : Block}
    (he : (Expr.control (.loop body)).Everywhere (Expr.Writable style))
    (hlevels : ((Control.loop body).layout style).levels ≤ levels)
    (hcovers : ((Control.loop body).layout style).Covers n c m c') :
    control? deeper c = .ok (some (.loop body), c') := by
  rw [Control.layout, exprLayouts_eq] at hcovers hlevels
  simp only [levels_row_le, List.forall_mem_cons] at hlevels
  obtain ⟨_, c₁, hloop, _, _, hblock, rfl, rfl⟩ := hcovers
  have hbody := block_run h (fun e hmem => he.child hmem) hlevels.2.1 hblock
  rw [control?, peekKind_run, hloop.head_kind]
  simp only
  rw [advance_run hloop, bind_run (hbody _)]
  rfl

/-- A part that a token leads to, or nothing. -/
theorem option_run (h : ReadsBack style deeper levels) {lead : Kind} {value : Option Expr}
    (he : ∀ e ∈ value.toList, e.Everywhere (Expr.Writable style))
    (hlevels : (Layout.optional (optionLayout style lead value)).levels ≤ levels)
    (hcovers : (Layout.optional (optionLayout style lead value)).Covers n c m c')
    (hstops : c'.Stops 1) (hother : c'.rest.head?.map (·.kind) ≠ some lead) (complaint : Complaint) :
    after lead (because complaint (deeper.expr true)) c = .ok (value, c') := by
  cases value with
  | none =>
      obtain ⟨rfl, rfl⟩ := hcovers
      exact after_other hother
  | some e =>
      rw [optionLayout, Layout.optional] at hcovers hlevels
      obtain ⟨_, _, hlead, hvalue⟩ := led_run h (he e (.head _)) hlevels hcovers hstops
      exact after_run hlead (hvalue complaint)

theorem return_run (h : ReadsBack style deeper levels) {value : Option Expr}
    (he : (Expr.control (.return value)).Everywhere (Expr.Writable style))
    (hlevels : ((Control.return value).layout style).levels ≤ levels)
    (hcovers : ((Control.return value).layout style).Covers n c m c') (hstops : c'.Stops 1) :
    control? deeper c = .ok (some (.return value), c') := by
  rw [Control.layout] at hcovers hlevels
  simp only [levels_row_le, List.forall_mem_cons] at hlevels
  obtain ⟨_, c₁, hreturn, _, _, hvalue, rfl, rfl⟩ := hcovers
  have hvalueRun := option_run h (fun e hmem => he.child hmem) hlevels.2.1 hvalue hstops
    (hstops.ne (by decide) (by decide))
  have hrun : returnValue deeper c₁ = .ok (.return value, c') := by
    rw [returnValue, bind_run (hvalueRun _)]
    rfl
  rw [control?, peekKind_run, hreturn.head_kind]
  simp only
  rw [advance_run hreturn, bind_run hrun]
  rfl

theorem forIn_run (h : ReadsBack style deeper levels) {value : String} {key : Option String}
    {items : Expr} {body : Block}
    (he : (Expr.control (.forIn value key items body)).Everywhere (Expr.Writable style))
    (hlevels : ((Control.forIn value key items body).layout style).levels ≤ levels)
    (hcovers : ((Control.forIn value key items body).layout style).Covers n c m c') :
    control? deeper c = .ok (some (.forIn value key items body), c') := by
  rw [Control.layout, exprLayouts_eq] at hcovers hlevels
  simp only [levels_row_le, List.forall_mem_cons] at hlevels
  obtain ⟨_, c₁, hfor, _, c₂, hvalue, _, c₃, hkey, _, c₄, hin, _, c₅, hslot, _, _, hblock, rfl, rfl⟩ :=
    hcovers
  have hkeyRun : after (.symbol .comma) (Rule.name .forKey) c₂ = .ok (key, c₃) := by
    cases key with
    | none =>
        obtain ⟨rfl, rfl⟩ := hkey
        exact after_other (by rw [hin.head_kind]; decide)
    | some key =>
        obtain ⟨_, _, hcomma, _, _, hname, rfl, rfl⟩ := hkey
        exact after_run hcomma (name_run hname _)
  have hitems := slot_run h (he.child (.head _)) hlevels.2.2.2.2.1 hslot (block_stops hblock)
  have hbody := block_run h (fun e hmem => he.child (.tail _ hmem)) hlevels.2.2.2.2.2.1 hblock
  have hrun : forLoop deeper c₁ = .ok (.forIn value key items body, c') := by
    rw [forLoop, bind_run (name_run hvalue _), bind_run hkeyRun, bind_run (accept_run hin),
      if_pos rfl, bind_run (hitems _), bind_run (hbody _)]
    rfl
  rw [control?, peekKind_run, hfor.head_kind]
  simp only
  rw [advance_run hfor, bind_run hrun]
  rfl

theorem forOf_run (h : ReadsBack style deeper levels) {counter : String} {start stop : Expr}
    {step : Option Expr} {body : Block}
    (he : (Expr.control (.forOf counter start stop step body)).Everywhere (Expr.Writable style))
    (hlevels : ((Control.forOf counter start stop step body).layout style).levels ≤ levels)
    (hcovers : ((Control.forOf counter start stop step body).layout style).Covers n c m c') :
    control? deeper c = .ok (some (.forOf counter start stop step body), c') := by
  rw [Control.layout, exprLayouts_eq] at hcovers hlevels
  simp only [levels_row_le, List.forall_mem_cons] at hlevels
  obtain ⟨-, -, -, hstartLevels, -, hstopLevels, hstepLevels, hbodyLevels, -⟩ := hlevels
  obtain ⟨_, c₁, hfor, _, c₂, hcounter, _, c₃, hof, _, c₄, hstart, _, c₅, hdots, _, c₆, hstop,
    _, c₇, hstep, _, _, hblock, rfl, rfl⟩ := hcovers
  have hblockHead : c₇.rest.head?.map (·.kind) ≠ some (.symbol .dotDot) := by
    rw [block_head hblock]
    decide
  have hstopEnd : c₆.Stops 1 := by
    cases step with
    | none =>
        obtain ⟨rfl, rfl⟩ := hstep
        exact block_stops hblock
    | some step =>
        obtain ⟨_, _, hmore, -⟩ := hstep
        exact .of_word hmore (by decide)
  have hcomma : c₂.rest.head?.map (·.kind) ≠ some (.symbol .comma) := by
    rw [hof.head_kind]
    decide
  have hin : c₂.rest.head?.map (·.kind) ≠ some (.keyword .in) := by
    rw [hof.head_kind]
    decide
  have hstartRun := slot_run h (he.child (.head _)) hstartLevels hstart (.of_word hdots (by decide))
  have hstopRun := slot_run h (he.child (.tail _ (.head _))) hstopLevels hstop hstopEnd
  have hstepRun := option_run h
    (fun e hmem => he.child (.tail _ (.tail _ (List.mem_append_left _ hmem)))) hstepLevels hstep
    (block_stops hblock) hblockHead
  have hbodyRun := block_run h
    (fun e hmem => he.child (.tail _ (.tail _ (List.mem_append_right _ hmem)))) hbodyLevels hblock
  have hrun : forLoop deeper c₁ = .ok (.forOf counter start stop step body, c') := by
    rw [forLoop, bind_run (name_run hcounter _), bind_run (after_other hcomma),
      bind_run (accept_other hin), if_neg (by decide), bind_run (expect_run hof _)]
    simp only [Option.isSome_none, Bool.false_eq_true, if_false]
    rw [bind_run (hstartRun _), bind_run (expect_run hdots _), bind_run (hstopRun _),
      bind_run (hstepRun _), bind_run (hbodyRun _)]
    rfl
  rw [control?, peekKind_run, hfor.head_kind]
  simp only
  rw [advance_run hfor, bind_run hrun]
  rfl

theorem control_run (h : ReadsBack style deeper levels) {control : Control}
    (he : (Expr.control control).Everywhere (Expr.Writable style))
    (hlevels : (control.layout style).levels ≤ levels)
    (hcovers : (control.layout style).Covers n c m c') (hstops : c'.Stops 1) :
    control? deeper c = .ok (some control, c') := by
  cases control with
  | cond branches otherwise => exact cond_run h he hlevels hcovers hstops
  | «while» condition body => exact whileLoop_run h he hlevels hcovers
  | loop body => exact loop_run h he hlevels hcovers
  | forIn value key items body => exact forIn_run h he hlevels hcovers
  | forOf counter start stop step body => exact forOf_run h he hlevels hcovers
  | «return» value => exact return_run h he hlevels hcovers hstops
  | «continue» =>
      rw [Control.layout] at hcovers
      rw [control?, peekKind_run, hcovers.head_kind]
      simp only
      rw [advance_run hcovers]
      rfl
  | «break» =>
      rw [Control.layout] at hcovers
      rw [control?, peekKind_run, hcovers.head_kind]
      simp only
      rw [advance_run hcovers]
      rfl

/-! ### Values -/

theorem list_run (h : ReadsBack style deeper levels) {elements : List Expr}
    (he : (Expr.list elements).Everywhere (Expr.Writable style))
    (hlevels : ((Expr.list elements).layout style).levels ≤ levels)
    (hcovers : ((Expr.list elements).layout style).Covers n c m c') :
    value deeper required c = .ok (.list elements, c') := by
  rw [Expr.layout, exprLayouts_eq] at hcovers hlevels
  simp only [levels_row_le, List.forall_mem_cons] at hlevels
  obtain ⟨_, c₁, hleft, _, c₂, helements, _, _, hright, rfl, rfl⟩ := hcovers
  obtain ⟨found, hfound, hvalue⟩ := elements?_run h (fun e hmem => he.child hmem) hlevels.2.1
    helements (closed_of_word hright (.inr (.inl rfl))) .list
  have hrun : list deeper c₁ = .ok (.list elements, c') := by
    rw [list, bind_run hfound, bind_run (expect_run hright _), hvalue]
    rfl
  rw [value, bind_run (literal?_other hleft (.inr (.inl rfl)))]
  simp only
  rw [peekKind_run, hleft.head_kind]
  simp only
  rw [advance_run hleft, hrun]

theorem entry_run (h : ReadsBack style deeper levels) {entry : Entry}
    (he : ∀ e ∈ entry.children, e.Everywhere (Expr.Writable style))
    (hlevels : (entry.layout style).levels ≤ levels)
    (hcovers : (entry.layout style).Covers n c m c') (hstops : c'.Stops 1) :
    Grammar.entry deeper c = .ok (entry, c') := by
  cases entry with
  | named name value =>
      rw [Entry.layout] at hcovers hlevels
      simp only [levels_row_le, List.forall_mem_cons] at hlevels
      obtain ⟨_, c₁, hname, _, c₂, hcolon, _, _, hslot, rfl, rfl⟩ := hcovers
      have hvalue : entryValue deeper c₁ = .ok (value, c') := by
        rw [entryValue, bind_run (expect_run hcolon _)]
        exact slot_run h (he value (.head _)) hlevels.2.2.1 hslot hstops _
      obtain ⟨token, hhead, hkind, htext, -⟩ := hname.head
      rw [Grammar.entry, peek_run, hhead]
      simp only [hkind, Token.textD_eq htext]
      rw [advance_run hname, bind_run hvalue]
      rfl
  | computed key value =>
      rw [Entry.layout] at hcovers hlevels
      simp only [levels_row_le, List.forall_mem_cons] at hlevels
      obtain ⟨_, c₁, hleft, _, c₂, hkey, _, c₃, hright, _, c₄, hcolon, _, _, hslot, rfl, rfl⟩ :=
        hcovers
      have hkeyRun := slot_run h (he key (.head _)) hlevels.2.1 hkey (.of_word hright (by decide))
      have hvalue : entryValue deeper c₃ = .ok (value, c') := by
        rw [entryValue, bind_run (expect_run hcolon _)]
        exact slot_run h (he value (.tail _ (.head _))) hlevels.2.2.2.2.1 hslot hstops _
      obtain ⟨token, hhead, hkind, -, -⟩ := hleft.head
      rw [Grammar.entry, peek_run, hhead]
      simp only [hkind]
      rw [advance_run hleft, bind_run (hkeyRun _), bind_run (expect_run hright _), bind_run hvalue]
      rfl

theorem entry_head {entry : Entry} (h : (entry.layout style).Covers n c m c') :
    c.rest.head?.map (·.kind) ≠ some (.symbol .rightBrace) := by
  cases entry <;> rw [Entry.layout] at h <;> obtain ⟨_, _, hfirst, -⟩ := h <;>
    rw [hfirst.head_kind] <;> decide

theorem many_entries (h : ReadsBack style deeper levels) {entries : List Entry}
    (he : ∀ entry ∈ entries, ∀ e ∈ entry.children, e.Everywhere (Expr.Writable style))
    (hlevels : ∀ entry ∈ entries, (entry.layout style).levels ≤ levels)
    (hcovers : (row (entries.map fun entry => led (.symbol .comma) (entry.layout style))).Covers
      n c m c') (hclosed : Closed c') :
    many (entryAfterComma deeper) c = .ok (entries, c') := by
  have hcomma : c'.rest.head?.map (·.kind) ≠ some (.symbol .comma) := by
    intro hkind
    rcases hclosed _ hkind with h | h | h <;> cases h
  have hlast : entryAfterComma deeper c' = .ok (none, c') := by
    rw [entryAfterComma, bind_run (accept_other hcomma)]
    rfl
  refine many_row (P := fun _ c => c.Stops 1) (Q := fun _ _ => True) ?_ ?_ ?_ hcovers trivial
    hclosed.stops hlast
  · rintro entry hmem n c m c' - ⟨_, c₁, hlead, _, _, hentry, rfl, rfl⟩ hnext
    have hrun := entry_run h (he entry hmem) (hlevels entry hmem) hentry hnext
    rw [entryAfterComma, bind_run (accept_run hlead), if_pos rfl, peekKind_run,
      if_neg (entry_head hentry), bind_run hrun]
    exact ⟨rfl, trivial⟩
  · rintro entry - n c m c' ⟨_, _, hlead, -⟩
    exact .of_word hlead (by decide)
  · exact fun _ _ => size_row_pos _ _

theorem table_run (h : ReadsBack style deeper levels) {entries : List Entry}
    (he : (Expr.table entries).Everywhere (Expr.Writable style))
    (hlevels : ((Expr.table entries).layout style).levels ≤ levels)
    (hcovers : ((Expr.table entries).layout style).Covers n c m c') :
    value deeper required c = .ok (.table entries, c') := by
  have hparts : ∀ entry ∈ entries, ∀ e ∈ entry.children, e.Everywhere (Expr.Writable style) :=
    fun entry hentry e hmem => he.child (List.mem_flatMap.2 ⟨entry, hentry, hmem⟩)
  rw [Expr.layout, entryLayouts_eq] at hcovers hlevels
  simp only [levels_row_le, List.forall_mem_cons, levels_separated_le, List.forall_mem_map] at hlevels
  obtain ⟨_, c₁, hleft, _, c₂, hentries, _, _, hright, rfl, rfl⟩ := hcovers
  have hclosed := closed_of_word hright (.inr (.inr rfl))
  have hrun : table deeper c₁ = .ok (.table entries, c') := by
    cases entries with
    | nil =>
        obtain ⟨rfl, rfl⟩ := hentries
        rw [table, bind_run (accept_run hright)]
        rfl
    | cons entry entries =>
        obtain ⟨_, c₃, hfirst, hrest⟩ := hentries
        rw [List.forall_mem_cons] at hparts hlevels
        have hfirstRun := entry_run h hparts.1 hlevels.2.1.1 hfirst (stops_of_commas hrest hclosed)
        rw [List.map_map] at hrest
        have hrestRun := many_entries h hparts.2 hlevels.2.1.2 hrest hclosed
        rw [table, bind_run (accept_other (entry_head hfirst)), if_neg (by decide),
          bind_run hfirstRun, bind_run hrestRun, bind_run (expect_run hright _)]
        rfl
  rw [value, bind_run (literal?_other hleft (.inr (.inr (.inl rfl))))]
  simp only
  rw [peekKind_run, hleft.head_kind]
  simp only
  rw [advance_run hleft, hrun]

theorem many_names {names : List String}
    (hcovers : (row (names.map fun name => led (.symbol .comma) (identifier name))).Covers n c m c')
    (hother : c'.rest.head?.map (·.kind) ≠ some (.symbol .comma)) (complaint : Complaint) :
    many (after (.symbol .comma) (Rule.name complaint)) c = .ok (names, c') := by
  refine many_row (P := fun _ _ => True) (Q := fun _ _ => True) ?_ (fun _ _ _ _ _ _ _ => trivial) ?_
    hcovers trivial trivial (after_other hother)
  · rintro name - n c m c' - ⟨_, _, hlead, _, _, hname, rfl, rfl⟩ -
    exact ⟨after_run hlead (name_run hname _), trivial⟩
  · exact fun _ _ => size_row_pos _ _

theorem function_run (h : ReadsBack style deeper levels) {name : Option String}
    {params : List String} {body : Block}
    (he : (Expr.function name params body).Everywhere (Expr.Writable style))
    (hlevels : ((Expr.function name params body).layout style).levels ≤ levels)
    (hcovers : ((Expr.function name params body).layout style).Covers n c m c') :
    value deeper required c = .ok (.function name params body, c') := by
  rw [Expr.layout, exprLayouts_eq] at hcovers hlevels
  simp only [levels_row_le, List.forall_mem_cons] at hlevels
  obtain ⟨_, c₁, hfunc, _, c₂, hname, _, c₃, hleft, _, c₄, hparams, _, c₅, hright, _, _, hblock,
    rfl, rfl⟩ := hcovers
  have hnameRun : name? c₁ = .ok (name, c₂) := by
    cases name with
    | none =>
        obtain ⟨rfl, rfl⟩ := hname
        exact name?_other (by rw [hleft.head_kind]; decide)
    | some name => exact name?_run hname
  have hbody : Grammar.block deeper .func c₅ = .ok (body, c') :=
    block_run h (fun e hmem => he.child hmem) hlevels.2.2.2.2.2.1 hblock _
  have hrun : function deeper c₁ = .ok (.function name params body, c') := by
    rw [function, bind_run hnameRun, bind_run (expect_run hleft _)]
    cases params with
    | nil =>
        obtain ⟨rfl, rfl⟩ := hparams
        rw [bind_run (name?_other (by rw [hright.head_kind]; decide))]
        simp only [pure_bind]
        rw [bind_run (expect_run hright _), bind_run hbody]
        rfl
    | cons first params =>
        obtain ⟨_, c₆, hfirst, hrest⟩ := hparams
        rw [List.map_map] at hrest
        have hmore := many_names hrest (by rw [hright.head_kind]; decide)
        rw [bind_run (name?_run hfirst)]
        simp only [pure_bind]
        rw [bind_run (hmore _), bind_run (expect_run hright _), bind_run hbody]
        rfl
  rw [value, bind_run (literal?_other hfunc (.inr (.inr (.inr rfl))))]
  simp only
  rw [peekKind_run, hfunc.head_kind]
  simp only
  rw [advance_run hfunc, hrun]

/-! ### Access to parts -/

theorem accessor_run (h : ReadsBack style deeper levels) {accessor : Accessor}
    (he : ∀ e ∈ accessor.children, e.Everywhere (Expr.Writable style))
    (hlevels : (accessor.layout style).levels ≤ levels) (hline : c.line = some n)
    (hcovers : (accessor.layout style).Covers n c m c') :
    accessor? deeper c = .ok (some accessor, c') ∧ c'.line = some m := by
  cases accessor with
  | index index =>
      rw [Accessor.layout] at hcovers hlevels
      simp only [levels_row_le, List.forall_mem_cons] at hlevels
      obtain ⟨_, c₁, hleft, _, c₂, hslot, _, _, hright, rfl, rfl⟩ := hcovers
      have hindex := slot_run h (he index (.head _)) hlevels.2.1 hslot (.of_word hright (by decide))
      obtain ⟨token, hhead, -, -, hplace⟩ := hleft.head
      rw [accessor?, peekKind_run, hleft.head_kind]
      simp only
      rw [bind_run (onSameLine_run hhead), hplace, decide_eq_true hline, if_pos rfl,
        advance_run hleft, bind_run (hindex _), bind_run (expect_run hright _)]
      exact ⟨rfl, hright.line⟩
  | member name =>
      rw [Accessor.layout] at hcovers
      obtain ⟨_, c₁, hdot, _, _, hname, rfl, rfl⟩ := hcovers
      rw [accessor?, peekKind_run, hdot.head_kind]
      simp only
      rw [advance_run hdot, bind_run (name_run hname _)]
      exact ⟨rfl, hname.line⟩
  | call args =>
      rw [Accessor.layout, exprLayouts_eq] at hcovers hlevels
      simp only [levels_row_le, List.forall_mem_cons] at hlevels
      obtain ⟨_, c₁, hleft, _, c₂, hargs, _, _, hright, rfl, rfl⟩ := hcovers
      obtain ⟨found, hfound, hvalue⟩ := elements?_run h he hlevels.2.1 hargs
        (closed_of_word hright (.inl rfl)) .call
      obtain ⟨token, hhead, -, -, hplace⟩ := hleft.head
      rw [accessor?, peekKind_run, hleft.head_kind]
      simp only
      rw [bind_run (onSameLine_run hhead), hplace, decide_eq_true hline, if_pos rfl,
        advance_run hleft, bind_run hfound, bind_run (expect_run hright _), hvalue]
      exact ⟨rfl, hright.line⟩

theorem size_accessor_pos (style : Style) (accessor : Accessor) :
    0 < (accessor.layout style).size := by
  cases accessor <;> rw [Accessor.layout] <;> exact size_row_pos _ _

theorem access_run (h : ReadsBack style deeper levels) {target : Expr} {chain : List Accessor}
    (he : (Expr.access target chain).Everywhere (Expr.Writable style))
    (hlevels : ((Expr.access target chain).layout style).levels ≤ levels)
    (hcovers : ((Expr.access target chain).layout style).Covers n c m c') (hstops : c'.Stops 7) :
    access deeper required c = .ok (.access target chain, c') := by
  have hparts : ∀ accessor ∈ chain, ∀ e ∈ accessor.children, e.Everywhere (Expr.Writable style) :=
    fun accessor haccessor e hmem =>
      he.child (.tail _ (List.mem_flatMap.2 ⟨accessor, haccessor, hmem⟩))
  rw [Expr.layout, chainLayouts_eq] at hcovers hlevels
  simp only [levels_row_le, List.forall_mem_cons, List.forall_mem_map] at hlevels
  obtain ⟨k, c₁, htarget, hchain⟩ := hcovers
  have hvalue : value deeper required c = .ok (target, c₁) :=
    value_quoted h (he.child (.head _)) hlevels.1 htarget
  have hchainRun : many (accessor? deeper) c₁ = .ok (chain, c') := by
    refine many_row (P := fun _ _ => True) (Q := fun n c => c.line = some n) ?_
      (fun _ _ _ _ _ _ _ => trivial) (fun _ _ => size_accessor_pos _ _) hchain (quoted_line htarget)
      trivial (accessor?_stops deeper hstops)
    intro accessor hmem n c m c' hline hcovers _
    exact accessor_run h (hparts accessor hmem) (hlevels.2 accessor hmem) hline hcovers
  rw [access, bind_run hvalue, bind_run hchainRun]
  cases chain with
  | nil => exact absurd rfl he.node
  | cons accessor chain => rfl

/-! ### Assignments -/

theorem unary_access (h : ReadsBack style deeper levels) {target : Expr} {chain : List Accessor}
    (he : (Expr.access target chain).Everywhere (Expr.Writable style))
    (hlevels : ((Expr.access target chain).layout style).levels ≤ levels)
    (hcovers : ((Expr.access target chain).layout style).Covers n c m c') (hstops : c'.Stops 7)
    (required : Bool) :
    Plain c ∧ unary deeper required c = .ok (.access target chain, c') := by
  have haccess : access deeper required c = _ := access_run h he hlevels hcovers hstops
  rw [Expr.layout] at hcovers
  obtain ⟨_, _, ⟨_, _, hleft, -⟩, -⟩ := hcovers
  have hplain := plain_of_word hleft rfl
  exact ⟨hplain, unary_of_access hplain (by rw [hleft.head_kind]; rfl) haccess⟩

/-- What the left side of an assignment is read as is its target. -/
theorem target_run (h : ReadsBack style deeper levels) {target : Target}
    (he : ∀ e ∈ target.children, e.Everywhere (Expr.Writable style))
    (hlevels : (target.layout style).levels ≤ levels)
    (hcovers : (target.layout style).Covers n c m c') (hstops : c'.Stops 2) (required : Bool) :
    ∃ left, Plain c ∧ or deeper required c = .ok (left, c') ∧ target? left = some target := by
  have htight : c'.Stops 7 := hstops.mono (by decide)
  cases target with
  | name name =>
      rw [Target.layout] at hcovers
      have hplain := plain_of_word hcovers rfl
      have hvalue : value deeper required c = .ok (.name name, c') :=
        value_word hcovers fun token hkind htext => Token.textD_eq htext ▸ .name hkind
      have hunary := unary_of_access hplain (by rw [hcovers.head_kind]; rfl)
        (access_of_value hvalue htight)
      exact ⟨.name name, hplain, or_of_unary hunary hstops, rfl⟩
  | index container index =>
      have haccess : (Expr.access container [.index index]).Everywhere (Expr.Writable style) :=
        .intro (List.cons_ne_nil _ _) he
      rw [Target.layout] at hcovers hlevels
      obtain ⟨hplain, hunary⟩ := unary_access h haccess hlevels hcovers htight required
      exact ⟨_, hplain, or_of_unary hunary hstops, rfl⟩
  | member container name =>
      have haccess : (Expr.access container [.member name]).Everywhere (Expr.Writable style) :=
        .intro (List.cons_ne_nil _ _) he
      rw [Target.layout] at hcovers hlevels
      obtain ⟨hplain, hunary⟩ := unary_access h haccess hlevels hcovers htight required
      exact ⟨_, hplain, or_of_unary hunary hstops, rfl⟩

theorem update_run (h : ReadsBack style deeper levels) {update : Update}
    (he : ∀ e ∈ update.children, e.Everywhere (Expr.Writable style))
    (hlevels : (update.layout style).levels ≤ levels)
    (hcovers : (update.layout style).Covers n c m c') (hstops : c'.Stops 1) :
    update? deeper c = .ok (some update, c') ∧ c.Stops 2 := by
  cases update with
  | set value =>
      rw [Update.layout] at hcovers hlevels
      obtain ⟨_, _, hsign, hvalue⟩ := led_run h (he value (.head _)) hlevels hcovers hstops
      rw [update?, peekKind_run, hsign.head_kind]
      simp only
      rw [advance_run hsign, bind_run (hvalue _)]
      exact ⟨rfl, .of_word hsign (by decide)⟩
  | addTo value =>
      rw [Update.layout] at hcovers hlevels
      obtain ⟨_, _, hsign, hvalue⟩ := led_run h (he value (.head _)) hlevels hcovers hstops
      rw [update?, peekKind_run, hsign.head_kind]
      simp only
      rw [advance_run hsign, bind_run (hvalue _)]
      exact ⟨rfl, .of_word hsign (by decide)⟩
  | subFrom value =>
      rw [Update.layout] at hcovers hlevels
      obtain ⟨_, _, hsign, hvalue⟩ := led_run h (he value (.head _)) hlevels hcovers hstops
      rw [update?, peekKind_run, hsign.head_kind]
      simp only
      rw [advance_run hsign, bind_run (hvalue _)]
      exact ⟨rfl, .of_word hsign (by decide)⟩
  | increment =>
      rw [Update.layout] at hcovers
      rw [update?, peekKind_run, hcovers.head_kind]
      simp only
      rw [advance_run hcovers]
      exact ⟨rfl, .of_word hcovers (by decide)⟩
  | decrement =>
      rw [Update.layout] at hcovers
      rw [update?, peekKind_run, hcovers.head_kind]
      simp only
      rw [advance_run hcovers]
      exact ⟨rfl, .of_word hcovers (by decide)⟩

/-! ### Expressions -/

theorem levels_operands {ω : Type} {kind : ω → Kind} {first : Expr} {rest : List (ω × Expr)}
    (h : (row (quoted (first.layout style) ::
      rest.map (operationLayout style kind))).levels ≤ levels) :
    ∀ e ∈ first :: rest.map (·.2), (quoted (e.layout style)).levels ≤ levels := by
  simp only [levels_row_le, List.forall_mem_cons, List.forall_mem_map, operationLayout,
    levels_led_le] at h ⊢
  exact h

theorem levels_joined {keyword : Keyword} {first : Expr} {rest : List Expr}
    (h : (row (quoted (first.layout style) ::
      rest.map fun e => led (.keyword keyword) (quoted (e.layout style)))).levels ≤ levels) :
    ∀ e ∈ first :: rest, (quoted (e.layout style)).levels ≤ levels := by
  simp only [levels_row_le, List.forall_mem_cons, List.forall_mem_map, levels_led_le] at h ⊢
  exact h

theorem row_plain {inner : Layout} {parts : List Layout}
    (h : (row (quoted inner :: parts)).Covers n c m c') : Plain c := by
  obtain ⟨_, _, hquoted, -⟩ := h
  exact quoted_plain hquoted

theorem expr_run (h : ReadsBack style deeper levels) (he : e.Everywhere (Expr.Writable style))
    (hlevels : (e.layout style).levels ≤ levels) (hcovers : (e.layout style).Covers n c m c')
    (hstops : c'.Stops 1) (required : Bool) : expr deeper required c = .ok (e, c') := by
  cases e with
  | null =>
      rw [Expr.layout] at hcovers
      exact expr_of_value hcovers rfl rfl (value_word hcovers fun _ hkind _ => .null hkind) hstops
  | bool value =>
      cases value with
      | true =>
          rw [Expr.layout] at hcovers
          exact expr_of_value hcovers rfl rfl (value_word hcovers fun _ hkind _ => .true hkind) hstops
      | false =>
          rw [Expr.layout] at hcovers
          exact expr_of_value hcovers rfl rfl (value_word hcovers fun _ hkind _ => .false hkind) hstops
  | number value =>
      rw [Expr.layout] at hcovers
      refine expr_of_value hcovers rfl rfl (value_word hcovers fun token hkind htext => ?_) hstops
      exact .number hkind ((congrArg Number.ofText? (Token.textD_eq htext)).trans he.node)
  | string text =>
      rw [Expr.layout] at hcovers
      refine expr_of_value hcovers rfl rfl (value_word hcovers fun token hkind htext => ?_) hstops
      exact Token.textD_eq htext ▸ .string hkind
  | name name =>
      rw [Expr.layout] at hcovers
      refine expr_of_value hcovers rfl rfl (value_word hcovers fun token hkind htext => ?_) hstops
      exact Token.textD_eq htext ▸ .name hkind
  | list elements =>
      have hvalue : value deeper required c = _ := list_run h he hlevels hcovers
      rw [Expr.layout] at hcovers
      obtain ⟨_, _, hleft, -⟩ := hcovers
      exact expr_of_value hleft rfl rfl hvalue hstops
  | table entries =>
      have hvalue : value deeper required c = _ := table_run h he hlevels hcovers
      rw [Expr.layout] at hcovers
      obtain ⟨_, _, hleft, -⟩ := hcovers
      exact expr_of_value hleft rfl rfl hvalue hstops
  | function name params body =>
      have hvalue : value deeper required c = _ := function_run h he hlevels hcovers
      rw [Expr.layout] at hcovers
      obtain ⟨_, _, hfunc, -⟩ := hcovers
      exact expr_of_value hfunc rfl rfl hvalue hstops
  | unary op operand =>
      rw [Expr.layout] at hcovers hlevels
      simp only [levels_row_le, List.forall_mem_cons] at hlevels
      obtain ⟨_, c₁, hop, _, _, hoperand, rfl, rfl⟩ := hcovers
      have hrun := h.operand (he.child (.head _)) hlevels.2.1 hoperand (hstops.mono (by decide))
      have hunary : Grammar.unary deeper required c = .ok (.unary op operand, c') := by
        rw [Grammar.unary, peekKind_run, hop.head_kind, Option.bind_some, unaryOp?_kind]
        simp only
        rw [advance_run hop, bind_run (because_run hrun _)]
        rfl
      exact expr_of_unary (plain_of_word hop (by cases op <;> rfl)) hunary hstops
  | or first rest =>
      rw [Expr.layout, exprLayouts_eq, List.map_map] at hcovers hlevels
      have hor : Grammar.or deeper required c = .ok (.or first rest, c') :=
        logical_run (by decide) (fun e hmem required n c m c' hquoted hnext => and_of_unary
          (unary_quoted h (he.child hmem) (levels_joined hlevels e hmem) hquoted
            (hnext.mono (by decide))) hnext) he.node hcovers (hstops.mono (by decide))
      exact expr_of_or (row_plain hcovers) hor hstops
  | and first rest =>
      rw [Expr.layout, exprLayouts_eq, List.map_map] at hcovers hlevels
      have hand : Grammar.and deeper required c = .ok (.and first rest, c') :=
        logical_run (by decide) (fun e hmem required n c m c' hquoted hnext => compare_of_unary
          (unary_quoted h (he.child hmem) (levels_joined hlevels e hmem) hquoted
            (hnext.mono (by decide))) hnext) he.node hcovers (hstops.mono (by decide))
      exact expr_of_or (row_plain hcovers) (or_of_and hand (hstops.mono (by decide))) hstops
  | compare first rest =>
      rw [Expr.layout, compareLayouts_eq] at hcovers hlevels
      have hcompare : Grammar.compare deeper required c = .ok (.compare first rest, c') :=
        binary_run compareOp?_kind strength_of_compareOp? (by decide)
          (fun e hmem required n c m c' hquoted hnext => add_of_unary
            (unary_quoted h (he.child hmem) (levels_operands hlevels e hmem) hquoted
              (hnext.mono (by decide))) hnext) he.node hcovers (hstops.mono (by decide))
      have hand := and_of_compare hcompare (hstops.mono (by decide))
      exact expr_of_or (row_plain hcovers) (or_of_and hand (hstops.mono (by decide))) hstops
  | add first rest =>
      rw [Expr.layout, addLayouts_eq] at hcovers hlevels
      have hadd : Grammar.add deeper required c = .ok (.add first rest, c') :=
        binary_run addOp?_kind strength_of_addOp? (by decide)
          (fun e hmem required n c m c' hquoted hnext => mul_of_unary
            (unary_quoted h (he.child hmem) (levels_operands hlevels e hmem) hquoted
              (hnext.mono (by decide))) hnext) he.node hcovers (hstops.mono (by decide))
      have hcompare := compare_of_add hadd (hstops.mono (by decide))
      have hand := and_of_compare hcompare (hstops.mono (by decide))
      exact expr_of_or (row_plain hcovers) (or_of_and hand (hstops.mono (by decide))) hstops
  | mul first rest =>
      rw [Expr.layout, mulLayouts_eq] at hcovers hlevels
      have hmul : Grammar.mul deeper required c = .ok (.mul first rest, c') :=
        binary_run mulOp?_kind strength_of_mulOp? (by decide)
          (fun e hmem required n c m c' hquoted hnext =>
            unary_quoted h (he.child hmem) (levels_operands hlevels e hmem) hquoted hnext)
          he.node hcovers (hstops.mono (by decide))
      have hcompare := compare_of_add (add_of_mul hmul (hstops.mono (by decide)))
        (hstops.mono (by decide))
      have hand := and_of_compare hcompare (hstops.mono (by decide))
      exact expr_of_or (row_plain hcovers) (or_of_and hand (hstops.mono (by decide))) hstops
  | access target chain =>
      obtain ⟨hplain, hunary⟩ := unary_access h he hlevels hcovers (hstops.mono (by decide)) required
      exact expr_of_unary hplain hunary hstops
  | assign target update =>
      rw [Expr.layout] at hcovers hlevels
      simp only [levels_row_le, List.forall_mem_cons] at hlevels
      obtain ⟨_, c₁, htarget, _, _, hupdate, rfl, rfl⟩ := hcovers
      obtain ⟨hupdateRun, hnext⟩ := update_run h
        (fun e hmem => he.child (List.mem_append_right _ hmem)) hlevels.2.1 hupdate hstops
      obtain ⟨left, hplain, hleft, hdenotes⟩ := target_run h
        (fun e hmem => he.child (List.mem_append_left _ hmem)) hlevels.1 htarget hnext required
      exact expr_of_update hplain hleft hupdateRun hdenotes
  | global name value =>
      rw [Expr.layout] at hcovers hlevels
      simp only [levels_row_le, List.forall_mem_cons] at hlevels
      obtain ⟨_, c₁, hglobal, _, c₂, hname, _, c₃, hsign, _, _, hslot, rfl, rfl⟩ := hcovers
      have hvalue := slot_run h (he.child (.head _)) hlevels.2.2.2.1 hslot hstops
      rw [expr, bind_run (accept_run hglobal), if_pos rfl, Grammar.global,
        bind_run (name_run hname _), bind_run (expect_run hsign _), bind_run (hvalue _)]
      rfl
  | control control =>
      rw [Expr.layout] at hcovers hlevels
      exact expr_of_control (control_run h he hlevels hcovers hstops)

/-! ### Programs -/

/-- At every number of levels the nested rules read back what has no more levels. -/
theorem readsBack_nested (style : Style) (levels : Nat) :
    ReadsBack style (nested levels) levels := by
  induction levels with
  | zero =>
      constructor
      · intro e n c m c' wrapped required _ hlevels
        exact absurd hlevels (Nat.not_succ_le_zero _)
      · intro e n c m c' _ hlevels
        exact absurd hlevels (Nat.not_succ_le_zero _)
      · intro c hlevels
        exact absurd hlevels (Nat.lt_irrefl 0)
  | succ levels ih =>
      constructor
      · intro e n c m c' wrapped required he hlevels hcovers hstops
        cases wrapped with
        | true =>
            refine expr_of_unary (quoted_plain hcovers) ?_ hstops
            exact unary_quoted ih he (Nat.le_of_succ_le_succ hlevels) hcovers
              (hstops.mono (by decide))
        | false => exact expr_run ih he (Nat.le_of_succ_le_succ hlevels) hcovers hstops required
      · intro e n c m c' he hlevels hcovers hstops
        exact unary_quoted ih he (Nat.le_of_succ_le_succ hlevels) hcovers hstops
      · intro c _ hclosed
        exact ⟨_, expr_absent hclosed.absent, rfl⟩

end Grammar

/-- A program whose layout has as many levels as are allowed, or fewer, is read back from its words,
wherever these stand within their lines. -/
theorem parse_of_render {style : Style} {program : Block} {tokens : List Token}
    (hwritable : ∀ e ∈ program, e.Everywhere (Expr.Writable style))
    (hlevels : (programLayout style program).levels ≤ Grammar.maxDepth)
    (htokens : tokens.map Token.placed = render style program) : parse tokens = .ok program := by
  rw [render, ← List.append_nil (Layout.write _ _)] at htokens
  obtain ⟨c', hcovers, hrest⟩ := Layout.exists_covers (programLayout style program)
    (c := .start tokens) htokens
  rw [List.map_eq_nil_iff] at hrest
  have hclosed : Grammar.Closed c' := by
    intro kind hkind
    rw [hrest] at hkind
    cases hkind
  have hslots : ∀ e ∈ program, (slot true (e.layout style)).levels ≤ Grammar.maxDepth := by
    simpa [programLayout, statement, Layout.levels] using hlevels
  have hrun := Grammar.statements_run (Grammar.readsBack_nested style Grammar.maxDepth) (by decide)
    hwritable hslots hcovers hclosed
  refine parse_eq_ok_iff.2 ⟨c'.line, ?_⟩
  rw [← hrest]
  exact hrun

/-- Tokens for words on given lines. -/
def tokensOf (words : List (Word × Nat)) : List Token :=
  words.map fun (w, line) => ⟨w.kind, w.text, ⟨0, 0, line, 0⟩⟩

theorem placed_tokensOf (words : List (Word × Nat)) :
    (tokensOf words).map Token.placed = words := by
  rw [tokensOf, List.map_map]
  exact List.map_id words

/-- An assignment of a function, with a condition and an empty list in it, and on the next line a
call. -/
def guardProgram : Block :=
  [.assign (.index (.name "t") (.number 1.5)) (.set (.function none ["a"]
      [.control (.cond [(.compare (.name "a") [(.less, .number 1.5)], [.list []])] none)])),
    .access (.name "f") [.call [], .member "g"]]

/-- The style of programs in which every number is one and a half. -/
def guardStyle : Style :=
  ⟨fun _ => "15e-1", false⟩

theorem parse_of_render_guardProgram :
    parse (tokensOf (render guardStyle guardProgram)) = .ok guardProgram := by
  have hname : ∀ name, (Expr.name name).Everywhere (Expr.Writable guardStyle) :=
    fun name => .intro trivial (List.forall_mem_nil _)
  have hnumber : (Expr.number 1.5).Everywhere (Expr.Writable guardStyle) :=
    .intro rfl (List.forall_mem_nil _)
  have hlist : (Expr.list []).Everywhere (Expr.Writable guardStyle) :=
    .intro trivial (List.forall_mem_nil _)
  have hcompare : (Expr.compare (.name "a") [(.less, .number 1.5)]).Everywhere
      (Expr.Writable guardStyle) :=
    .intro (List.cons_ne_nil _ _)
      (List.forall_mem_cons.2 ⟨hname _, List.forall_mem_singleton.2 hnumber⟩)
  have hcond := Expr.Everywhere.intro (e := .control (.cond [(_, [_])] none))
    (List.cons_ne_nil _ _) (List.forall_mem_cons.2 ⟨hcompare, List.forall_mem_singleton.2 hlist⟩)
  have hfunction := Expr.Everywhere.intro (e := .function none ["a"] [_]) trivial
    (List.forall_mem_singleton.2 hcond)
  have hassign := Expr.Everywhere.intro (e := .assign (.index _ _) (.set _)) trivial
    (List.forall_mem_cons.2 ⟨hname "t", List.forall_mem_cons.2 ⟨hnumber,
      List.forall_mem_singleton.2 hfunction⟩⟩)
  have hcall := Expr.Everywhere.intro (e := .access _ [.call [], .member "g"])
    (List.cons_ne_nil _ _) (List.forall_mem_singleton.2 (hname "f"))
  exact parse_of_render (List.forall_mem_cons.2 ⟨hassign, List.forall_mem_singleton.2 hcall⟩)
    (by decide +kernel) (placed_tokensOf _)

end TableScript
