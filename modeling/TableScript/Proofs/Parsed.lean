import TableScript.Proofs.Yield
import TableScript.Syntax.Program

/-!
What the rules of the grammar match is derived by its productions. Each rule is followed step by step,
with the rules for what is nested deeper assumed to be sound, and an induction on the levels of nesting
discharges the assumption.
-/

namespace TableScript

open Rule

variable {α : Type} {c : Cursor}

namespace Rule

/-- A row of items. -/
def Row (P : List Token → α → Prop) (tokens : List Token) (items : List α) : Prop :=
  ∃ parts : List (Part α), tokens = parts.flatMap (·.tokens) ∧ items = parts.map (·.tree) ∧
    ∀ part ∈ parts, P part.tokens part.tree

theorem Items.row {P : List Token → α → Prop} {line : Option Nat} {tokens : List Token}
    {items : List α} (h : Items (fun _ => P) line tokens items) : Row P tokens items := by
  induction h with
  | nil => exact ⟨[], rfl, rfl, by simp⟩
  | @cons _ ts _ item _ hitem _ ih =>
      obtain ⟨parts, rfl, rfl, hparts⟩ := ih
      exact ⟨⟨ts, item⟩ :: parts, rfl, rfl, List.forall_mem_cons.2 ⟨hitem, hparts⟩⟩

theorem Reads.manyRow {P : List Token → α → Prop} {rule : Rule (Option α)}
    (h : ∀ c, rule.Reads c (Optional P)) : (Rule.many rule).Reads c (Row P) :=
  (Reads.many (P := fun _ => P) h c).mono fun _ _ hitems => hitems.row

/-- A row of items, each after a token that leads to it. -/
def LedRow (lead : Token → α → Prop) (P : List Token → α → Prop) (tokens : List Token)
    (items : List α) : Prop :=
  ∃ parts : List (Led α), tokens = parts.flatMap Led.row ∧ items = parts.map (·.tree) ∧
    (∀ part ∈ parts, lead part.lead part.tree) ∧ ∀ part ∈ parts, P part.tokens part.tree

theorem Items.ledRow {lead : Token → α → Prop} {P : List Token → α → Prop} {line : Option Nat}
    {tokens : List Token} {items : List α} (h : Items (fun _ => LedBy lead P) line tokens items) :
    LedRow lead P tokens items := by
  induction h with
  | nil => exact ⟨[], rfl, rfl, by simp, by simp⟩
  | cons hitem _ ih =>
      obtain ⟨parts, rfl, rfl, hleads, hparts⟩ := ih
      cases hitem with
      | intro hlead hitem =>
          exact ⟨⟨⟨_, _⟩, _⟩ :: parts, rfl, rfl, List.forall_mem_cons.2 ⟨hlead, hleads⟩,
            List.forall_mem_cons.2 ⟨hitem, hparts⟩⟩

theorem Reads.manyLed {lead : Token → α → Prop} {P : List Token → α → Prop}
    {rule : Rule (Option α)} (h : ∀ c, rule.Reads c (Optional (LedBy lead P))) :
    (Rule.many rule).Reads c (LedRow lead P) :=
  (Reads.many (P := fun _ => LedBy lead P) h c).mono fun _ _ hitems => hitems.ledRow

end Rule

namespace Grammar

/-! ### Operators -/

theorem kind_of_unaryOp? {kind : Kind} {op : UnaryOp} (h : unaryOp? kind = some op) :
    kind = op.kind := by
  unfold unaryOp? at h
  split at h <;> cases h <;> rfl

theorem kind_of_compareOp? {kind : Kind} {op : CompareOp} (h : compareOp? kind = some op) :
    kind = op.kind := by
  unfold compareOp? at h
  split at h <;> cases h <;> rfl

theorem kind_of_addOp? {kind : Kind} {op : AddOp} (h : addOp? kind = some op) : kind = op.kind := by
  unfold addOp? at h
  split at h <;> cases h <;> rfl

theorem kind_of_mulOp? {kind : Kind} {op : MulOp} (h : mulOp? kind = some op) : kind = op.kind := by
  unfold mulOp? at h
  split at h <;> cases h <;> rfl

theorem reads_logical {keyword : Keyword} {operand : Bool → Rule Expr} {complaint : Complaint}
    {node : Expr → List Expr → Expr} {P Q : List Token → Expr → Prop}
    (hoperand : ∀ required c, (operand required).Reads c P) (hfirst : ∀ ts e, P ts e → Q ts e)
    (hnode : ∀ {ts first} (rest : List (Led Expr)), rest ≠ [] → P ts first →
      (∀ part ∈ rest, part.lead.kind = .keyword keyword) →
      (∀ part ∈ rest, P part.tokens part.tree) →
      Q (ts ++ rest.flatMap Led.row) (node first (rest.map (·.tree)))) (required : Bool) :
    (logical keyword operand complaint node required).Reads c Q := by
  refine (hoperand required c).bind fun ts first c' _ hP => ?_
  refine .andReturn ((Reads.manyLed fun c => .after fun c' => (hoperand true c').because _).mono ?_)
  rintro _ _ ⟨rest, rfl, rfl, hlead, hrest⟩
  cases rest with
  | nil => simpa using hfirst ts first hP
  | cons part rest => exact hnode (part :: rest) (by simp) hP hlead hrest

theorem reads_operation {ω : Type} {operator? : Kind → Option ω} {operand : Bool → Rule Expr}
    {complaint : Complaint} {P : List Token → Expr → Prop}
    (hoperand : ∀ required c, (operand required).Reads c P) :
    (operation operator? operand complaint).Reads c
      (Optional (LedBy (fun token pair => operator? token.kind = some pair.1)
        fun tokens pair => P tokens pair.2)) := by
  refine .peekKind ?_
  split
  next op hop =>
    obtain ⟨kind, hkind, hop⟩ := Option.bind_eq_some_iff.1 hop
    refine .advanceOf hkind fun token htoken => .andReturn ?_
    exact ((hoperand true _).because complaint).mono fun tokens e hP =>
      .some (.intro (htoken ▸ hop) hP)
  next => exact .pure (.none rfl)

theorem reads_binary {ω : Type} {operator? : Kind → Option ω} {operand : Bool → Rule Expr}
    {complaint : Complaint} {node : Expr → List (ω × Expr) → Expr}
    {P Q : List Token → Expr → Prop} (hoperand : ∀ required c, (operand required).Reads c P)
    (hfirst : ∀ ts e, P ts e → Q ts e)
    (hnode : ∀ {ts first} (rest : List (Led (ω × Expr))), rest ≠ [] → P ts first →
      (∀ part ∈ rest, operator? part.lead.kind = some part.tree.1) →
      (∀ part ∈ rest, P part.tokens part.tree.2) →
      Q (ts ++ rest.flatMap Led.row) (node first (rest.map (·.tree)))) (required : Bool) :
    (binary operator? operand complaint node required).Reads c Q := by
  refine (hoperand required c).bind fun ts first c' _ hP => ?_
  refine .andReturn ((Reads.manyLed fun c => reads_operation hoperand).mono ?_)
  rintro _ _ ⟨rest, rfl, rfl, hlead, hrest⟩
  cases rest with
  | nil => simpa using hfirst ts first hP
  | cons part rest => exact hnode (part :: rest) (by simp) hP hlead hrest

/-! ### Blocks and control flow -/

/-- The rules for what is nested deeper match what is derived. -/
structure Sound (deeper : Nested) : Prop where
  expr : ∀ required c, (deeper.expr required).Reads c (Derives .expr)
  operand : ∀ c, deeper.operand.Reads c (Derives .unary)

/-- What is derived from some tokens with one of the given kind before them. -/
def After (kind : Kind) (phrase : Phrase) (tokens : List Token) (tree : phrase.Tree) : Prop :=
  ∀ token : Token, token.kind = kind → Derives phrase (token :: tokens) tree

variable {deeper : Nested}

theorem reads_statements (h : Sound deeper) :
    (statements deeper).Reads c (Derives .statements) := by
  refine (Reads.manyRow fun c => (h.expr false c).optional).mono ?_
  rintro _ _ ⟨parts, rfl, rfl, hparts⟩
  exact .statements parts hparts

theorem reads_block (h : Sound deeper) (construct : Construct) :
    (block deeper construct).Reads c (Derives .block) := by
  refine .expect fun left _ hleft => ?_
  refine (reads_statements h).bind fun ts body _ _ hbody => ?_
  exact .expect fun right _ hright => .pure (.block hleft hbody hright)

theorem reads_branch (h : Sound deeper) (keyword : String) :
    (branch deeper keyword).Reads c (Derives .branch) := by
  refine ((h.expr true c).because _).bind fun ts condition _ _ hcondition => ?_
  exact .andReturn ((reads_block h _).mono fun us body hbody => .branch hcondition hbody)

theorem reads_cond (h : Sound deeper) :
    (cond deeper).Reads c (After (.keyword .if) .control) := by
  refine (reads_branch h _).bind fun ts first c₁ _ hfirst => ?_
  refine (Reads.manyLed fun _ => .after fun _ => reads_branch h _).bind fun us branches _ _ hrow => ?_
  obtain ⟨rest, rfl, rfl, helif, hrest⟩ := hrow
  refine .andReturn ((Reads.after fun _ => reads_block h _).mono fun vs last hlast => ?_)
  intro keyword hkeyword
  refine .cond rest hkeyword hfirst helif hrest ?_
  cases hlast with
  | some hblock =>
      obtain ⟨helse, hbody⟩ := hblock
      exact .otherwise helse hbody
  | none hvs =>
      subst hvs
      exact .noOtherwise

theorem reads_whileLoop (h : Sound deeper) :
    (whileLoop deeper).Reads c (After (.keyword .while) .control) := by
  refine ((h.expr true c).because _).bind fun ts condition _ _ hcondition => ?_
  refine .andReturn ((reads_block h _).mono fun us body hbody => ?_)
  intro keyword hkeyword
  exact .while hkeyword hcondition hbody

theorem reads_returnValue (h : Sound deeper) :
    (returnValue deeper).Reads c (After (.keyword .return) .control) := by
  refine .andReturn ((Reads.after fun c' => (h.expr true c').because _).mono fun ts value hvalue => ?_)
  intro keyword hkeyword
  cases hvalue with
  | some hled =>
      obtain ⟨hcolon, hvalue⟩ := hled
      exact .returnValue hkeyword hcolon hvalue
  | none hts =>
      subst hts
      exact .return hkeyword

theorem reads_forLoop (h : Sound deeper) :
    (forLoop deeper).Reads c (After (.keyword .for) .control) := by
  refine (reads_name _).bind fun ns value _ _ hvalue => ?_
  refine (Reads.after fun _ => reads_name _).bind fun ks key _ _ hkey => ?_
  refine .accept (fun word _ hword => ?_) (.expect fun word _ hword => ?_)
  · refine ((h.expr true _).because _).bind fun ts items _ _ hitems => ?_
    refine .andReturn ((reads_block h _).mono fun us body hbody => ?_)
    intro keyword hkeyword
    exact .forIn hkeyword hvalue hkey hword hitems hbody
  · refine .ite (fun _ => (reads_reject _).bind fun _ _ _ _ (hfalse : False) => hfalse.elim)
      fun hsingle => ?_
    cases hkey with
    | some hkey => exact absurd rfl hsingle
    | none hks =>
        subst hks
        refine ((h.expr true _).because _).bind fun ts start _ _ hstart => ?_
        refine .expect fun dots _ hdots => ?_
        refine ((h.expr true _).because _).bind fun us stop _ _ hstop => ?_
        refine (Reads.after fun c' => (h.expr true c').because _).bind fun vs step _ _ hstep => ?_
        refine .andReturn ((reads_block h _).mono fun ws body hbody => ?_)
        intro keyword hkeyword
        cases hstep with
        | some hled =>
            obtain ⟨hmore, hstep⟩ := hled
            exact .forOfStep hkeyword hvalue hword hstart hdots hstop hmore hstep hbody
        | none hvs =>
            subst hvs
            exact .forOf hkeyword hvalue hword hstart hdots hstop hbody

theorem reads_control? (h : Sound deeper) :
    (control? deeper).Reads c (Optional (Derives .control)) := by
  refine .peekKind ?_
  split
  next hkind =>
    exact .advanceOf hkind fun token htoken =>
      .andReturn ((reads_cond h).mono fun _ _ hcontrol => .some (hcontrol token htoken))
  next hkind =>
    exact .advanceOf hkind fun token htoken =>
      .andReturn ((reads_whileLoop h).mono fun _ _ hcontrol => .some (hcontrol token htoken))
  next hkind =>
    exact .advanceOf hkind fun token htoken =>
      .andReturn ((reads_block h _).mono fun _ _ hbody => .some (.loop htoken hbody))
  next hkind =>
    exact .advanceOf hkind fun token htoken =>
      .andReturn ((reads_forLoop h).mono fun _ _ hcontrol => .some (hcontrol token htoken))
  next hkind =>
    exact .advanceOf hkind fun token htoken =>
      .andReturn ((reads_returnValue h).mono fun _ _ hcontrol => .some (hcontrol token htoken))
  next hkind => exact .advanceOf hkind fun token htoken => .pure (.some (.continue htoken))
  next hkind => exact .advanceOf hkind fun token htoken => .pure (.some (.break htoken))
  next => exact reads_reject _
  next => exact .pure (.none rfl)

/-! ### Values -/

theorem reads_elements? (h : Sound deeper) (construct : Construct) :
    (elements? deeper construct).Reads c fun tokens elements =>
      Derives .elements tokens (elements.getD []) := by
  refine (h.expr false c).optional.bind fun ts first _ _ hfirst => ?_
  cases hfirst with
  | none hts =>
      subst hts
      exact .pure .noElements
  | some hfirst =>
      refine .andReturn ((Reads.manyLed fun _ => .after fun c' => (h.expr true c').because _).mono ?_)
      rintro _ _ ⟨rest, rfl, rfl, hcomma, hrest⟩
      exact .elements rest hfirst hcomma hrest

theorem reads_list (h : Sound deeper) :
    (list deeper).Reads c (After (.symbol .leftBracket) .value) := by
  refine (reads_elements? h _).bind fun ts elements _ _ helements => ?_
  refine .expect fun right _ hright => .pure ?_
  intro left hleft
  exact .list hleft helements hright

theorem reads_literal? : literal?.Reads c (Optional fun tokens e =>
    ∃ token, c.rest.head? = some token ∧ tokens = [token] ∧ Literal token e) := by
  refine .peek ?_
  cases hhead : c.rest.head? with
  | none => exact .pure (.none rfl)
  | some token =>
      simp only
      split
      next hkind => exact .advance hhead (.pure (.some ⟨token, rfl, rfl, .null hkind⟩))
      next hkind => exact .advance hhead (.pure (.some ⟨token, rfl, rfl, .true hkind⟩))
      next hkind => exact .advance hhead (.pure (.some ⟨token, rfl, rfl, .false hkind⟩))
      next hkind => exact .advance hhead (.pure (.some ⟨token, rfl, rfl, .name hkind⟩))
      next hkind => exact .advance hhead (.pure (.some ⟨token, rfl, rfl, .string hkind⟩))
      next hkind =>
        split
        next value hvalue =>
          exact .advance hhead (.pure (.some ⟨token, rfl, rfl, .number hkind hvalue⟩))
        next => exact reads_reject _
      next => exact .pure (.none rfl)

/-- A literal is there and is passed, or nothing is. -/
theorem reads_literal?_bind {β : Type} {Q : List Token → β → Prop} {next : Option Expr → Rule β}
    (hsome : ∀ token e c', c.rest.head? = some token → Literal token e →
      (next (some e)).Reads c' fun tokens value => Q (token :: tokens) value)
    (hnone : ∀ c', (next none).Reads c' Q) : (literal? >>= next).Reads c Q := by
  refine reads_literal?.bind fun ts found c' _ hfound => ?_
  cases hfound with
  | some hliteral =>
      obtain ⟨token, hhead, rfl, hliteral⟩ := hliteral
      exact hsome token _ c' hhead hliteral
  | none hts =>
      subst hts
      exact hnone c'

theorem reads_entryValue (h : Sound deeper) :
    (entryValue deeper).Reads c fun tokens value =>
      ∃ colon ts, colon.kind = .symbol .colon ∧ tokens = colon :: ts ∧ Derives .expr ts value := by
  refine .expect fun colon c' hcolon => ?_
  exact ((h.expr true c').because _).mono fun ts value hvalue => ⟨colon, ts, hcolon, rfl, hvalue⟩

/-- The rest of an entry after a literal key. -/
theorem reads_literalEntry (h : Sound deeper) {token : Token} {e : Expr}
    (hkind : token.kind = .string ∨ token.kind = .number) (hkey : Literal token e) :
    (entryValue deeper >>= fun value => pure (Entry.computed e value)).Reads c fun tokens entry =>
      Derives .entry (token :: tokens) entry := by
  refine .andReturn ((reads_entryValue h).mono ?_)
  rintro _ value ⟨colon, ts, hcolon, rfl, hvalue⟩
  exact .literalKey hkind hkey hcolon hvalue

theorem reads_entry (h : Sound deeper) : (entry deeper).Reads c (Derives .entry) := by
  refine .peek ?_
  cases hhead : c.rest.head? with
  | none => exact reads_reject _
  | some token =>
      simp only
      split
      next hkind =>
        refine .advance hhead (.andReturn ((reads_entryValue h).mono ?_))
        rintro _ value ⟨colon, ts, hcolon, rfl, hvalue⟩
        exact .named ⟨token, hkind, rfl, rfl⟩ hcolon hvalue
      next hkind =>
        refine reads_literal?_bind (fun key e _ hkey he => ?_) fun _ => reads_reject _
        cases hhead.symm.trans hkey
        exact reads_literalEntry h (.inl hkind) he
      next hkind =>
        refine reads_literal?_bind (fun key e _ hkey he => ?_) fun _ => reads_reject _
        cases hhead.symm.trans hkey
        exact reads_literalEntry h (.inr hkind) he
      next hkind =>
        refine .advance hhead (((h.expr true _).because _).bind fun ks key _ _ hkey => ?_)
        refine .expect fun right _ hright => .andReturn ((reads_entryValue h).mono ?_)
        rintro _ value ⟨colon, ts, hcolon, rfl, hvalue⟩
        exact .computed hkind hkey hright hcolon hvalue
      next => exact reads_reject _

/-- A comma, or nothing. -/
def TrailingComma (tokens : List Token) : Prop :=
  ∃ trailing : Option Token, tokens = trailing.toList ∧ ∀ comma ∈ trailing, comma.kind = .symbol .comma

theorem reads_entryAfterComma (h : Sound deeper) :
    (entryAfterComma deeper).Reads c
      (Found (LedBy (fun comma _ => comma.kind = .symbol .comma) (Derives .entry)) TrailingComma) := by
  refine .accept (fun comma _ hcomma => .peekKind (.ite (fun _ => ?_) fun _ => ?_)) ?_
  · exact .pure (.none ⟨some comma, rfl, by simpa using hcomma⟩)
  · exact .andReturn ((reads_entry h).mono fun _ _ hentry => .some (.intro hcomma hentry))
  · exact .pure (.none ⟨none, rfl, by simp⟩)

theorem reads_table (h : Sound deeper) :
    (table deeper).Reads c (After (.symbol .leftBrace) .value) := by
  refine .accept (fun right _ hright => .pure ?_) ?_
  · intro left hleft
    exact .table hleft .noEntries hright
  · refine (reads_entry h).bind fun ts first c' _ hfirst => ?_
    refine (Reads.manyThen (P := fun _ => LedBy _ _) (fun _ => reads_entryAfterComma h)
      ⟨none, rfl, by simp⟩ c').bind fun us entries _ _ hread => ?_
    obtain ⟨front, last, rfl, hitems, trailing, rfl, htrailing⟩ := hread
    obtain ⟨rest, rfl, rfl, hcomma, hrest⟩ := hitems.ledRow
    refine .expect fun right _ hright => .pure ?_
    intro left hleft
    have hentries := Derives.entries rest trailing hfirst hcomma hrest htrailing
    simpa using Derives.table hleft hentries hright

theorem reads_quote (h : Sound deeper) :
    (quote deeper).Reads c (After (.symbol .leftParen) .value) := by
  refine ((h.expr true c).because _).bind fun ts inner _ _ hinner => ?_
  refine .expect fun right _ hright => .pure ?_
  intro left hleft
  exact .quote hleft hinner hright

theorem reads_function (h : Sound deeper) :
    (function deeper).Reads c (After (.keyword .func) .value) := by
  refine reads_name?.bind fun ns name _ _ hname => ?_
  refine .expect fun left _ hleft => ?_
  -- the rest of the rule, once the parameters are known
  have hbody : ∀ (params : List String) (ps : List Token) (c : Cursor), Names ps params →
      (expect (.symbol .rightParen) .funcClose >>= fun _ =>
        block deeper .func >>= fun body => pure (Expr.function name params body)).Reads c
        fun ts e => After (.keyword .func) .value (ns ++ left :: (ps ++ ts)) e := by
    intro params ps c hparams
    refine .expect fun right _ hright => .andReturn ((reads_block h _).mono fun ts body hbody => ?_)
    intro keyword hkeyword
    exact .function hkeyword hname hleft hparams hright hbody
  refine reads_name?.bind fun ps first c' _ hfirst => ?_
  cases hfirst with
  | none hps =>
      subst hps
      exact hbody [] [] c' .nil
  | some hfirst =>
      refine (Reads.manyLed fun _ => .after fun _ => reads_name _).bind fun us params c'' _ hrow => ?_
      obtain ⟨rest, rfl, rfl, hcomma, hrest⟩ := hrow
      refine (hbody _ _ c'' (.cons rest hfirst hcomma hrest)).mono fun ts e he => ?_
      rwa [List.append_assoc] at he

theorem reads_value (h : Sound deeper) (required : Bool) :
    (value deeper required).Reads c (Derives .value) := by
  refine reads_literal?_bind (fun token e _ _ hliteral => .pure (.literal hliteral)) fun _ => ?_
  refine .peekKind ?_
  split
  next hkind =>
    exact .advanceOf hkind fun left hleft => (reads_list h).mono fun _ _ hlist => hlist left hleft
  next hkind =>
    exact .advanceOf hkind fun left hleft => (reads_table h).mono fun _ _ htable => htable left hleft
  next hkind =>
    exact .advanceOf hkind fun left hleft => (reads_quote h).mono fun _ _ hquote => hquote left hleft
  next hkind =>
    exact .advanceOf hkind fun keyword hkeyword =>
      (reads_function h).mono fun _ _ hfunction => hfunction keyword hkeyword
  next => exact reads_noMatch required

/-! ### Access to parts -/

/-- Some tokens extend every access whose last token is on the given line. -/
def Extends (line : Option Nat) (tokens : List Token) (accessor : Accessor) : Prop :=
  ∀ (before : Option Nat) (ts : List Token) (target : Expr) (chain : List Accessor), ts ≠ [] →
    lineAfter before ts = line → Derives .access ts (target, chain) →
    Derives .access (ts ++ tokens) (target, chain ++ [accessor])

theorem onLine_of_lineAfter {before : Option Nat} {ts : List Token} {token : Token} (hts : ts ≠ [])
    (hline : lineAfter before ts = some token.span.line) : OnLine ts token := by
  rw [lineAfter, List.getLast?_eq_some_getLast hts] at hline
  rw [OnLine, List.getLast?_eq_some_getLast hts]
  exact hline

theorem onSameLine_run {token : Token} (hhead : c.rest.head? = some token) :
    onSameLine c = .ok (decide (c.line = some token.span.line), c) := by
  obtain ⟨line, rest⟩ := c
  cases rest with
  | nil => cases hhead
  | cons first rest =>
      cases hhead
      rfl

theorem reads_onSameLine {β : Type} {Q : List Token → β → Prop} {token : Token}
    {next : Bool → Rule β} (hhead : c.rest.head? = some token)
    (hyes : c.line = some token.span.line → (next true).Reads c Q) (hno : (next false).Reads c Q) :
    (onSameLine >>= next).Reads c Q := by
  intro value c' hvalue
  change (onSameLine c >>= fun found => next found.1 found.2) = .ok (value, c') at hvalue
  rw [onSameLine_run hhead] at hvalue
  by_cases hline : c.line = some token.span.line
  · rw [decide_eq_true hline] at hvalue
    exact hyes hline value c' hvalue
  · rw [decide_eq_false hline] at hvalue
    exact hno value c' hvalue

theorem reads_accessor? (h : Sound deeper) :
    (accessor? deeper).Reads c (Optional (Extends c.line)) := by
  refine .peekKind ?_
  split
  next hkind =>
    obtain ⟨left, hhead, hleft⟩ := Option.map_eq_some_iff.1 hkind
    refine reads_onSameLine hhead (fun hline => ?_) (.pure (.none rfl))
    refine .advance hhead (((h.expr true _).because _).bind fun us index _ _ hindex => ?_)
    refine .expect fun right _ hright => .pure (.some ?_)
    intro before ts target chain hts hafter haccess
    exact .index haccess hleft (onLine_of_lineAfter hts (hafter.trans hline)) hindex hright
  next hkind =>
    refine .advanceOf hkind fun dot hdot => .andReturn ((reads_name _).mono fun ns name hname => ?_)
    refine .some ?_
    intro before ts target chain _ _ haccess
    exact .member haccess hdot hname
  next hkind =>
    obtain ⟨left, hhead, hleft⟩ := Option.map_eq_some_iff.1 hkind
    refine reads_onSameLine hhead (fun hline => ?_) (.pure (.none rfl))
    refine .advance hhead ((reads_elements? h _).bind fun us args _ _ hargs => ?_)
    refine .expect fun right _ hright => .pure (.some ?_)
    intro before ts target chain hts hafter haccess
    exact .call haccess hleft (onLine_of_lineAfter hts (hafter.trans hline)) hargs hright
  next => exact .pure (.none rfl)

theorem Derives.value_ne_nil {ts : List Token} {e : Expr} (h : Derives .value ts e) : ts ≠ [] := by
  cases h <;> simp

/-- A chain of accesses is derived from left to right. -/
theorem derives_chain {line before : Option Nat} {ts us : List Token} {target : Expr}
    {front chain : List Accessor} (hitems : Items Extends line us chain) (hts : ts ≠ [])
    (hline : lineAfter before ts = line) (haccess : Derives .access ts (target, front)) :
    Derives .access (ts ++ us) (target, front ++ chain) := by
  induction hitems generalizing ts front with
  | nil => simpa using haccess
  | cons hitem _ ih =>
      have hnext := hitem before ts target front hts hline haccess
      have hrest := ih (by simp [hts]) (by rw [lineAfter_append, hline]) hnext
      simpa using hrest

theorem reads_access (h : Sound deeper) (required : Bool) :
    (access deeper required).Reads c (Derives .primary) := by
  refine (reads_value h required).bind fun ts target c' hpasses htarget => ?_
  refine .andReturn ((Reads.many (fun _ => reads_accessor? h) c').mono fun us chain hitems => ?_)
  have hchain := derives_chain hitems (Derives.value_ne_nil htarget) hpasses.line.symm
    (.target htarget)
  cases chain <;> exact .access hchain

theorem reads_primary (h : Sound deeper) (required : Bool) :
    (primary deeper required).Reads c (Derives .primary) := by
  refine (reads_control? h).bind fun ts control _ _ hcontrol => ?_
  cases hcontrol with
  | some hcontrol => exact .pure (by simpa using Derives.process hcontrol)
  | none hts =>
      subst hts
      exact reads_access h required

/-! ### Expressions -/

theorem reads_unary (h : Sound deeper) (required : Bool) (c : Cursor) :
    (unary deeper required).Reads c (Derives .unary) := by
  refine .peekKind ?_
  split
  next op hop =>
    obtain ⟨kind, hkind, hop⟩ := Option.bind_eq_some_iff.1 hop
    refine .advanceOf hkind fun token htoken => .andReturn (((h.operand _).because _).mono ?_)
    intro ts operand hoperand
    exact .unary (htoken.trans (kind_of_unaryOp? hop)) hoperand
  next => exact (reads_primary h required).mono fun _ _ hprimary => .unaryOperand hprimary

theorem reads_mul (h : Sound deeper) (required : Bool) (c : Cursor) :
    (mul deeper required).Reads c (Derives .mul) :=
  reads_binary (reads_unary h) (fun _ _ => .mulOperand)
    (fun rest hsome hfirst hop =>
      .mul rest hsome hfirst fun part hpart => kind_of_mulOp? (hop part hpart)) required

theorem reads_add (h : Sound deeper) (required : Bool) (c : Cursor) :
    (add deeper required).Reads c (Derives .add) :=
  reads_binary (reads_mul h) (fun _ _ => .addOperand)
    (fun rest hsome hfirst hop =>
      .add rest hsome hfirst fun part hpart => kind_of_addOp? (hop part hpart)) required

theorem reads_compare (h : Sound deeper) (required : Bool) (c : Cursor) :
    (compare deeper required).Reads c (Derives .compare) :=
  reads_binary (reads_add h) (fun _ _ => .compareOperand)
    (fun rest hsome hfirst hop =>
      .compare rest hsome hfirst fun part hpart => kind_of_compareOp? (hop part hpart)) required

theorem reads_and (h : Sound deeper) (required : Bool) (c : Cursor) :
    (and deeper required).Reads c (Derives .and) :=
  reads_logical (reads_compare h) (fun _ _ => .andOperand) .and required

theorem reads_or (h : Sound deeper) (required : Bool) (c : Cursor) :
    (or deeper required).Reads c (Derives .or) :=
  reads_logical (reads_and h) (fun _ _ => .orOperand) .or required

theorem reads_global (h : Sound deeper) :
    (global deeper).Reads c (After (.keyword .global) .expr) := by
  refine (reads_name _).bind fun ns name _ _ hname => ?_
  refine .expect fun sign c' hsign => ?_
  refine .andReturn (((h.expr true c').because _).mono fun ts value hvalue => ?_)
  intro keyword hkeyword
  exact .global hkeyword hname hsign hvalue

theorem reads_update? (h : Sound deeper) :
    (update? deeper).Reads c (Optional (Derives .update)) := by
  have hvalue := fun c => (h.expr true c).because Complaint.assignValue
  refine .peekKind ?_
  split
  next hkind =>
    exact .advanceOf hkind fun sign hsign =>
      .andReturn ((hvalue _).mono fun _ _ hvalue => .some (.set hsign hvalue))
  next hkind =>
    exact .advanceOf hkind fun sign hsign =>
      .andReturn ((hvalue _).mono fun _ _ hvalue => .some (.addTo hsign hvalue))
  next hkind =>
    exact .advanceOf hkind fun sign hsign =>
      .andReturn ((hvalue _).mono fun _ _ hvalue => .some (.subFrom hsign hvalue))
  next hkind => exact .advanceOf hkind fun sign hsign => .pure (.some (.increment hsign))
  next hkind => exact .advanceOf hkind fun sign hsign => .pure (.some (.decrement hsign))
  next => exact .pure (.none rfl)

theorem denotes_of_target? {e : Expr} {target : Target} (h : target? e = some target) :
    Denotes e target := by
  cases e with
  | name name =>
      cases h
      exact .name name
  | access container chain =>
      rcases List.eq_nil_or_concat chain with rfl | ⟨front, last, rfl⟩
      · cases h
      · rw [List.concat_eq_append] at h ⊢
        simp only [target?, List.dropLast_concat, List.getLast?_concat] at h
        cases last with
        | index index => cases front <;> cases h <;> exact .index container _ index
        | member name => cases front <;> cases h <;> exact .member container _ name
        | call args => cases h
  | _ => cases h

theorem reads_expr (h : Sound deeper) (required : Bool) (c : Cursor) :
    (expr deeper required).Reads c (Derives .expr) := by
  refine .accept (fun keyword _ hkeyword => ?_) ?_
  · exact (reads_global h).mono fun _ _ hglobal => hglobal keyword hkeyword
  · refine (reads_control? h).bind fun ts control _ _ hcontrol => ?_
    cases hcontrol with
    | some hcontrol =>
        have hmul := Derives.mulOperand (.unaryOperand (.process hcontrol))
        have hand := Derives.andOperand (.compareOperand (.addOperand hmul))
        exact .pure (by simpa using Derives.plain (.orOperand hand))
    | none hts =>
        subst hts
        refine .peekSpan ((reads_or h required _).bind fun ts left _ _ hleft => ?_)
        refine (reads_update? h).bind fun us update _ _ hupdate => ?_
        cases hupdate with
        | none hus =>
            subst hus
            exact .pure (by simpa using Derives.plain hleft)
        | some hupdate =>
            simp only
            split
            next target htarget =>
              refine .pure ?_
              simpa using Derives.assign hleft (denotes_of_target? htarget) hupdate
            next => exact .throw _

/-- At every number of levels the nested rules are sound. -/
theorem sound_nested (levels : Nat) : Sound (nested levels) := by
  induction levels with
  | zero => exact ⟨fun _ _ => .peekSpan (.throw _), fun _ => .peekSpan (.throw _)⟩
  | succ levels ih => exact ⟨reads_expr ih, reads_unary ih true⟩

end Grammar

/-- A row of tokens that is a program is derived as that program. The names, numbers and strings of the
program are those of the tokens, and the brackets among the tokens are balanced. -/
theorem derives_of_parse {tokens : List Token} {program : Block} (h : parse tokens = .ok program) :
    Derives .statements tokens program ∧ leavesOf tokens = allLeaves program ∧ Balanced tokens := by
  obtain ⟨line, hrun⟩ := parse_eq_ok_iff.1 h
  obtain ⟨ts, hpasses, hderives⟩ :=
    Grammar.reads_statements (Grammar.sound_nested Grammar.maxDepth) _ _ hrun
  have htokens : tokens = ts ++ [] := hpasses.rest
  rw [List.append_nil] at htokens
  subst htokens
  have hyields := hderives.yields
  exact ⟨hderives, hyields.leaves, hyields.closed []⟩

/-- Words on one line. -/
def wordsOn (line : Nat) (words : List (Kind × Option String)) : List Token :=
  words.map fun (kind, text) => ⟨kind, text, ⟨0, 0, line, 0⟩⟩

/-- A table with a comma after its last entry, and on the next line a list, which is no index. -/
def tableTokens : List Token :=
  wordsOn 0 [(.identifier, some "t"), (.symbol .dot, none), (.identifier, some "k"),
    (.symbol .assign, none), (.symbol .leftBrace, none), (.identifier, some "a"),
    (.symbol .colon, none), (.symbol .leftParen, none), (.number, some "1.5"),
    (.symbol .rightParen, none), (.symbol .comma, none), (.symbol .rightBrace, none)] ++
  wordsOn 1 [(.symbol .leftBracket, none), (.identifier, some "f"), (.symbol .leftParen, none),
    (.string, some "x"), (.symbol .rightParen, none), (.symbol .rightBracket, none)]

def tableProgram : Block :=
  [.assign (.member (.name "t") "k") (.set (.table [.named "a" (.number 1.5)])),
    .list [.access (.name "f") [.call [.string "x"]]]]

theorem derives_of_parse_tableTokens :
    Derives .statements tableTokens tableProgram ∧
      leavesOf tableTokens = allLeaves tableProgram ∧ Balanced tableTokens :=
  derives_of_parse rfl

end TableScript
