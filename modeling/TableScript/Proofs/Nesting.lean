import TableScript.Proofs.Layout
import TableScript.Proofs.Parsed

/-!
Levels of nesting. Each expression of a program is on a level, counted from the statements of the
program inwards. The rules count the levels that they enter, and a program whose expressions go
deeper than the limit is never returned.
-/

namespace TableScript

open Rule

variable {α β : Type}

/-! ### Levels -/

/-- The expressions that a target holds on the level of its assignment. -/
def Target.peers : Target → List Expr
  | .name _ => []
  | .index container _ | .member container _ => [container]

/-- The expressions that a target holds one level deeper. -/
def Target.inner : Target → List Expr
  | .index _ e => [e]
  | .name _ | .member _ _ => []

/-- The parts of an expression on its own level: the operands of binary operators, and what is
reached into. -/
def Expr.peers : Expr → List Expr
  | .or first rest | .and first rest => first :: rest
  | .compare first rest => first :: rest.map (·.2)
  | .add first rest => first :: rest.map (·.2)
  | .mul first rest => first :: rest.map (·.2)
  | .access target _ => [target]
  | .assign target _ => target.peers
  | .null | .bool _ | .number _ | .string _ | .name _ | .list _ | .table _ | .function _ _ _
  | .unary _ _ | .global _ _ | .control _ => []

/-- The parts of an expression one level deeper: statements of blocks, elements, keys and values,
indices, arguments, assigned and returned values, conditions, what loops go through, and the operand
of a prefix operator. -/
def Expr.inner : Expr → List Expr
  | .list elements => elements
  | .table entries => entries.flatMap Entry.children
  | .function _ _ body => body
  | .unary _ operand => [operand]
  | .access _ chain => chain.flatMap Accessor.children
  | .assign target update => target.inner ++ update.children
  | .global _ value => [value]
  | .control tree => tree.children
  | .null | .bool _ | .number _ | .string _ | .name _ | .or _ _ | .and _ _ | .compare _ _ | .add _ _
  | .mul _ _ => []

/-- An expression of a program and its level. The statements of the program are on level 1. -/
inductive OnLevel (program : Block) : Nat → Expr → Prop where
  | statement {e : Expr} (h : e ∈ program) : OnLevel program 1 e
  | peer {level : Nat} {e part : Expr} (h : OnLevel program level e) (hpart : part ∈ e.peers) :
      OnLevel program level part
  | inner {level : Nat} {e part : Expr} (h : OnLevel program level e) (hpart : part ∈ e.inner) :
      OnLevel program (level + 1) part

/-- An expression that takes no more than a number of levels, its own included. -/
inductive Expr.Fits : Nat → Expr → Prop where
  | intro {levels : Nat} {e : Expr} (hpeers : ∀ part ∈ e.peers, Fits (levels + 1) part)
      (hinner : ∀ part ∈ e.inner, Fits levels part) : Fits (levels + 1) e

namespace Expr.Fits

variable {levels : Nat} {e part : Expr}

theorem peer (h : e.Fits levels) (hpart : part ∈ e.peers) : part.Fits levels := by
  cases h with
  | intro hpeers _ => exact hpeers part hpart

theorem inner (h : e.Fits (levels + 1)) (hpart : part ∈ e.inner) : part.Fits levels := by
  cases h with
  | intro _ hinner => exact hinner part hpart

theorem pos (h : e.Fits levels) : ∃ fewer, levels = fewer + 1 := by
  cases h with
  | intro => exact ⟨_, rfl⟩

theorem succ (h : e.Fits levels) : e.Fits (levels + 1) := by
  induction h with
  | intro _ _ ihpeers ihinner => exact .intro ihpeers ihinner

/-- Where all statements fit, every expression is on one of the levels. -/
theorem of_onLevel {program : Block} {level : Nat} (hprogram : ∀ e ∈ program, e.Fits levels)
    (h : OnLevel program level e) : ∃ left, level + left = levels ∧ e.Fits (left + 1) := by
  induction h with
  | statement hmem =>
      obtain ⟨left, rfl⟩ := (hprogram _ hmem).pos
      exact ⟨left, Nat.add_comm 1 left, hprogram _ hmem⟩
  | peer _ hpart ih =>
      obtain ⟨left, hlevels, hfits⟩ := ih
      exact ⟨left, hlevels, hfits.peer hpart⟩
  | inner _ hpart ih =>
      obtain ⟨left, hlevels, hfits⟩ := ih
      have hpart := hfits.inner hpart
      obtain ⟨fewer, rfl⟩ := hpart.pos
      exact ⟨fewer, by omega, hpart⟩

end Expr.Fits

/-! ### What rules return -/

namespace Rule

/-- What the rule returns satisfies `P`, wherever it matches. -/
def Returns (rule : Rule α) (P : α → Prop) : Prop :=
  ∀ c x c', rule c = .ok (x, c') → P x

namespace Returns

variable {rule : Rule α} {next : α → Rule β} {P P' : α → Prop} {Q : β → Prop}

theorem mono (h : rule.Returns P) (himplies : ∀ x, P x → P' x) : rule.Returns P' :=
  fun c x c' hrun => himplies x (h c x c' hrun)

theorem pure {x : α} (h : P x) : (Pure.pure x : Rule α).Returns P := by
  intro c y c' hrun
  cases hrun
  exact h

theorem bind (hrule : rule.Returns P) (hnext : ∀ x, P x → (next x).Returns Q) :
    (rule >>= next).Returns Q := by
  intro c y c'' hrun
  change (rule c >>= fun found => next found.1 found.2) = .ok (y, c'') at hrun
  cases hfirst : rule c with
  | error rejection =>
      rw [hfirst] at hrun
      cases hrun
  | ok found =>
      obtain ⟨x, c'⟩ := found
      rw [hfirst] at hrun
      exact hnext x (hrule c x c' hfirst) c' y c'' hrun

theorem andReturn {f : α → β} (hrule : rule.Returns fun x => Q (f x)) :
    (rule >>= fun x => Pure.pure (f x)).Returns Q :=
  hrule.bind fun _ hQ => pure hQ

/-- What the first of two rules returns may not matter. -/
theorem skip (hnext : ∀ x, (next x).Returns Q) : (rule >>= next).Returns Q :=
  bind (P := fun _ => True) (fun _ _ _ _ => trivial) fun x _ => hnext x

theorem throw (rejection : Rejection) : (MonadExcept.throw rejection : Rule α).Returns P := by
  intro c x c' hrun
  cases hrun

theorem reject (complaint : Complaint) : (Rule.reject complaint : Rule α).Returns P :=
  skip fun _ => throw _

theorem noMatch (required : Bool) : (Rule.noMatch required : Rule α).Returns P :=
  skip fun _ => throw _

theorem ite {p : Prop} [Decidable p] {yes no : Rule α} (hyes : yes.Returns P) (hno : no.Returns P) :
    (if p then yes else no).Returns P := by
  by_cases hp : p
  · rwa [if_pos hp]
  · rwa [if_neg hp]

theorem because (h : rule.Returns P) (complaint : Complaint) :
    (Rule.because complaint rule).Returns P := by
  intro c x c' hrun
  rw [Rule.because] at hrun
  split at hrun
  next hfound =>
    cases hrun
    exact h c x c' hfound
  next => cases hrun

theorem optional (h : rule.Returns P) :
    (Rule.optional rule).Returns fun found => ∀ x ∈ found, P x := by
  intro c found c' hrun
  rw [Rule.optional] at hrun
  split at hrun
  next x c'' hfound =>
    cases hrun
    simpa using h c x _ hfound
  next =>
    split at hrun
    · cases hrun
    · cases hrun
      simp

theorem after (h : rule.Returns P) (kind : Kind) :
    (Rule.after kind rule).Returns fun found => ∀ x ∈ found, P x :=
  skip fun _ => ite (andReturn (h.mono fun x hx => by simpa using hx)) (pure (by simp))

theorem manyWithin {item : Rule (Option α)} (h : item.Returns fun found => ∀ x ∈ found, P x)
    (budget : List Token) : (Rule.manyWithin item budget).Returns fun xs => ∀ x ∈ xs, P x := by
  induction budget with
  | nil => exact andReturn (h.mono fun found hfound => by simpa using hfound)
  | cons token budget ih =>
      refine h.bind fun found hfound => ?_
      cases found with
      | none => exact pure (by simp)
      | some x =>
          refine andReturn (ih.mono fun xs hxs => List.forall_mem_cons.2 ⟨?_, hxs⟩)
          exact hfound x rfl

theorem many {item : Rule (Option α)} (h : item.Returns fun found => ∀ x ∈ found, P x) :
    (Rule.many item).Returns fun xs => ∀ x ∈ xs, P x :=
  fun c => manyWithin h c.rest c

end Returns

end Rule

namespace Grammar

/-- What the rules one level deeper return takes no more than a number of levels. -/
structure Shallow (deeper : Nested) (levels : Nat) : Prop where
  expr : ∀ required, (deeper.expr required).Returns (Expr.Fits levels)
  operand : deeper.operand.Returns (Expr.Fits levels)

variable {deeper : Nested} {levels : Nat}

/-! ### Blocks and control flow -/

theorem shallow_statements (h : Shallow deeper levels) :
    (statements deeper).Returns fun body => ∀ e ∈ body, e.Fits levels :=
  .many (h.expr false).optional

theorem shallow_block (h : Shallow deeper levels) (construct : Construct) :
    (block deeper construct).Returns fun body => ∀ e ∈ body, e.Fits levels :=
  .skip fun _ => (shallow_statements h).bind fun _ hbody => .skip fun _ => .pure hbody

theorem shallow_branch (h : Shallow deeper levels) (keyword : String) :
    (branch deeper keyword).Returns fun (condition, body) =>
      condition.Fits levels ∧ ∀ e ∈ body, e.Fits levels :=
  ((h.expr true).because _).bind fun _ hcondition =>
    .andReturn ((shallow_block h _).mono fun _ hbody => ⟨hcondition, hbody⟩)

theorem shallow_cond (h : Shallow deeper levels) :
    (cond deeper).Returns fun control => ∀ part ∈ control.children, part.Fits levels := by
  refine (shallow_branch h _).bind fun first hfirst => ?_
  refine (Returns.many ((shallow_branch h _).after _)).bind fun rest hrest => ?_
  refine .andReturn (((shallow_block h _).after _).mono fun otherwise hotherwise => ?_)
  intro part hpart
  simp only [Control.children, List.mem_append, List.mem_flatMap] at hpart
  rcases hpart with ⟨found, hfound, hpart⟩ | hpart
  · have hbranch : found.1.Fits levels ∧ ∀ e ∈ found.2, e.Fits levels := by
      rcases List.mem_cons.1 hfound with rfl | hfound
      · exact hfirst
      · exact hrest found hfound
    rcases List.mem_cons.1 hpart with rfl | hpart
    · exact hbranch.1
    · exact hbranch.2 part hpart
  · cases otherwise with
    | none => cases hpart
    | some body => exact hotherwise body rfl part hpart

theorem shallow_whileLoop (h : Shallow deeper levels) :
    (whileLoop deeper).Returns fun control => ∀ part ∈ control.children, part.Fits levels :=
  ((h.expr true).because _).bind fun _ hcondition =>
    .andReturn ((shallow_block h _).mono fun _ hbody => List.forall_mem_cons.2 ⟨hcondition, hbody⟩)

theorem shallow_forLoop (h : Shallow deeper levels) :
    (forLoop deeper).Returns fun control => ∀ part ∈ control.children, part.Fits levels := by
  refine .skip fun value => .skip fun key => .skip fun found => .ite ?_ (.skip fun _ => ?_)
  · refine ((h.expr true).because _).bind fun items hitems => ?_
    exact .andReturn ((shallow_block h _).mono fun body hbody =>
      List.forall_mem_cons.2 ⟨hitems, hbody⟩)
  · refine .ite ((Returns.reject _).bind fun _ (hfalse : False) => hfalse.elim) ?_
    refine ((h.expr true).because _).bind fun start hstart => .skip fun _ => ?_
    refine ((h.expr true).because _).bind fun stop hstop => ?_
    refine (((h.expr true).because _).after _).bind fun step hstep => ?_
    refine .andReturn ((shallow_block h _).mono fun body hbody => ?_)
    simp only [Control.children, List.forall_mem_cons, List.forall_mem_append, Option.mem_toList]
    exact ⟨hstart, hstop, hstep, hbody⟩

theorem shallow_returnValue (h : Shallow deeper levels) :
    (returnValue deeper).Returns fun control => ∀ part ∈ control.children, part.Fits levels :=
  .andReturn ((((h.expr true).because _).after _).mono fun value hvalue => by
    simpa [Control.children] using hvalue)

theorem shallow_control? (h : Shallow deeper levels) : (control? deeper).Returns fun found =>
    ∀ control ∈ found, ∀ part ∈ control.children, part.Fits levels := by
  refine .skip fun head => ?_
  split
  · exact .skip fun _ =>
      .andReturn ((shallow_cond h).mono fun _ hcontrol => by simpa using hcontrol)
  · exact .skip fun _ =>
      .andReturn ((shallow_whileLoop h).mono fun _ hcontrol => by simpa using hcontrol)
  · exact .skip fun _ => .andReturn ((shallow_block h _).mono fun _ hbody => by
      simpa [Control.children] using hbody)
  · exact .skip fun _ =>
      .andReturn ((shallow_forLoop h).mono fun _ hcontrol => by simpa using hcontrol)
  · exact .skip fun _ =>
      .andReturn ((shallow_returnValue h).mono fun _ hcontrol => by simpa using hcontrol)
  · exact .skip fun _ => .pure (by simp [Control.children])
  · exact .skip fun _ => .pure (by simp [Control.children])
  · exact .reject _
  · exact .pure (by simp)

/-! ### Values -/

theorem fits_control {control : Control} (h : ∀ part ∈ control.children, part.Fits levels) :
    (Expr.control control).Fits (levels + 1) :=
  .intro (by simp [Expr.peers]) h

theorem shallow_function (h : Shallow deeper levels) :
    (function deeper).Returns (Expr.Fits (levels + 1)) := by
  have hbody : ∀ name params, (expect (.symbol .rightParen) .funcClose >>= fun _ =>
      block deeper .func >>= fun body => pure (Expr.function name params body)).Returns
        (Expr.Fits (levels + 1)) :=
    fun name params => .skip fun _ => .andReturn ((shallow_block h _).mono fun body hbody =>
      .intro (by simp [Expr.peers]) hbody)
  refine .skip fun name => .skip fun _ => .skip fun first => ?_
  cases first with
  | none => exact hbody name []
  | some first => exact .skip fun rest => hbody name (first :: rest)

theorem shallow_elements? (h : Shallow deeper levels) (construct : Construct) :
    (elements? deeper construct).Returns fun found => ∀ e ∈ found.getD [], e.Fits levels := by
  refine (h.expr false).optional.bind fun first hfirst => ?_
  cases first with
  | none => exact .pure (by simp)
  | some first =>
      refine .andReturn ((Returns.many (((h.expr true).because _).after _)).mono
        fun rest hrest => ?_)
      exact List.forall_mem_cons.2 ⟨hfirst first rfl, hrest⟩

theorem shallow_list (h : Shallow deeper levels) : (list deeper).Returns (Expr.Fits (levels + 1)) :=
  (shallow_elements? h _).bind fun _ helements =>
    .skip fun _ => .pure (.intro (by simp [Expr.peers]) helements)

/-- A value of one token has no parts. -/
theorem shallow_literal? :
    literal?.Returns fun found => ∀ e ∈ found, ∀ levels, e.Fits (levels + 1) := by
  have hleaf : ∀ e : Expr, e.peers = [] → e.inner = [] →
      ∀ e' ∈ some e, ∀ levels, e'.Fits (levels + 1) := by
    intro e hpeers hinner e' he' levels
    cases he'
    exact .intro (by simp [hpeers]) (by simp [hinner])
  refine .skip fun head => ?_
  cases head with
  | none => exact .pure (by simp)
  | some token =>
      simp only
      split
      iterate 5 exact .skip fun _ => .pure (hleaf _ rfl rfl)
      · split
        · exact .skip fun _ => .pure (hleaf _ rfl rfl)
        · exact .reject _
      · exact .pure (by simp)

theorem shallow_entryValue (h : Shallow deeper levels) :
    (entryValue deeper).Returns (Expr.Fits levels) :=
  .skip fun _ => (h.expr true).because _

/-- A key that is a literal is no deeper than the value beside it. -/
theorem shallow_literalEntry (h : Shallow deeper levels) {key : Expr}
    (hkey : ∀ levels, key.Fits (levels + 1)) :
    (entryValue deeper >>= fun value => pure (Entry.computed key value)).Returns fun entry =>
      ∀ part ∈ entry.children, part.Fits levels := by
  refine .andReturn ((shallow_entryValue h).mono fun value hvalue => ?_)
  obtain ⟨fewer, rfl⟩ := hvalue.pos
  simpa [Entry.children] using ⟨hkey fewer, hvalue⟩

theorem shallow_entry (h : Shallow deeper levels) :
    (entry deeper).Returns fun entry => ∀ part ∈ entry.children, part.Fits levels := by
  refine .skip fun head => ?_
  cases head with
  | none => exact .reject _
  | some token =>
      simp only
      split
      · exact .skip fun _ => .andReturn ((shallow_entryValue h).mono fun value hvalue => by
          simpa [Entry.children] using hvalue)
      iterate 2
        refine shallow_literal?.bind fun found hfound => ?_
        cases found with
        | none => exact .reject _
        | some key => exact shallow_literalEntry h (hfound key rfl)
      · refine .skip fun _ => ((h.expr true).because _).bind fun key hkey => .skip fun _ => ?_
        exact .andReturn ((shallow_entryValue h).mono fun value hvalue => by
          simpa [Entry.children] using ⟨hkey, hvalue⟩)
      · exact .reject _

theorem shallow_entryAfterComma (h : Shallow deeper levels) : (entryAfterComma deeper).Returns
    fun found => ∀ entry ∈ found, ∀ part ∈ entry.children, part.Fits levels :=
  .skip fun _ => .ite (.skip fun _ => .ite (.pure (by simp)) <|
    .andReturn ((shallow_entry h).mono fun _ hentry => by simpa using hentry)) (.pure (by simp))

theorem shallow_table (h : Shallow deeper levels) :
    (table deeper).Returns (Expr.Fits (levels + 1)) := by
  refine .skip fun _ => .ite (.pure (.intro (by simp [Expr.peers]) (by simp [Expr.inner]))) ?_
  refine (shallow_entry h).bind fun first hfirst => ?_
  refine (Returns.many (shallow_entryAfterComma h)).bind fun rest hrest => ?_
  refine .skip fun _ => .pure (.intro (by simp [Expr.peers]) ?_)
  intro part hpart
  obtain ⟨entry, hentry, hpart⟩ := List.mem_flatMap.1 hpart
  exact List.forall_mem_cons.2 ⟨hfirst, hrest⟩ entry hentry part hpart

theorem shallow_quote (h : Shallow deeper levels) :
    (quote deeper).Returns (Expr.Fits (levels + 1)) :=
  ((h.expr true).because _).bind fun _ hinner => .skip fun _ => .pure hinner.succ

theorem shallow_value (h : Shallow deeper levels) (required : Bool) :
    (value deeper required).Returns (Expr.Fits (levels + 1)) := by
  refine shallow_literal?.bind fun found hfound => ?_
  cases found with
  | some literal => exact .pure (hfound literal rfl levels)
  | none =>
      refine .skip fun head => ?_
      split
      · exact .skip fun _ => shallow_list h
      · exact .skip fun _ => shallow_table h
      · exact .skip fun _ => shallow_quote h
      · exact .skip fun _ => shallow_function h
      · exact .noMatch _

theorem shallow_accessor? (h : Shallow deeper levels) : (accessor? deeper).Returns fun found =>
    ∀ accessor ∈ found, ∀ part ∈ accessor.children, part.Fits levels := by
  refine .skip fun head => ?_
  split
  · refine .skip fun _ => .ite (.skip fun _ => ?_) (.pure (by simp))
    exact ((h.expr true).because _).bind fun index hindex => .skip fun _ => .pure (by
      simpa [Accessor.children] using hindex)
  · exact .skip fun _ => .skip fun _ => .pure (by simp [Accessor.children])
  · refine .skip fun _ => .ite (.skip fun _ => ?_) (.pure (by simp))
    exact (shallow_elements? h _).bind fun args hargs => .skip fun _ => .pure (by
      simpa [Accessor.children] using hargs)
  · exact .pure (by simp)

/-! ### Expressions -/

theorem fits_access {target : Expr} {chain : List Accessor} (htarget : target.Fits (levels + 1))
    (hchain : ∀ accessor ∈ chain, ∀ part ∈ accessor.children, part.Fits levels) :
    (Expr.access target chain).Fits (levels + 1) := by
  refine .intro (by simpa [Expr.peers] using htarget) fun part hpart => ?_
  obtain ⟨accessor, haccessor, hpart⟩ := List.mem_flatMap.1 hpart
  exact hchain accessor haccessor part hpart

theorem shallow_primary (h : Shallow deeper levels) (required : Bool) :
    (primary deeper required).Returns (Expr.Fits (levels + 1)) := by
  refine (shallow_control? h).bind fun found hfound => ?_
  cases found with
  | some control => exact .pure (fits_control (hfound control rfl))
  | none =>
      refine (shallow_value h required).bind fun target htarget => ?_
      refine .andReturn ((Returns.many (shallow_accessor? h)).mono fun chain hchain => ?_)
      cases chain with
      | nil => exact htarget
      | cons accessor chain => exact fits_access htarget hchain

theorem shallow_unary (h : Shallow deeper levels) (required : Bool) :
    (unary deeper required).Returns (Expr.Fits (levels + 1)) := by
  refine .skip fun head => ?_
  split
  · exact .skip fun _ => .andReturn ((h.operand.because _).mono fun operand hoperand =>
      .intro (by simp [Expr.peers]) (by simpa [Expr.inner] using hoperand))
  · exact shallow_primary h required

theorem shallow_logical {keyword : Keyword} {operand : Bool → Rule Expr} {complaint : Complaint}
    {node : Expr → List Expr → Expr}
    (h : ∀ required, (operand required).Returns (Expr.Fits (levels + 1)))
    (hpeers : ∀ first rest, (node first rest).peers = first :: rest)
    (hinner : ∀ first rest, (node first rest).inner = []) (required : Bool) :
    (logical keyword operand complaint node required).Returns (Expr.Fits (levels + 1)) := by
  refine (h required).bind fun first hfirst => ?_
  refine .andReturn ((Returns.many (((h true).because _).after _)).mono fun rest hrest => ?_)
  cases rest with
  | nil => exact hfirst
  | cons second rest =>
      have hnode : ∀ part ∈ (node first (second :: rest)).peers, part.Fits (levels + 1) := by
        rw [hpeers]
        exact List.forall_mem_cons.2 ⟨hfirst, hrest⟩
      exact .intro hnode (by simp [hinner])

theorem shallow_binary {ω : Type} {operator? : Kind → Option ω} {operand : Bool → Rule Expr}
    {complaint : Complaint} {node : Expr → List (ω × Expr) → Expr}
    (h : ∀ required, (operand required).Returns (Expr.Fits (levels + 1)))
    (hpeers : ∀ first rest, (node first rest).peers = first :: rest.map (·.2))
    (hinner : ∀ first rest, (node first rest).inner = []) (required : Bool) :
    (binary operator? operand complaint node required).Returns (Expr.Fits (levels + 1)) := by
  have hoperation : (operation operator? operand complaint).Returns fun found =>
      ∀ pair ∈ found, pair.2.Fits (levels + 1) := by
    refine .skip fun head => ?_
    split
    · exact .skip fun _ => .andReturn (((h true).because _).mono fun e he => by simpa using he)
    · exact .pure (by simp)
  refine (h required).bind fun first hfirst => ?_
  refine .andReturn ((Returns.many hoperation).mono fun rest hrest => ?_)
  cases rest with
  | nil => exact hfirst
  | cons second rest =>
      have hnode : ∀ part ∈ (node first (second :: rest)).peers, part.Fits (levels + 1) := by
        rw [hpeers]
        exact List.forall_mem_cons.2 ⟨hfirst, List.forall_mem_map.2 hrest⟩
      exact .intro hnode (by simp [hinner])

theorem shallow_or (h : Shallow deeper levels) (required : Bool) :
    (or deeper required).Returns (Expr.Fits (levels + 1)) := by
  have hcompare : ∀ required, (compare deeper required).Returns (Expr.Fits (levels + 1)) :=
    shallow_binary (shallow_binary (shallow_binary (shallow_unary h) (fun _ _ => rfl)
      fun _ _ => rfl) (fun _ _ => rfl) fun _ _ => rfl) (fun _ _ => rfl) fun _ _ => rfl
  exact shallow_logical (shallow_logical hcompare (fun _ _ => rfl) fun _ _ => rfl)
    (fun _ _ => rfl) (fun _ _ => rfl) required

theorem shallow_update? (h : Shallow deeper levels) : (update? deeper).Returns fun found =>
    ∀ update ∈ found, ∀ part ∈ update.children, part.Fits levels := by
  have hvalue := (h.expr true).because Complaint.assignValue
  refine .skip fun head => ?_
  split
  iterate 3
    exact .skip fun _ => .andReturn (hvalue.mono fun _ he => by simpa [Update.children] using he)
  iterate 2 exact .skip fun _ => .pure (by simp [Update.children])
  exact .pure (by simp)

/-- The target of an assignment is made of the parts of the expression that it was read as. -/
theorem fits_target {left : Expr} {target : Target} (hleft : left.Fits (levels + 1))
    (htarget : target? left = some target) :
    (∀ part ∈ target.peers, part.Fits (levels + 1)) ∧ ∀ part ∈ target.inner, part.Fits levels := by
  have hcontainer : ∀ (base : Expr) (chain : List Accessor) (last : Accessor),
      (Expr.access base (chain ++ [last])).Fits (levels + 1) →
        (base.accessed chain).Fits (levels + 1) := by
    intro base chain last haccess
    have hbase : base.Fits (levels + 1) := haccess.peer (by simp [Expr.peers])
    cases chain with
    | nil => exact hbase
    | cons accessor chain =>
        refine fits_access hbase fun accessor' haccessor' part hpart => haccess.inner ?_
        exact List.mem_flatMap.2 ⟨accessor', List.mem_append_left _ haccessor', hpart⟩
  cases denotes_of_target? htarget with
  | name name => simp [Target.peers, Target.inner]
  | index base chain index =>
      have hindex : index.Fits levels := hleft.inner (by simp [Expr.inner, Accessor.children])
      simpa [Target.peers, Target.inner] using ⟨hcontainer _ _ _ hleft, hindex⟩
  | member base chain name =>
      simpa [Target.peers, Target.inner] using hcontainer _ _ _ hleft

theorem shallow_expr (h : Shallow deeper levels) (required : Bool) :
    (expr deeper required).Returns (Expr.Fits (levels + 1)) := by
  refine .skip fun _ => .ite ?_ ((shallow_control? h).bind fun found hfound => ?_)
  · refine .skip fun name => .skip fun _ => ?_
    exact .andReturn (((h.expr true).because _).mono fun value hvalue =>
      .intro (by simp [Expr.peers]) (by simpa [Expr.inner] using hvalue))
  · cases found with
    | some control => exact .pure (fits_control (hfound control rfl))
    | none =>
        refine .skip fun span => (shallow_or h required).bind fun left hleft => ?_
        refine (shallow_update? h).bind fun update hupdate => ?_
        cases update with
        | none => exact .pure hleft
        | some update =>
            cases htarget : target? left with
            | none => exact .throw _
            | some target =>
                obtain ⟨hpeers, hinner⟩ := fits_target hleft htarget
                exact .pure (.intro hpeers
                  (List.forall_mem_append.2 ⟨hinner, hupdate update rfl⟩))

/-- Rules that may go on for a number of levels return nothing that takes more. -/
theorem shallow_nested (levels : Nat) : Shallow (nested levels) levels := by
  induction levels with
  | zero => exact ⟨fun _ => .skip fun _ => .throw _, .skip fun _ => .throw _⟩
  | succ levels ih => exact ⟨shallow_expr ih, shallow_unary ih true⟩

end Grammar

/-- Every expression of a program that is accepted is on one of the levels up to the limit. -/
theorem level_le_maxDepth {tokens : List Token} {program : Block} {level : Nat} {e : Expr}
    (hparse : parse tokens = .ok program) (hlevel : OnLevel program level e) :
    level ≤ Grammar.maxDepth := by
  obtain ⟨line, hrun⟩ := parse_eq_ok_iff.1 hparse
  have hprogram := Grammar.shallow_statements (Grammar.shallow_nested Grammar.maxDepth) _ _ _ hrun
  obtain ⟨left, hlevels, -⟩ := Expr.Fits.of_onLevel hprogram hlevel
  omega

/-- An expression with a number of signs before it. -/
def signed (e : Expr) : Nat → Expr
  | 0 => e
  | signs + 1 => .unary .negate (signed e signs)

theorem onLevel_signed {program : Block} {e : Expr} {level : Nat} (signs : Nat)
    (h : OnLevel program level (signed e signs)) : OnLevel program (level + signs) e := by
  induction signs generalizing level with
  | zero => exact h
  | succ signs ih =>
      have hoperand := ih (.inner h (by simp [signed, Expr.inner]))
      rwa [Nat.add_assoc, Nat.add_comm 1] at hoperand

/-- A name with as many signs before it as there may be. -/
def signedTokens : List Token :=
  wordsOn 0 (List.replicate 63 (.symbol .minus, none) ++ [(.identifier, some "x")])

set_option maxRecDepth 4000 in
/-- The last level is in use. -/
theorem level_le_maxDepth_signed : parse signedTokens = .ok [signed (.name "x") 63] ∧
    OnLevel [signed (.name "x") 63] 64 (.name "x") ∧ 64 ≤ Grammar.maxDepth := by
  have hparse : parse signedTokens = .ok [signed (.name "x") 63] := rfl
  have hlevel : OnLevel [signed (.name "x") 63] 64 (.name "x") :=
    onLevel_signed 63 (.statement (List.mem_singleton.2 rfl))
  exact ⟨hparse, hlevel, level_le_maxDepth hparse hlevel⟩

end TableScript
