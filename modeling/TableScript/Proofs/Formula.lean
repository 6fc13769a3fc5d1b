import TableScript.Proofs.Precedence

/-!
Formulas: names and literals with operators between them and no brackets. What a formula means is
said by splitting it, at its loosest operators first and then each part at the next tighter ones.
The rules read every formula as this tree.
-/

namespace TableScript

open Rule

/-- An operator between two operands, of any level. -/
inductive Connective where
  | or
  | and
  | compare (op : CompareOp)
  | add (op : AddOp)
  | mul (op : MulOp)
deriving DecidableEq, Repr

def Connective.kind : Connective → Kind
  | .or => .keyword .or
  | .and => .keyword .and
  | .compare op => op.kind
  | .add op => op.kind
  | .mul op => op.kind

/-- How tightly an operator binds. -/
def Connective.strength : Connective → Nat
  | .or => 2
  | .and => 3
  | .compare _ => 4
  | .add _ => 5
  | .mul _ => 6

theorem Connective.strength_kind (connective : Connective) :
    connective.kind.strength = connective.strength := by
  cases connective with
  | or => rfl
  | and => rfl
  | compare op => cases op <;> rfl
  | add op => cases op <;> rfl
  | mul op => cases op <;> rfl

section Levels

/-! The operators of each level. -/

def Connective.or? : Connective → Option Unit
  | .or => some ()
  | _ => none

def Connective.and? : Connective → Option Unit
  | .and => some ()
  | _ => none

def Connective.compare? : Connective → Option CompareOp
  | .compare op => some op
  | _ => none

def Connective.add? : Connective → Option AddOp
  | .add op => some op
  | _ => none

def Connective.mul? : Connective → Option MulOp
  | .mul op => some op
  | _ => none

end Levels

/-- A token that is an operator between two operands. -/
structure Joint where
  token : Token
  connective : Connective
  kind_eq : token.kind = connective.kind

theorem Joint.strength_token (joint : Joint) :
    joint.token.kind.strength = joint.connective.strength := by
  rw [joint.kind_eq, Connective.strength_kind]

/-- A token that is a prefix operator. -/
structure SignToken where
  token : Token
  op : UnaryOp
  kind_eq : token.kind = op.kind

/-- A name or a literal, with prefix operators before it. -/
structure Operand where
  signs : List SignToken
  token : Token
  atom : Expr
  literal : Literal token atom

namespace Operand

def tokens (operand : Operand) : List Token :=
  operand.signs.map (·.token) ++ [operand.token]

/-- The prefix operators around the name or literal, the first one outermost. -/
def tree (operand : Operand) : Expr :=
  operand.signs.foldr (fun sign e => .unary sign.op e) operand.atom

end Operand

/-- Operands with operators between them. -/
inductive Formula where
  | single (operand : Operand)
  | joined (operand : Operand) (joint : Joint) (rest : Formula)

/-- A part of a formula behind an operator of the level at which the formula is split. -/
structure Tail (ω : Type) where
  joint : Joint
  op : ω
  part : Formula

namespace Formula

variable {ω : Type}

def first : Formula → Operand
  | single operand => operand
  | joined operand _ _ => operand

def operands : Formula → List Operand
  | single operand => [operand]
  | joined operand _ rest => operand :: rest.operands

def tokens : Formula → List Token
  | single operand => operand.tokens
  | joined operand joint rest => operand.tokens ++ joint.token :: rest.tokens

/-- A formula split at all operators that are selected: the part before the first one, and each of
them with the part behind it. -/
def split (select : Connective → Option ω) : Formula → Formula × List (Tail ω)
  | single operand => (single operand, [])
  | joined operand joint rest =>
    let (part, tails) := rest.split select
    match select joint.connective with
    | some op => (single operand, ⟨joint, op, part⟩ :: tails)
    | none => (joined operand joint part, tails)

/-- The tree of a formula by its operators of one level: one flat node with all of them, or without
any the tree of the only part. -/
def flat (select : Connective → Option ω) (node : Expr → List (ω × Expr) → Expr)
    (tight : Formula → Expr) (formula : Formula) : Expr :=
  match formula.split select with
  | (part, []) => tight part
  | (part, tails) => node (tight part) (tails.map fun tail => (tail.op, tight tail.part))

def mulTree : Formula → Expr :=
  flat Connective.mul? .mul fun part => part.first.tree

def addTree : Formula → Expr :=
  flat Connective.add? .add mulTree

def compareTree : Formula → Expr :=
  flat Connective.compare? .compare addTree

def andTree : Formula → Expr :=
  flat Connective.and? (fun first rest => .and first (rest.map (·.2))) compareTree

def orTree : Formula → Expr :=
  flat Connective.or? (fun first rest => .or first (rest.map (·.2))) andTree

/-- What a formula means: split at `or`, each part at `and`, then at comparisons, at sums and at
products; prefix operators belong to the operand after them. -/
def tree (formula : Formula) : Expr :=
  formula.orTree

end Formula

/-! ### Parts -/

def Tail.tokens {ω : Type} (tail : Tail ω) : List Token :=
  tail.joint.token :: tail.part.tokens

namespace Formula

variable {ω : Type} {select : Connective → Option ω} {levels strength : Nat}

theorem tokens_split (select : Connective → Option ω) (formula : Formula) : formula.tokens =
    (formula.split select).1.tokens ++ (formula.split select).2.flatMap Tail.tokens := by
  induction formula with
  | single operand => simp [split, tokens]
  | joined operand joint rest ih =>
      cases hselect : select joint.connective with
      | some op => simp [split, hselect, tokens, ih, Tail.tokens]
      | none => simp [split, hselect, tokens, ih]

/-- Operands with no more than a number of signs, and between them operators that bind at least as
tightly as a given level. -/
def Within (levels strength : Nat) : Formula → Prop
  | single operand => operand.signs.length ≤ levels
  | joined operand joint rest => operand.signs.length ≤ levels ∧
    strength ≤ joint.connective.strength ∧ rest.Within levels strength

theorem within_of_operands {formula : Formula}
    (h : ∀ operand ∈ formula.operands, operand.signs.length ≤ levels) :
    formula.Within levels 2 := by
  induction formula with
  | single operand => exact h operand (by simp [operands])
  | joined operand joint rest ih =>
      simp only [operands, List.forall_mem_cons] at h
      refine ⟨h.1, ?_, ih h.2⟩
      cases joint.connective <;> simp [Connective.strength]

/-- No operator binds as tightly as access to parts. -/
theorem Within.single {formula : Formula} (h : formula.Within levels 7) :
    ∃ operand, formula = .single operand ∧ operand.signs.length ≤ levels := by
  cases formula with
  | single operand => exact ⟨operand, rfl, h⟩
  | joined operand joint rest =>
      have hstrength := h.2.1
      cases hconnective : joint.connective <;>
        simp [hconnective, Connective.strength] at hstrength

/-- The operators that are selected are those of one level. -/
def Selects (select : Connective → Option ω) (strength : Nat) : Prop :=
  ∀ connective, (select connective).isSome = true ↔ connective.strength = strength

/-- Split at its loosest operators, a formula has tighter ones in its parts. -/
theorem within_split (hselect : Selects select strength) {formula : Formula}
    (h : formula.Within levels strength) :
    (formula.split select).1.Within levels (strength + 1) ∧
    ∀ tail ∈ (formula.split select).2, select tail.joint.connective = some tail.op ∧
      tail.part.Within levels (strength + 1) := by
  induction formula with
  | single operand => exact ⟨h, by simp [split]⟩
  | joined operand joint rest ih =>
      obtain ⟨hsigns, hstrength, hrest⟩ := h
      obtain ⟨hpart, htails⟩ := ih hrest
      cases hjoint : select joint.connective with
      | some op =>
          simp only [split, hjoint]
          exact ⟨hsigns, List.forall_mem_cons.2 ⟨⟨hjoint, hpart⟩, htails⟩⟩
      | none =>
          have hne : joint.connective.strength ≠ strength := by
            intro heq
            rw [← hselect, hjoint] at heq
            cases heq
          simp only [split, hjoint]
          exact ⟨⟨hsigns, by omega, hpart⟩, htails⟩

end Formula

namespace Cursor.Passes

variable {c c' : Cursor} {token : Token} {first rest : List Token}

theorem split (h : c.Passes (first ++ rest) c') :
    ∃ c₁, c.Passes first c₁ ∧ c₁.Passes rest c' := by
  refine ⟨⟨lineAfter c.line first, rest ++ c'.rest⟩, ⟨?_, rfl⟩, ⟨rfl, ?_⟩⟩
  · rw [h.rest, List.append_assoc]
  · rw [h.line, lineAfter_append]

theorem head (h : c.Passes (token :: rest) c') : c.rest.head? = some token := by
  rw [h.rest]
  rfl

theorem tail (h : c.Passes (token :: rest) c') : c.advance.Passes rest c' := by
  have hadvance : c.advance = ⟨some token.span.line, rest ++ c'.rest⟩ := by
    rw [Cursor.advance, h.rest]
    rfl
  rw [hadvance]
  refine ⟨rfl, h.line.trans ?_⟩
  exact lineAfter_append c.line [token] rest

end Cursor.Passes

namespace Grammar

open Formula

variable {ω β : Type} {levels strength : Nat} {c c' : Cursor} {required : Bool}

/-- The rules read the formulas of one level, or of a tighter one, as the given trees. -/
def ReadsFormulas (rule : Bool → Rule Expr) (levels strength : Nat) (tree : Formula → Expr) :
    Prop :=
  ∀ formula : Formula, formula.Within levels strength → ∀ required c c',
    c.Passes formula.tokens c' → c'.Stops strength → rule required c = .ok (tree formula, c')

/-! ### Operands -/

theorem literal?_of_literal {token : Token} {e : Expr} (hhead : c.rest.head? = some token)
    (h : Literal token e) : literal? c = .ok (some e, c.advance) := by
  rw [literal?, peek_run, hhead]
  cases h with
  | null hkind => simp only [hkind]; rfl
  | true hkind => simp only [hkind]; rfl
  | false hkind => simp only [hkind]; rfl
  | name hkind => simp only [hkind]; rfl
  | string hkind => simp only [hkind]; rfl
  | number hkind hvalue => simp only [hkind, hvalue]; rfl

theorem kind_of_literal {token : Token} {e : Expr} (h : Literal token e) :
    isLeading token.kind = false ∧ unaryOp? token.kind = none := by
  cases h with
  | null hkind => rw [hkind]; decide
  | true hkind => rw [hkind]; decide
  | false hkind => rw [hkind]; decide
  | name hkind => rw [hkind]; decide
  | string hkind => rw [hkind]; decide
  | number hkind _ => rw [hkind]; decide

theorem plain_of_head {token : Token} (hhead : c.rest.head? = some token)
    (hkind : isLeading token.kind = false) : Plain c := by
  intro kind hnext
  rw [hhead] at hnext
  cases hnext
  exact hkind

/-- Prefix operators take a level each. -/
theorem reads_operand (operand : Operand) (hsigns : operand.signs.length ≤ levels)
    (hpasses : c.Passes operand.tokens c') (hstops : c'.Stops 7) :
    unary (nested levels) required c = .ok (operand.tree, c') := by
  obtain ⟨signs, token, atom, hliteral⟩ := operand
  induction signs generalizing levels c required with
  | nil =>
      have hhead := hpasses.head
      cases hpasses.tail.eq_of_nil
      obtain ⟨hleading, hop⟩ := kind_of_literal hliteral
      have hvalue : value (nested levels) required c = .ok (atom, c.advance) := by
        rw [value, bind_run (literal?_of_literal hhead hliteral)]
        rfl
      refine unary_of_access (plain_of_head hhead hleading) ?_ (access_of_value hvalue hstops)
      rw [hhead]
      exact hop
  | cons sign signs ih =>
      obtain ⟨fewer, rfl⟩ : ∃ fewer, levels = fewer + 1 :=
        Nat.exists_eq_add_one_of_ne_zero (by rintro rfl; cases hsigns)
      have hrest : unary (nested fewer) true c.advance =
          .ok (Operand.tree ⟨signs, token, atom, hliteral⟩, c') :=
        ih (Nat.le_of_succ_le_succ hsigns) hpasses.tail
      rw [unary, peekKind_run, hpasses.head, Option.map_some, Option.bind_some, sign.kind_eq,
        unaryOp?_kind]
      show (because .unaryOperand (unary (nested fewer) true) >>= fun e =>
        pure (Expr.unary sign.op e)) c.advance = _
      rw [bind_run (because_run hrest _)]
      rfl

theorem reads_unary_formulas (levels : Nat) :
    ReadsFormulas (unary (nested levels)) levels 7 fun part => part.first.tree := by
  intro formula hformula required c c' hpasses hstops
  obtain ⟨operand, rfl, hsigns⟩ := hformula.single
  exact reads_operand operand hsigns hpasses hstops

/-! ### One level of operators -/

theorem stops_of_joint {joint : Joint} (hhead : c.rest.head? = some joint.token)
    (hstrength : joint.connective.strength = strength) : c.Stops (strength + 1) := by
  intro token htoken
  cases hhead.symm.trans htoken
  exact .inl (by rw [joint.strength_token]; omega)

/-- The tails of a formula are found one after another. -/
theorem repeats_tails {item : Rule (Option β)} (result : Tail ω → β) {tails : List (Tail ω)}
    (hitem : ∀ tail ∈ tails, tail.joint.connective.strength = strength ∧
      ∀ c c', c.Passes tail.tokens c' → c'.Stops (strength + 1) →
        item c = .ok (some (result tail), c'))
    (hpasses : c.Passes (tails.flatMap Tail.tokens) c') (hstops : c'.Stops strength)
    (hlast : item c' = .ok (none, c')) :
    Repeats item c (tails.map result) c' ∧ c.Stops (strength + 1) := by
  induction tails generalizing c with
  | nil =>
      cases hpasses.eq_of_nil
      exact ⟨.nil hlast, hstops.mono (Nat.le_succ _)⟩
  | cons tail tails ih =>
      rw [List.forall_mem_cons] at hitem
      obtain ⟨c₁, hfirst, hrest⟩ := hpasses.split
      obtain ⟨hrepeats, hnext⟩ := ih hitem.2 hrest
      have hlength : c₁.rest.length < c.rest.length := by
        rw [hfirst.rest, Tail.tokens, List.cons_append, List.length_cons, List.length_append]
        omega
      exact ⟨.cons (hitem.1.2 c c₁ hfirst hnext) hlength hrepeats,
        stops_of_joint hfirst.head hitem.1.1⟩

/-- What one level reads, if the rule for its operands reads the tighter levels. `item` is the rule
for an operator and the operand after it. -/
theorem reads_flat {select : Connective → Option ω} {operand : Bool → Rule Expr}
    {tight : Formula → Expr} {node : Expr → List (ω × Expr) → Expr} {item : Rule (Option β)}
    (result : ω × Expr → β) (join : Expr → List β → Expr)
    (hoperand : ReadsFormulas operand levels (strength + 1) tight)
    (hselect : Selects select strength)
    (hitem : ∀ (joint : Joint) (op : ω) (e : Expr) (c c' : Cursor),
      select joint.connective = some op → c.rest.head? = some joint.token →
      operand true c.advance = .ok (e, c') → item c = .ok (some (result (op, e)), c'))
    (hlast : ∀ c : Cursor, c.Stops strength → item c = .ok (none, c))
    (hjoin : ∀ first rest, join first (List.map result rest) =
      if rest.isEmpty then first else node first rest)
    (required : Bool) :
    ∀ formula : Formula, formula.Within levels strength → ∀ c c', c.Passes formula.tokens c' →
      c'.Stops strength → (operand required >>= fun first => many item >>= fun rest =>
        pure (join first rest)) c = .ok (flat select node tight formula, c') := by
  intro formula hformula c c' hpasses hstops
  obtain ⟨hpart, htails⟩ := within_split hselect hformula
  rw [tokens_split select] at hpasses
  obtain ⟨c₁, hfirst, hrest⟩ := hpasses.split
  obtain ⟨hrepeats, hnext⟩ := repeats_tails (fun tail => result (tail.op, tight tail.part))
    (fun tail htail => by
      obtain ⟨hjoint, hwithin⟩ := htails tail htail
      refine ⟨?_, fun c c' hpasses hstops => ?_⟩
      · rw [← hselect, hjoint]
        rfl
      · exact hitem tail.joint tail.op _ c c' hjoint hpasses.head
          (hoperand tail.part hwithin true _ c' hpasses.tail hstops))
    hrest hstops (hlast c' hstops)
  have hleft := hoperand _ hpart required c c₁ hfirst hnext
  rw [bind_run hleft, bind_run hrepeats.many]
  have htree : flat select node tight formula = join (tight (formula.split select).1)
      ((formula.split select).2.map fun tail => result (tail.op, tight tail.part)) := by
    have hmap : (formula.split select).2.map (fun tail => result (tail.op, tight tail.part)) =
        List.map result ((formula.split select).2.map fun tail => (tail.op, tight tail.part)) := by
      rw [List.map_map]
      rfl
    rw [hmap, hjoin, flat]
    cases formula.split select with
    | mk part tails => cases tails <;> rfl
  rw [htree]
  rfl

theorem reads_binary_formulas {operator? : Kind → Option ω} {select : Connective → Option ω}
    {operand : Bool → Rule Expr} {complaint : Complaint} {node : Expr → List (ω × Expr) → Expr}
    {tight : Formula → Expr} (hoperand : ReadsFormulas operand levels (strength + 1) tight)
    (hselect : Selects select strength) (hlevel : strength < 7)
    (hsome : ∀ {connective op}, select connective = some op → operator? connective.kind = some op)
    (hstrength : ∀ {kind op}, operator? kind = some op → kind.strength = strength) :
    ReadsFormulas (binary operator? operand complaint node) levels strength
      (flat select node tight) := by
  intro formula hformula required c c' hpasses hstops
  refine reads_flat id (fun first rest => if rest.isEmpty then first else node first rest) hoperand
    hselect (fun joint op e c c' hjoint hhead hrun => ?_)
    (fun c hstops => operation_stops hstrength hlevel hstops)
    (fun first rest => by rw [List.map_id]) required formula hformula c c' hpasses hstops
  rw [operation, peekKind_run, hhead, Option.map_some, Option.bind_some, joint.kind_eq,
    hsome hjoint]
  show (because complaint (operand true) >>= fun e => pure (some (op, e))) c.advance = _
  rw [bind_run (because_run hrun _)]
  rfl

theorem reads_logical_formulas {keyword : Keyword} {select : Connective → Option Unit}
    {operand : Bool → Rule Expr} {complaint : Complaint} {node : Expr → List Expr → Expr}
    {tight : Formula → Expr} (hoperand : ReadsFormulas operand levels (strength + 1) tight)
    (hselect : Selects select strength) (hlevel : strength < 7)
    (hsome : ∀ {connective}, select connective = some () → connective.kind = .keyword keyword)
    (hstrength : Kind.strength (.keyword keyword) = strength) :
    ReadsFormulas (logical keyword operand complaint node) levels strength
      (flat select (fun first rest => node first (rest.map (·.2))) tight) := by
  intro formula hformula required c c' hpasses hstops
  refine reads_flat Prod.snd (fun first rest => if rest.isEmpty then first else node first rest)
    hoperand hselect (fun joint op e c c' hjoint hhead hrun => ?_)
    (fun c hstops => after_other (hstops.ne (by omega) (by omega)))
    (fun first rest => by rw [List.isEmpty_map]) required formula hformula c c' hpasses hstops
  have hkind : c.rest.head?.map (·.kind) = some (.keyword keyword) := by
    rw [hhead, Option.map_some, joint.kind_eq, hsome hjoint]
  rw [after, accept_bind, peekKind_run, if_pos hkind]
  show (because complaint (operand true) >>= fun e => pure (some e)) c.advance = _
  rw [bind_run (because_run hrun _)]
  rfl

/-! ### All levels -/

theorem reads_mul_formulas (levels : Nat) :
    ReadsFormulas (mul (nested levels)) levels 6 mulTree := by
  refine reads_binary_formulas (reads_unary_formulas levels) ?_ (by decide) ?_ strength_of_mulOp?
  · intro connective
    cases connective <;> simp [Connective.mul?, Connective.strength]
  · intro connective op hop
    cases connective <;> cases hop
    exact mulOp?_kind op

theorem reads_add_formulas (levels : Nat) :
    ReadsFormulas (add (nested levels)) levels 5 addTree := by
  refine reads_binary_formulas (reads_mul_formulas levels) ?_ (by decide) ?_ strength_of_addOp?
  · intro connective
    cases connective <;> simp [Connective.add?, Connective.strength]
  · intro connective op hop
    cases connective <;> cases hop
    exact addOp?_kind op

theorem reads_compare_formulas (levels : Nat) :
    ReadsFormulas (compare (nested levels)) levels 4 compareTree := by
  refine reads_binary_formulas (reads_add_formulas levels) ?_ (by decide) ?_ strength_of_compareOp?
  · intro connective
    cases connective <;> simp [Connective.compare?, Connective.strength]
  · intro connective op hop
    cases connective <;> cases hop
    exact compareOp?_kind op

theorem reads_and_formulas (levels : Nat) :
    ReadsFormulas (and (nested levels)) levels 3 andTree := by
  refine reads_logical_formulas (reads_compare_formulas levels) ?_ (by decide) ?_ rfl
  · intro connective
    cases connective <;> simp [Connective.and?, Connective.strength]
  · intro connective hop
    cases connective <;> cases hop
    rfl

theorem reads_or_formulas (levels : Nat) :
    ReadsFormulas (or (nested levels)) levels 2 Formula.tree := by
  refine reads_logical_formulas (reads_and_formulas levels) ?_ (by decide) ?_ rfl
  · intro connective
    cases connective <;> simp [Connective.or?, Connective.strength]
  · intro connective hop
    cases connective <;> cases hop
    rfl

theorem plain_of_operand {operand : Operand} {rest : List Token}
    (hpasses : c.Passes (operand.tokens ++ rest) c') : Plain c := by
  obtain ⟨signs, token, atom, hliteral⟩ := operand
  cases signs with
  | nil => exact plain_of_head hpasses.head (kind_of_literal hliteral).1
  | cons sign signs =>
      refine plain_of_head hpasses.head ?_
      rw [sign.kind_eq]
      cases sign.op <;> decide

theorem plain_of_formula {formula : Formula} (hpasses : c.Passes formula.tokens c') : Plain c := by
  cases formula with
  | single operand =>
      rw [tokens, ← List.append_nil operand.tokens] at hpasses
      exact plain_of_operand hpasses
  | joined operand joint rest => exact plain_of_operand hpasses

/-- A formula, up to the end of the text, is read to its end and as its tree: split at its loosest
operators first, with one flat node for all operators of a level in a part and none for a level that
the part has no operator of. -/
theorem expr_formula (formula : Formula)
    (hsigns : ∀ operand ∈ formula.operands, operand.signs.length ≤ 60) (required : Bool)
    (line : Option Nat) :
    Rule.expr required ⟨line, formula.tokens⟩ =
      .ok (formula.tree, ⟨lineAfter line formula.tokens, []⟩) := by
  have hpasses : Cursor.Passes ⟨line, formula.tokens⟩ formula.tokens
      ⟨lineAfter line formula.tokens, []⟩ := ⟨(List.append_nil _).symm, rfl⟩
  have hend : ∀ level, Cursor.Stops ⟨lineAfter line formula.tokens, []⟩ level :=
    fun _ _ htoken => absurd htoken (by simp)
  have hwithin : formula.Within 63 2 :=
    within_of_operands fun operand hoperand => Nat.le_trans (hsigns operand hoperand) (by decide)
  exact expr_of_or (plain_of_formula hpasses)
    (reads_or_formulas 63 formula hwithin required _ _ hpasses (hend 2)) (hend 1)

end Grammar

section Sample

/-- A name with prefix operators before it. -/
def Operand.ofName (ops : List UnaryOp) (name : String) : Operand where
  signs := ops.map fun op => ⟨⟨op.kind, none, default⟩, op, rfl⟩
  token := ⟨.identifier, some name, default⟩
  atom := .name name
  literal := .name rfl

def Joint.ofConnective (connective : Connective) : Joint :=
  ⟨⟨connective.kind, none, default⟩, connective, rfl⟩

/-- The formula `not a < b or - - c * d + e and f ** g`. -/
def Formula.sample : Formula :=
  .joined (.ofName [.not] "a") (.ofConnective (.compare .less)) <|
  .joined (.ofName [] "b") (.ofConnective .or) <|
  .joined (.ofName [.negate, .negate] "c") (.ofConnective (.mul .mul)) <|
  .joined (.ofName [] "d") (.ofConnective (.add .add)) <|
  .joined (.ofName [] "e") (.ofConnective .and) <|
  .joined (.ofName [] "f") (.ofConnective (.mul .pow)) <|
  .single (.ofName [] "g")

theorem Grammar.expr_formula_sample :
    (∀ operand ∈ Formula.sample.operands, operand.signs.length ≤ 60) ∧
    Rule.expr true ⟨none, Formula.sample.tokens⟩ = .ok
      (.or (.compare (.unary .not (.name "a")) [(.less, .name "b")])
        [.and
          (.add (.mul (.unary .negate (.unary .negate (.name "c"))) [(.mul, .name "d")])
            [(.add, .name "e")])
          [.mul (.name "f") [(.pow, .name "g")]]],
        ⟨some 0, []⟩) := by
  have hsigns : ∀ operand ∈ Formula.sample.operands, operand.signs.length ≤ 60 := by
    simp [Formula.sample, Formula.operands, Operand.ofName]
  exact ⟨hsigns, Grammar.expr_formula Formula.sample hsigns true none⟩

end Sample

end TableScript
