import TableScript.Proofs.Derivation

/-!
What a derivation keeps of the tokens. The names, numbers and strings of a phrase are those of its
tokens, each once and in their order, and the brackets among the tokens are balanced.
-/

namespace TableScript

open Rule

/-- What tokens with a text of their own mean. A number that cannot be read has no value. -/
inductive Leaf where
  | name (text : String)
  | number (value : Option Float)
  | string (text : String)

def Token.leaf? (token : Token) : Option Leaf :=
  match token.kind with
  | .identifier => some (.name token.textD)
  | .number => some (.number (Number.ofText? token.textD))
  | .string => some (.string token.textD)
  | .keyword _ | .symbol _ => none

/-- The names, numbers and strings of some tokens, in their order. -/
def leavesOf (tokens : List Token) : List Leaf :=
  tokens.filterMap Token.leaf?

/-! ### The leaves of a tree -/

mutual

/-- The names, numbers and strings of an expression, in the order in which they are written. -/
def Expr.leaves : Expr → List Leaf
  | .null => []
  | .bool _ => []
  | .number value => [.number (some value)]
  | .string text => [.string text]
  | .name name => [.name name]
  | .list elements => allLeaves elements
  | .table entries => entryLeaves entries
  | .function name params body => name.toList.map .name ++ (params.map .name ++ allLeaves body)
  | .unary _ operand => operand.leaves
  | .or first rest => first.leaves ++ allLeaves rest
  | .and first rest => first.leaves ++ allLeaves rest
  | .compare first rest => first.leaves ++ compareLeaves rest
  | .add first rest => first.leaves ++ addLeaves rest
  | .mul first rest => first.leaves ++ mulLeaves rest
  | .access target chain => target.leaves ++ chainLeaves chain
  | .assign target update => target.leaves ++ update.leaves
  | .global name value => .name name :: value.leaves
  | .control control => control.leaves

def Control.leaves : Control → List Leaf
  | .cond branches otherwise => branchLeaves branches ++ otherwiseLeaves otherwise
  | .while condition body => condition.leaves ++ allLeaves body
  | .loop body => allLeaves body
  | .forIn value key items body =>
    .name value :: (key.toList.map .name ++ (items.leaves ++ allLeaves body))
  | .forOf counter start stop step body =>
    .name counter :: (start.leaves ++ (stop.leaves ++ (optionLeaves step ++ allLeaves body)))
  | .return value => optionLeaves value
  | .continue => []
  | .break => []

def Entry.leaves : Entry → List Leaf
  | .named name value => .name name :: value.leaves
  | .computed key value => key.leaves ++ value.leaves

def Accessor.leaves : Accessor → List Leaf
  | .index index => index.leaves
  | .member name => [.name name]
  | .call args => allLeaves args

def Target.leaves : Target → List Leaf
  | .name name => [.name name]
  | .index container index => container.leaves ++ index.leaves
  | .member container name => container.leaves ++ [.name name]

def Update.leaves : Update → List Leaf
  | .set value => value.leaves
  | .addTo value => value.leaves
  | .subFrom value => value.leaves
  | .increment => []
  | .decrement => []

def allLeaves : List Expr → List Leaf
  | [] => []
  | e :: es => e.leaves ++ allLeaves es

def optionLeaves : Option Expr → List Leaf
  | none => []
  | some e => e.leaves

def entryLeaves : List Entry → List Leaf
  | [] => []
  | entry :: entries => entry.leaves ++ entryLeaves entries

def chainLeaves : List Accessor → List Leaf
  | [] => []
  | accessor :: chain => accessor.leaves ++ chainLeaves chain

def compareLeaves : List (CompareOp × Expr) → List Leaf
  | [] => []
  | (_, e) :: rest => e.leaves ++ compareLeaves rest

def addLeaves : List (AddOp × Expr) → List Leaf
  | [] => []
  | (_, e) :: rest => e.leaves ++ addLeaves rest

def mulLeaves : List (MulOp × Expr) → List Leaf
  | [] => []
  | (_, e) :: rest => e.leaves ++ mulLeaves rest

def branchLeaves : List (Expr × List Expr) → List Leaf
  | [] => []
  | (condition, body) :: rest => (condition.leaves ++ allLeaves body) ++ branchLeaves rest

def otherwiseLeaves : Option (List Expr) → List Leaf
  | none => []
  | some body => allLeaves body

end

theorem allLeaves_eq (es : List Expr) : allLeaves es = es.flatMap Expr.leaves := by
  induction es with
  | nil => rfl
  | cons e es ih => rw [allLeaves, ih, List.flatMap_cons]

theorem entryLeaves_eq (entries : List Entry) :
    entryLeaves entries = entries.flatMap Entry.leaves := by
  induction entries with
  | nil => rfl
  | cons entry entries ih => rw [entryLeaves, ih, List.flatMap_cons]

theorem chainLeaves_eq (chain : List Accessor) :
    chainLeaves chain = chain.flatMap Accessor.leaves := by
  induction chain with
  | nil => rfl
  | cons accessor chain ih => rw [chainLeaves, ih, List.flatMap_cons]

theorem compareLeaves_eq (rest : List (CompareOp × Expr)) :
    compareLeaves rest = rest.flatMap (·.2.leaves) := by
  induction rest with
  | nil => rfl
  | cons pair rest ih => rw [compareLeaves, ih, List.flatMap_cons]

theorem addLeaves_eq (rest : List (AddOp × Expr)) : addLeaves rest = rest.flatMap (·.2.leaves) := by
  induction rest with
  | nil => rfl
  | cons pair rest ih => rw [addLeaves, ih, List.flatMap_cons]

theorem mulLeaves_eq (rest : List (MulOp × Expr)) : mulLeaves rest = rest.flatMap (·.2.leaves) := by
  induction rest with
  | nil => rfl
  | cons pair rest ih => rw [mulLeaves, ih, List.flatMap_cons]

theorem branchLeaves_eq (branches : List (Expr × Block)) :
    branchLeaves branches = branches.flatMap fun branch => branch.1.leaves ++ allLeaves branch.2 := by
  induction branches with
  | nil => rfl
  | cons branch branches ih => rw [branchLeaves, ih, List.flatMap_cons]

/-- The leaves of what a phrase means. -/
def Phrase.leaves : (phrase : Phrase) → phrase.Tree → List Leaf
  | .statements, es | .block, es | .elements, es => allLeaves es
  | .expr, e | .or, e | .and, e | .compare, e | .add, e | .mul, e | .unary, e | .primary, e
  | .value, e => e.leaves
  | .update, tree => tree.leaves
  | .access, (target, chain) => target.leaves ++ chainLeaves chain
  | .entries, tree => entryLeaves tree
  | .entry, tree => tree.leaves
  | .control, tree => tree.leaves
  | .branch, (condition, body) => condition.leaves ++ allLeaves body
  | .otherwise, tree => otherwiseLeaves tree

/-! ### Brackets -/

/-- The bracket that closes what a bracket opens. -/
def Kind.closing? : Kind → Option Kind
  | .symbol .leftParen => some (.symbol .rightParen)
  | .symbol .leftBracket => some (.symbol .rightBracket)
  | .symbol .leftBrace => some (.symbol .rightBrace)
  | _ => none

theorem Kind.closing?_eq_some {kind closing : Kind} (h : kind.closing? = some closing) :
    (kind = .symbol .leftParen ∧ closing = .symbol .rightParen) ∨
      (kind = .symbol .leftBracket ∧ closing = .symbol .rightBracket) ∨
      (kind = .symbol .leftBrace ∧ closing = .symbol .rightBrace) := by
  unfold Kind.closing? at h
  split at h <;> simp_all

def Kind.isClosing : Kind → Bool
  | .symbol .rightParen | .symbol .rightBracket | .symbol .rightBrace => true
  | _ => false

/-- The brackets that are to be closed after one more token, the next one first. There is no answer if
the token closes another bracket than that one. -/
def pendingAfter (pending : List Kind) (token : Token) : Option (List Kind) :=
  match token.kind.closing? with
  | some closing => some (closing :: pending)
  | none =>
    if token.kind.isClosing then
      if pending.head? = some token.kind then some pending.tail else none
    else
      some pending

/-- The brackets that are to be closed after some tokens. -/
def unclosed (pending : List Kind) (tokens : List Token) : Option (List Kind) :=
  tokens.foldlM pendingAfter pending

/-- Every bracket is closed by one of its own sort, and what is opened last is closed first. -/
def Balanced (tokens : List Token) : Prop :=
  unclosed [] tokens = some []

instance (tokens : List Token) : Decidable (Balanced tokens) :=
  inferInstanceAs (Decidable (unclosed [] tokens = some []))

/-- A keyword or a symbol that is no bracket. -/
def Kind.isMark : Kind → Bool
  | .identifier | .number | .string => false
  | kind => kind.closing?.isNone && !kind.isClosing

/-! ### What tokens yield -/

/-- Some tokens have the given leaves and leave the brackets around them as they are. -/
structure Yields (tokens : List Token) (leaves : List Leaf) : Prop where
  leaves : leavesOf tokens = leaves
  closed : ∀ pending, unclosed pending tokens = some pending

namespace Yields

variable {token left right : Token} {kind closing : Kind} {ts us : List Token} {x y : List Leaf}

theorem nil : Yields [] [] :=
  ⟨rfl, fun _ => rfl⟩

theorem append (hfirst : Yields ts x) (hrest : Yields us y) : Yields (ts ++ us) (x ++ y) where
  leaves := by rw [leavesOf, List.filterMap_append, ← hfirst.leaves, ← hrest.leaves]; rfl
  closed pending := by
    rw [unclosed, List.foldlM_append]
    exact (congrArg (· >>= _) (hfirst.closed pending)).trans (hrest.closed pending)

/-- A keyword or a symbol before other tokens. -/
theorem mark (hkind : token.kind = kind) (hmark : kind.isMark) (h : Yields ts x) :
    Yields (token :: ts) x := by
  have hleaf : token.leaf? = none := by
    cases kind <;> simp_all [Token.leaf?, Kind.isMark]
  have hplain : ∀ pending, pendingAfter pending token = some pending := by
    cases kind <;> simp_all [Kind.isMark, pendingAfter]
  constructor
  · rw [← h.leaves, leavesOf, List.filterMap_cons_none hleaf, leavesOf]
  · intro pending
    rw [unclosed, List.foldlM_cons, hplain pending]
    exact h.closed pending

/-- A name, a number or a string. -/
theorem leaf {leaf : Leaf} (hleaf : token.leaf? = some leaf) : Yields [token] [leaf] := by
  have hplain : ∀ pending, pendingAfter pending token = some pending := by
    cases hkind : token.kind <;>
      simp_all [Token.leaf?, pendingAfter, Kind.closing?, Kind.isClosing]
  constructor
  · simp [leavesOf, hleaf]
  · intro pending
    rw [unclosed, List.foldlM_cons, hplain pending]
    rfl

theorem name {name : String} (h : IsName ts name) : Yields ts [.name name] := by
  obtain ⟨token, hkind, rfl, rfl⟩ := h
  exact leaf (by rw [Token.leaf?, hkind])

/-- Tokens in brackets, and others after them. -/
theorem bracketed (hleft : left.kind = kind) (hright : right.kind = closing)
    (hpair : kind.closing? = some closing) (hfirst : Yields ts x) (hrest : Yields us y) :
    Yields (left :: (ts ++ right :: us)) (x ++ y) := by
  have hopen : ∀ pending, pendingAfter pending left = some (closing :: pending) := by
    intro pending
    rw [pendingAfter, hleft, hpair]
  have hclose : ∀ pending, pendingAfter (closing :: pending) right = some pending := by
    intro pending
    rcases Kind.closing?_eq_some hpair with ⟨-, rfl⟩ | ⟨-, rfl⟩ | ⟨-, rfl⟩ <;>
      simp [pendingAfter, hright, Kind.closing?, Kind.isClosing]
  have hleaves : left.leaf? = none ∧ right.leaf? = none := by
    rcases Kind.closing?_eq_some hpair with ⟨rfl, rfl⟩ | ⟨rfl, rfl⟩ | ⟨rfl, rfl⟩ <;>
      simp [Token.leaf?, hleft, hright]
  constructor
  · rw [← hfirst.leaves, ← hrest.leaves]
    simp [leavesOf, hleaves.1, hleaves.2]
  · intro pending
    have hinner := hfirst.closed (closing :: pending)
    rw [unclosed] at hinner ⊢
    simp only [List.foldlM_cons, List.foldlM_append, hopen, hinner, hclose, Option.bind_eq_bind,
      Option.bind_some]
    exact hrest.closed pending

theorem bracket (hleft : left.kind = kind) (hright : right.kind = closing)
    (hpair : kind.closing? = some closing) (h : Yields ts x) :
    Yields (left :: (ts ++ [right])) x := by
  have hbracketed := bracketed hleft hright hpair h nil
  rwa [List.append_nil] at hbracketed

/-- Parts one after another. -/
theorem parts {α : Type} {leaves : α → List Leaf} (parts : List (Part α))
    (h : ∀ part ∈ parts, Yields part.tokens (leaves part.tree)) :
    Yields (parts.flatMap (·.tokens)) ((parts.map (·.tree)).flatMap leaves) := by
  induction parts with
  | nil => exact nil
  | cons part parts ih =>
      rw [List.forall_mem_cons] at h
      rw [List.flatMap_cons, List.map_cons, List.flatMap_cons]
      exact h.1.append (ih h.2)

/-- Parts that keywords or symbols lead to. -/
theorem led {α : Type} {leaves : α → List Leaf} (parts : List (Led α))
    (hmark : ∀ part ∈ parts, part.lead.kind.isMark)
    (h : ∀ part ∈ parts, Yields part.tokens (leaves part.tree)) :
    Yields (parts.flatMap Led.row) ((parts.map (·.tree)).flatMap leaves) := by
  induction parts with
  | nil => exact nil
  | cons part parts ih =>
      rw [List.forall_mem_cons] at h hmark
      rw [List.flatMap_cons, List.map_cons, List.flatMap_cons]
      exact (mark rfl hmark.1 h.1).append (ih hmark.2 h.2)

/-- What may be left out, with its leaves if it is there. -/
theorem optional {α : Type} {P : List Token → α → Prop} {leaves : α → List Leaf} {item : Option α}
    (h : Optional P ts item) (hitem : ∀ ts item, P ts item → Yields ts (leaves item)) :
    Yields ts (item.toList.flatMap leaves) := by
  cases h with
  | some h => simpa using hitem _ _ h
  | none htokens =>
      subst htokens
      exact nil

theorem names {names : List String} (h : Names ts names) : Yields ts (names.map .name) := by
  cases h with
  | nil => exact nil
  | cons rest hfirst hcomma hrest =>
      have hled : Yields (rest.flatMap Led.row)
          ((rest.map (·.tree)).flatMap fun name => [.name name]) :=
        led rest (fun part hpart => by rw [hcomma part hpart]; rfl)
          fun part hpart => name (hrest part hpart)
      rw [← List.map_eq_flatMap] at hled
      exact (name hfirst).append hled

end Yields

theorem chainLeaves_append (chain : List Accessor) (accessor : Accessor) :
    chainLeaves (chain ++ [accessor]) = chainLeaves chain ++ accessor.leaves := by
  simp [chainLeaves_eq]

theorem Expr.leaves_accessed (target : Expr) (chain : List Accessor) :
    (target.accessed chain).leaves = target.leaves ++ chainLeaves chain := by
  cases chain with
  | nil => simp [Expr.accessed, chainLeaves]
  | cons accessor chain => rw [Expr.accessed, Expr.leaves]; simp

theorem Denotes.leaves {e : Expr} {target : Target} (h : Denotes e target) :
    e.leaves = target.leaves := by
  cases h with
  | name name => rfl
  | index target chain index =>
      rw [Expr.leaves, chainLeaves_append, Target.leaves, Expr.leaves_accessed, Accessor.leaves,
        List.append_assoc]
  | member target chain name =>
      rw [Expr.leaves, chainLeaves_append, Target.leaves, Expr.leaves_accessed, Accessor.leaves,
        List.append_assoc]

theorem Literal.yields {token : Token} {e : Expr} (h : Literal token e) :
    Yields [token] e.leaves := by
  cases h with
  | null hkind => exact .mark hkind rfl .nil
  | true hkind => exact .mark hkind rfl .nil
  | false hkind => exact .mark hkind rfl .nil
  | name hkind => exact .leaf (by rw [Token.leaf?, hkind])
  | string hkind => exact .leaf (by rw [Token.leaf?, hkind])
  | number hkind hvalue => exact .leaf (by rw [Token.leaf?, hkind, ← hvalue])

theorem CompareOp.isMark_kind (op : CompareOp) : op.kind.isMark := by
  cases op <;> rfl

theorem AddOp.isMark_kind (op : AddOp) : op.kind.isMark := by
  cases op <;> rfl

theorem MulOp.isMark_kind (op : MulOp) : op.kind.isMark := by
  cases op <;> rfl

theorem UnaryOp.isMark_kind (op : UnaryOp) : op.kind.isMark := by
  cases op <;> rfl

/-- Tokens that are derived yield the leaves of what they mean. -/
theorem Derives.yields {phrase : Phrase} {ts : List Token} {tree : phrase.Tree}
    (h : Derives phrase ts tree) : Yields ts (phrase.leaves tree) := by
  induction h with
  | statements parts _ ih =>
      rw [Phrase.leaves, allLeaves_eq]
      exact .parts parts ih
  | block hleft _ hright ih => exact .bracket hleft hright rfl ih
  | global hkeyword hname hsign _ ih =>
      exact .mark hkeyword rfl ((Yields.name hname).append (.mark hsign rfl ih))
  | plain _ ih => exact ih
  | assign _ htarget _ ihleft ihupdate =>
      rw [Phrase.leaves] at ihleft
      rw [htarget.leaves] at ihleft
      exact ihleft.append ihupdate
  | set hsign _ ih => exact .mark hsign rfl ih
  | addTo hsign _ ih => exact .mark hsign rfl ih
  | subFrom hsign _ ih => exact .mark hsign rfl ih
  | increment hsign => exact .mark hsign rfl .nil
  | decrement hsign => exact .mark hsign rfl .nil
  | orOperand _ ih => exact ih
  | or rest _ _ hop _ ihfirst ihrest =>
      rw [Phrase.leaves, Expr.leaves, allLeaves_eq]
      exact ihfirst.append (.led rest (fun part hpart => by rw [hop part hpart]; rfl) ihrest)
  | andOperand _ ih => exact ih
  | and rest _ _ hop _ ihfirst ihrest =>
      rw [Phrase.leaves, Expr.leaves, allLeaves_eq]
      exact ihfirst.append (.led rest (fun part hpart => by rw [hop part hpart]; rfl) ihrest)
  | compareOperand _ ih => exact ih
  | compare rest _ _ hop _ ihfirst ihrest =>
      rw [Phrase.leaves, Expr.leaves, compareLeaves_eq]
      have hmark := fun part hpart => hop part hpart ▸ part.tree.1.isMark_kind
      exact ihfirst.append (.led rest hmark ihrest)
  | addOperand _ ih => exact ih
  | add rest _ _ hop _ ihfirst ihrest =>
      rw [Phrase.leaves, Expr.leaves, addLeaves_eq]
      have hmark := fun part hpart => hop part hpart ▸ part.tree.1.isMark_kind
      exact ihfirst.append (.led rest hmark ihrest)
  | mulOperand _ ih => exact ih
  | mul rest _ _ hop _ ihfirst ihrest =>
      rw [Phrase.leaves, Expr.leaves, mulLeaves_eq]
      have hmark := fun part hpart => hop part hpart ▸ part.tree.1.isMark_kind
      exact ihfirst.append (.led rest hmark ihrest)
  | unary hsign _ ih => exact .mark hsign (UnaryOp.isMark_kind _) ih
  | unaryOperand _ ih => exact ih
  | process _ ih => exact ih
  | access _ ih =>
      rw [Phrase.leaves, Expr.leaves_accessed]
      exact ih
  | target _ ih =>
      rw [Phrase.leaves, chainLeaves, List.append_nil]
      exact ih
  | index _ hleft _ _ hright ihaccess ihindex =>
      rw [Phrase.leaves, chainLeaves_append, ← List.append_assoc]
      exact ihaccess.append (.bracket hleft hright rfl ihindex)
  | member _ hdot hname ih =>
      rw [Phrase.leaves, chainLeaves_append, ← List.append_assoc]
      exact ih.append (.mark hdot rfl (.name hname))
  | call _ hleft _ _ hright ihaccess ihargs =>
      rw [Phrase.leaves, chainLeaves_append, ← List.append_assoc]
      exact ihaccess.append (.bracket hleft hright rfl ihargs)
  | literal hliteral => exact hliteral.yields
  | list hleft _ hright ih => exact .bracket hleft hright rfl ih
  | table hleft _ hright ih => exact .bracket hleft hright rfl ih
  | quote hleft _ hright ih => exact .bracket hleft hright rfl ih
  | function hkeyword hname hleft hparams hright _ ih =>
      have hoptional := Yields.optional hname fun _ _ => Yields.name
      rw [← List.map_eq_flatMap] at hoptional
      exact .mark hkeyword rfl (hoptional.append (.bracketed hleft hright rfl (.names hparams) ih))
  | noElements => exact .nil
  | elements rest _ hcomma _ ihfirst ihrest =>
      rw [Phrase.leaves, allLeaves, allLeaves_eq]
      exact ihfirst.append (.led rest (fun part hpart => by rw [hcomma part hpart]; rfl) ihrest)
  | noEntries => exact .nil
  | entries rest trailing _ hcomma _ htrailing ihfirst ihrest =>
      have hlast : Yields trailing.toList [] := by
        cases trailing with
        | none => exact .nil
        | some comma => exact .mark (htrailing comma rfl) rfl .nil
      have hled := Yields.led rest (fun part hpart => by rw [hcomma part hpart]; rfl) ihrest
      have htail := hled.append hlast
      rw [List.append_nil] at htail
      rw [Phrase.leaves, entryLeaves, entryLeaves_eq]
      exact ihfirst.append htail
  | named hname hcolon _ ih => exact (Yields.name hname).append (.mark hcolon rfl ih)
  | literalKey _ hkey hcolon _ ih => exact hkey.yields.append (.mark hcolon rfl ih)
  | computed hleft _ hright hcolon _ ihkey ihvalue =>
      exact .bracketed hleft hright rfl ihkey (.mark hcolon rfl ihvalue)
  | cond rest hkeyword _ helif _ _ ihfirst ihrest ihlast =>
      have hled := Yields.led rest (fun part hpart => by rw [helif part hpart]; rfl) ihrest
      rw [Phrase.leaves, Control.leaves, branchLeaves, branchLeaves_eq, List.append_assoc]
      exact .mark hkeyword rfl (ihfirst.append (hled.append ihlast))
  | «while» hkeyword _ _ ihcondition ihbody =>
      exact .mark hkeyword rfl (ihcondition.append ihbody)
  | loop hkeyword _ ih => exact .mark hkeyword rfl ih
  | forIn hkeyword hvalue hkey hword _ _ ihitems ihbody =>
      have hoptional := Yields.optional hkey fun _ _ hled => match hled with
        | .intro hcomma hname => Yields.mark hcomma rfl (Yields.name hname)
      rw [← List.map_eq_flatMap] at hoptional
      exact .mark hkeyword rfl ((Yields.name hvalue).append
        (hoptional.append (.mark hword rfl (ihitems.append ihbody))))
  | forOf hkeyword hcounter hword _ hdots _ _ ihstart ihstop ihbody =>
      exact .mark hkeyword rfl ((Yields.name hcounter).append (.mark hword rfl
        (ihstart.append (.mark hdots rfl (ihstop.append ihbody)))))
  | forOfStep hkeyword hcounter hword _ hdots _ hmore _ _ ihstart ihstop ihstep ihbody =>
      exact .mark hkeyword rfl ((Yields.name hcounter).append (.mark hword rfl
        (ihstart.append (.mark hdots rfl (ihstop.append (.mark hmore rfl (ihstep.append ihbody)))))))
  | «return» hkeyword => exact .mark hkeyword rfl .nil
  | returnValue hkeyword hcolon _ ih => exact .mark hkeyword rfl (.mark hcolon rfl ih)
  | «continue» hkeyword => exact .mark hkeyword rfl .nil
  | «break» hkeyword => exact .mark hkeyword rfl .nil
  | branch _ _ ihcondition ihbody => exact ihcondition.append ihbody
  | noOtherwise => exact .nil
  | otherwise hkeyword _ ih => exact .mark hkeyword rfl ih

end TableScript
