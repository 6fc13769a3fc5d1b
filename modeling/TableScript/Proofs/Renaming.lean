import Mathlib.Data.List.Forall2
import Mathlib.Order.Defs.PartialOrder
import TableScript.Code.Compile
import TableScript.Eval.Call

/-!
Renamings of what a store holds. Two stores may have the same things at different places. A renaming
says which place of the one stands for which place of the other; values, contexts and containers are
related if they are the same up to that. Operators cannot tell related values apart.
-/

namespace TableScript

/-- A place in the store that holds something which can be shared. -/
inductive Node where
  | frame (ref : FrameRef)
  | list (ref : ListRef)
  | table (ref : TableRef)
  | function (ref : FunctionRef)
deriving DecidableEq

/-- What a place can hold. -/
inductive Content where
  | frame (frame : Frame)
  | list (values : Array Value)
  | table (table : Table)
  | function (closure : Closure)

/-- What the store holds at a place. -/
def Store.content? (s : Store) : Node → Option Content
  | .frame ref => (s.frames[ref.index]?).map .frame
  | .list ref => (s.lists[ref.index]?).map .list
  | .table ref => (s.tables[ref.index]?).map .table
  | .function ref => (s.functions[ref.index]?).map .function

/-- A body as the engines make it when no list literal keeps its list. -/
inductive Body.Plain : Body → Prop where
  | tree (block : Block) : Plain (.tree block)
  | code (block : Block) : Plain (.code (compileBlock block))

/-- Pairs of places, each place being in at most one pair on either side. -/
structure Renaming where
  pairs : Node → Node → Prop
  functional : ∀ {a b c}, pairs a b → pairs a c → b = c
  injective : ∀ {a b c}, pairs a c → pairs b c → a = b

namespace Renaming

instance : Preorder Renaming where
  le ρ σ := ∀ ⦃a b⦄, ρ.pairs a b → σ.pairs a b
  le_refl _ _ _ hab := hab
  le_trans _ _ _ hρσ hστ _ _ hab := hστ (hρσ hab)

/-- One more pair, of places that were in no pair. -/
def extend (ρ : Renaming) (a b : Node) (ha : ∀ c, ¬ρ.pairs a c) (hb : ∀ c, ¬ρ.pairs c b) :
    Renaming where
  pairs c d := ρ.pairs c d ∨ c = a ∧ d = b
  functional := by
    rintro c d e (hcd | ⟨rfl, rfl⟩) (hce | ⟨hc, rfl⟩)
    · exact ρ.functional hcd hce
    · exact absurd (hc ▸ hcd) (ha d)
    · exact absurd hce (ha e)
    · rfl
  injective := by
    rintro c d e (hce | ⟨rfl, rfl⟩) (hde | ⟨rfl, he⟩)
    · exact ρ.injective hce hde
    · exact absurd (he ▸ hce) (hb c)
    · exact absurd hde (hb d)
    · rfl

/-- The renaming that leaves the places of a set as they are. -/
def identity (P : Node → Prop) : Renaming where
  pairs a b := a = b ∧ P a
  functional := by
    rintro a b c ⟨rfl, _⟩ ⟨rfl, _⟩
    rfl
  injective := by
    rintro a b c ⟨rfl, _⟩ ⟨rfl, _⟩
    rfl

end Renaming

/-! ### What is the same up to a renaming -/

/-- A type whose members can be compared up to a renaming. -/
class Renamable (α : Type) where
  Related : Renaming → α → α → Prop
  mono : ∀ {ρ σ : Renaming} {a b : α}, ρ ≤ σ → Related ρ a b → Related σ a b

export Renamable (Related)

theorem Renamable.Related.mono {α : Type} [Renamable α] {ρ σ : Renaming} {a b : α}
    (h : Related ρ a b) (hle : ρ ≤ σ) : Related σ a b :=
  Renamable.mono hle h

/-- The members of a type that mention no places are related only to themselves. -/
abbrev Renamable.fixed (α : Type) : Renamable α :=
  ⟨fun _ a b => a = b, fun _ h => h⟩

instance : Renamable PUnit := .fixed PUnit
instance : Renamable String := .fixed String
instance : Renamable Key := .fixed Key
instance : Renamable Range := .fixed Range
instance : Renamable Signal := .fixed Signal

inductive Value.Renamed (ρ : Renaming) : Value → Value → Prop where
  | null : Renamed ρ .null .null
  | bool (value : Bool) : Renamed ρ (.bool value) (.bool value)
  | number (value : Float) : Renamed ρ (.number value) (.number value)
  | string (text : String) : Renamed ρ (.string text) (.string text)
  | list {a b : ListRef} (h : ρ.pairs (.list a) (.list b)) : Renamed ρ (.list a) (.list b)
  | table {a b : TableRef} (h : ρ.pairs (.table a) (.table b)) : Renamed ρ (.table a) (.table b)
  | function {a b : FunctionRef} (h : ρ.pairs (.function a) (.function b)) :
      Renamed ρ (.function a) (.function b)
  | native (ref : NativeRef) : Renamed ρ (.native ref) (.native ref)

instance : Renamable Value where
  Related := Value.Renamed
  mono hle h := by
    cases h with
    | list h => exact .list (hle h)
    | table h => exact .table (hle h)
    | function h => exact .function (hle h)
    | _ => constructor

section

variable {α β : Type} [Renamable α] [Renamable β]

instance : Renamable (List α) where
  Related ρ := List.Forall₂ (Related ρ)
  mono hle := List.Forall₂.imp fun _ _ => Renamable.mono hle

instance : Renamable (Array α) where
  Related ρ xs ys := Related ρ xs.toList ys.toList
  mono hle h := h.mono hle

instance : Renamable (Option α) where
  Related ρ := Option.Rel (Related ρ)
  mono hle h := by
    cases h with
    | none => exact .none
    | some h => exact .some (h.mono hle)

instance : Renamable (α × β) where
  Related ρ x y := Related ρ x.1 y.1 ∧ Related ρ x.2 y.2
  mono hle h := ⟨h.1.mono hle, h.2.mono hle⟩

/-- The same error, or values that are related. -/
inductive ExceptRenamed {ε : Type} (ρ : Renaming) : Except ε α → Except ε α → Prop where
  | ok {a b : α} (h : Related ρ a b) : ExceptRenamed ρ (.ok a) (.ok b)
  | error (e : ε) : ExceptRenamed ρ (.error e) (.error e)

instance {ε : Type} : Renamable (Except ε α) where
  Related := ExceptRenamed
  mono hle h := by
    cases h with
    | ok h => exact .ok (h.mono hle)
    | error e => exact .error e

end

instance : Renamable FrameRef where
  Related ρ a b := ρ.pairs (.frame a) (.frame b)
  mono hle h := hle h

instance : Renamable Context where
  Related ρ c d := Related ρ c.frames d.frames
  mono hle h := h.mono hle

instance : Renamable Frame where
  Related ρ f g := Related ρ f.bindings g.bindings
  mono hle h := h.mono hle

/-- Two tables have the same keys in the same order. -/
instance : Renamable Table where
  Related ρ t u := t.index = u.index ∧ Related ρ t.entries u.entries
  mono hle h := ⟨h.1, h.2.mono hle⟩

/-- Two functions of the same text, made in contexts that are the same up to a renaming. -/
structure Closure.Renamed (ρ : Renaming) (f g : Closure) : Prop where
  name : f.name = g.name
  params : f.params = g.params
  body : f.body = g.body
  plain : g.body.Plain
  context : Related ρ f.context g.context

instance : Renamable Closure where
  Related := Closure.Renamed
  mono hle h := { h with context := h.context.mono hle }

inductive Content.Renamed (ρ : Renaming) : Content → Content → Prop where
  | frame {f g : Frame} (h : Related ρ f g) : Renamed ρ (.frame f) (.frame g)
  | list {xs ys : Array Value} (h : Related ρ xs ys) : Renamed ρ (.list xs) (.list ys)
  | table {t u : Table} (h : Related ρ t u) : Renamed ρ (.table t) (.table u)
  | function {f g : Closure} (h : Related ρ f g) : Renamed ρ (.function f) (.function g)

instance : Renamable Content where
  Related := Content.Renamed
  mono hle h := by
    cases h with
    | frame h => exact .frame (h.mono hle)
    | list h => exact .list (h.mono hle)
    | table h => exact .table (h.mono hle)
    | function h => exact .function (h.mono hle)

/-- Parts of containers are the same if the containers are. -/
inductive Place.Renamed (ρ : Renaming) : Place → Place → Prop where
  | key {a b : TableRef} (h : ρ.pairs (.table a) (.table b)) (key : Key) :
      Renamed ρ (.key a key) (.key b key)
  | slot {a b : ListRef} (h : ρ.pairs (.list a) (.list b)) (slot : Nat) :
      Renamed ρ (.slot a slot) (.slot b slot)
  | back {a b : ListRef} (h : ρ.pairs (.list a) (.list b)) : Renamed ρ (.back a) (.back b)

instance : Renamable Place where
  Related := Place.Renamed
  mono hle h := by
    cases h with
    | key h key => exact .key (hle h) key
    | slot h slot => exact .slot (hle h) slot
    | back h => exact .back (hle h)

/-! ### Related values -/

variable {ρ σ : Renaming}

namespace Value.Renamed

variable {v w v' w' : Value}

theorem type_eq (h : Related ρ v w) : v.type = w.type := by
  cases h <;> rfl

theorem truthy_eq (h : Related ρ v w) : v.truthy = w.truthy := by
  cases h <;> rfl

theorem isNull_eq (h : Related ρ v w) : v.isNull = w.isNull := by
  cases h <;> rfl

theorem right_unique (h : Related ρ v w) (h' : Related ρ v w') : w = w' := by
  cases h with
  | list h =>
      cases h' with
      | list h' => cases ρ.functional h h'; rfl
  | table h =>
      cases h' with
      | table h' => cases ρ.functional h h'; rfl
  | function h =>
      cases h' with
      | function h' => cases ρ.functional h h'; rfl
  | _ => cases h'; rfl

theorem left_unique (h : Related ρ v w) (h' : Related ρ v' w) : v = v' := by
  cases h with
  | list h =>
      cases h' with
      | list h' => cases ρ.injective h h'; rfl
  | table h =>
      cases h' with
      | table h' => cases ρ.injective h h'; rfl
  | function h =>
      cases h' with
      | function h' => cases ρ.injective h h'; rfl
  | _ => cases h'; rfl

theorem eq_iff (h : Related ρ v w) (h' : Related ρ v' w') : v = v' ↔ w = w' := by
  constructor
  · rintro rfl
    exact right_unique h h'
  · rintro rfl
    exact left_unique h h'

/-- Shared values are equal by their place, and a renaming keeps places apart. -/
theorem equal_eq (h : Related ρ v w) (h' : Related ρ v' w') : v.equal v' = w.equal w' := by
  have heq : decide (v = v') = decide (w = w') := decide_eq_decide.mpr (eq_iff h h')
  cases h with
  | number x =>
      cases h' with
      | number y => rfl
      | _ => exact heq
  | _ => exact heq

end Value.Renamed

open Value.Renamed

/-! ### Operators -/

section

variable {v w v' w' : Value}

theorem UnaryOp.apply_related (op : UnaryOp) (h : Related ρ v w) :
    Related ρ (op.apply v) (op.apply w) := by
  cases op with
  | not =>
      rw [UnaryOp.apply, UnaryOp.apply, truthy_eq h]
      exact .ok (.bool _)
  | negate =>
      cases h with
      | number x => exact .ok (.number _)
      | _ => exact .error _

theorem MulOp.apply_related (op : MulOp) (h : Related ρ v w) (h' : Related ρ v' w') :
    Related ρ (op.apply v v') (op.apply w w') := by
  cases h with
  | number x =>
      cases h' with
      | number y => exact .ok (.number _)
      | _ => exact .error _
  | _ =>
      have htype := type_eq h'
      simp only [MulOp.apply, htype]
      exact .error _

theorem subtract_related (h : Related ρ v w) (h' : Related ρ v' w') :
    Related ρ (subtract v v') (subtract w w') := by
  cases h with
  | number x =>
      cases h' with
      | number y => exact .ok (.number _)
      | _ => exact .error _
  | _ =>
      have htype := type_eq h'
      simp only [subtract, htype]
      exact .error _

theorem CompareOp.apply_related (op : CompareOp) (h : Related ρ v w) (h' : Related ρ v' w') :
    Related ρ (op.apply v v') (op.apply w w') := by
  have hequal := equal_eq h h'
  cases op with
  | equal =>
      simp only [CompareOp.apply, hequal]
      exact .ok (.bool _)
  | notEqual =>
      simp only [CompareOp.apply, hequal]
      exact .ok (.bool _)
  | _ => cases h <;> cases h' <;> first | exact .ok (.bool _) | exact .error _

theorem Key.ofValue_eq (h : Related ρ v w) : Key.ofValue v = Key.ofValue w := by
  cases h <;> rfl

theorem Key.ofValue_related (h : Related ρ v w) : Related ρ (Key.ofValue v) (Key.ofValue w) := by
  rw [Key.ofValue_eq h]
  cases Key.ofValue w with
  | ok key => exact .ok rfl
  | error fault => exact .error fault

theorem numericIndex_eq (container : Sequence) (h : Related ρ v w) :
    numericIndex container v = numericIndex container w := by
  cases h <;> rfl

theorem Range.bound_eq (bound : Bound) (h : Related ρ v w) :
    Range.bound bound v = Range.bound bound w := by
  cases h <;> rfl

theorem Range.ofValues_eq {step step' : Option Value} (h : Related ρ v w) (h' : Related ρ v' w')
    (hstep : Related ρ step step') : Range.ofValues v v' step = Range.ofValues w w' step' := by
  cases hstep with
  | none => simp only [Range.ofValues, Range.bound_eq _ h, Range.bound_eq _ h']
  | some hstep =>
      simp only [Range.ofValues, Range.bound_eq _ h, Range.bound_eq _ h', Range.bound_eq _ hstep]

theorem Range.ofValues_related {step step' : Option Value} (h : Related ρ v w)
    (h' : Related ρ v' w') (hstep : Related ρ step step') :
    Related ρ (Range.ofValues v v' step) (Range.ofValues w w' step') := by
  rw [Range.ofValues_eq h h' hstep]
  cases Range.ofValues w w' step' with
  | ok range => exact .ok rfl
  | error fault => exact .error fault

end

end TableScript
