import TableScript.Proofs.Alike
import TableScript.Proofs.Coupling
import TableScript.Proofs.Occurrence
import TableScript.Proofs.SoundTable

/-!
The primitive operations of evaluation under a coupling. A coupling is stable if its stores look the
same to a script and stay related under whatever one operation does to a store; then each operation,
and each loop over coupled bodies, is coupled with itself.
-/

namespace TableScript

/-- Whether a fault is that of a signal with no loop to go to. -/
def Fault.isEscape : Fault → Bool
  | .escapedSignal _ => true
  | _ => false

/-! ### Faults of operations -/

/-- A result that is no fault, or not the fault of an escaped signal. -/
def Plain {α : Type} : Except Fault α → Prop
  | .ok _ => True
  | .error fault => fault.isEscape = false

namespace Plain

variable {α β : Type}

@[simp]
theorem ok (a : α) : Plain (.ok a : Except Fault α) :=
  trivial

@[simp]
theorem error_iff (fault : Fault) :
    Plain (.error fault : Except Fault α) ↔ fault.isEscape = false :=
  Iff.rfl

theorem bind {x : Except Fault α} {f : α → Except Fault β} (hx : Plain x) (hf : ∀ a, Plain (f a)) :
    Plain (x >>= f) := by
  cases x with
  | ok a => exact hf a
  | error fault => exact hx

theorem map {x : Except Fault α} {f : α → β} (hx : Plain x) : Plain (f <$> x) := by
  cases x with
  | ok a => exact ok (f a)
  | error fault => exact hx

end Plain

theorem UnaryOp.apply_plain (op : UnaryOp) (value : Value) : Plain (op.apply value) := by
  unfold UnaryOp.apply
  split <;> simp [Fault.isEscape]

theorem MulOp.apply_plain (op : MulOp) (left right : Value) : Plain (op.apply left right) := by
  unfold MulOp.apply
  split <;> simp [Fault.isEscape]

theorem subtract_plain (left right : Value) : Plain (subtract left right) := by
  unfold subtract
  split <;> simp [Fault.isEscape]

theorem CompareOp.apply_plain (op : CompareOp) (left right : Value) :
    Plain (op.apply left right) := by
  unfold CompareOp.apply
  split
  · simp
  · simp
  · split <;> simp [Fault.isEscape]

theorem Key.ofValue_plain (value : Value) : Plain (Key.ofValue value) := by
  unfold Key.ofValue
  split
  · simp
  · split <;> simp [Fault.isEscape]
  all_goals simp [Fault.isEscape]

theorem numericIndex_plain (container : Sequence) (value : Value) :
    Plain (numericIndex container value) := by
  unfold numericIndex
  split <;> simp [Fault.isEscape]

theorem Range.bound_plain (bound : Bound) (value : Value) : Plain (Range.bound bound value) := by
  unfold Range.bound
  split <;> simp [Fault.isEscape]

theorem Range.ofValues_plain (start stop : Value) (step : Option Value) :
    Plain (Range.ofValues start stop step) := by
  refine .bind (bound_plain .start start) fun first => .bind (bound_plain .stop stop) fun last => ?_
  have hsize : ∀ size : Float, Plain (do
      if size == 0.0 then
        throw Fault.zeroStep
      return { next := some first, stop := last,
               step := if first ≤ last then size else -size : Range }) := by
    intro size
    cases size == 0.0 <;>
      simp [throw, throwThe, MonadExceptOf.throw, bind, Except.bind, pure, Except.pure,
        Fault.isEscape]
  cases step with
  | none => exact .bind (.ok 1.0) hsize
  | some step => exact .bind (.map (bound_plain .step step)) hsize

namespace Store

variable (s : Store)

theorem index_plain (container index : Value) : Plain (s.index container index) := by
  unfold Store.index
  split
  · exact .bind (Key.ofValue_plain index) fun _ => .ok _
  · exact .bind (numericIndex_plain .list index) fun _ => .ok _
  · exact .bind (numericIndex_plain .string index) fun _ => .ok _
  · simp [Fault.isEscape]

theorem place_plain (container index : Value) : Plain (s.place container index) := by
  unfold Store.place
  split
  · exact .map (Key.ofValue_plain index)
  · refine .bind (numericIndex_plain .list index) fun position => ?_
    dsimp only
    split
    · exact .ok _
    · split <;> simp [throw, throwThe, MonadExceptOf.throw, pure, Except.pure, Fault.isEscape]
  · simp [Fault.isEscape]

theorem memberPlace_plain (container : Value) (name : String) :
    Plain (memberPlace container name) := by
  unfold memberPlace
  split <;> simp [Fault.isEscape]

theorem member_plain (container : Value) (name : String) : Plain (s.member container name) := by
  unfold Store.member
  split <;> simp [Fault.isEscape]

theorem items_plain (container : Value) : Plain (s.items container) := by
  unfold items
  split <;> simp [Fault.isEscape]

end Store

/-! ### Stable couplings -/

/-- Related stores are alike and stay related under every operation. List literals with a cell count
as operations, and the policy says which of them occur. -/
structure Coupling.Stable (K : Coupling) (policy : Policy) (bodies : Body → Body → Prop) :
    Prop where
  alike : ∀ {s t}, K.rel s t → s.Alike bodies t
  newList : ∀ {s t}, K.rel s t → ∀ values, K.rel (s.newList values).2 (t.newList values).2
  newTable : ∀ {s t}, K.rel s t → ∀ {table : Table}, table.Sound →
    K.rel (s.newTable table).2 (t.newTable table).2
  newFunction : ∀ {s t}, K.rel s t → ∀ {f g}, f.Matches bodies g →
    K.rel (s.newFunction f).2 (t.newFunction g).2
  newFrame : ∀ {s t}, K.rel s t → K.rel (s.newFrame .empty).2 (t.newFrame .empty).2
  newFrame_growable : ∀ {s t}, K.rel s t → K.growable (s.newFrame .empty).1
  bind : ∀ {s t}, K.rel s t → ∀ ref name, (s.frame ref).binds name ∨ K.growable ref → ∀ value,
    K.rel (s.modifyFrame ref (·.bind name value)) (t.modifyFrame ref (·.bind name value))
  publish : ∀ {s t}, K.rel s t → ∀ c name value,
    K.rel ((s.setGlobal c name value).record (.published c name))
      ((t.setGlobal c name value).record (.published c name))
  write : ∀ {s t}, K.rel s t → ∀ place value, K.rel (s.write place value) (t.write place value)
  called : ∀ {s t}, K.rel s t → ∀ ref args,
    K.rel (s.record (.called ref args)) (t.record (.called ref args))
  keepList : ∀ {site cell}, policy site (.list (some cell)) → ∀ {x y}, Eval.Coupled K K x y →
    Eval.Coupled K K (Eval.keepList cell x) (Eval.keepList cell y)
  outOfFuel : K.halts .outOfFuel
  fault : ∀ {fault : Fault}, fault.isEscape = false → K.halts (.fault fault)

/-! ### List literals with a cell -/

/-- The cell of the literal that an event is about. -/
def Event.cell? : Event → Option CellRef
  | .called _ _ => none
  | .escaped _ => none
  | .reused cell _ => some cell
  | .entered cell => some cell
  | .completed cell _ _ => some cell
  | .published _ _ => none

/-- A literal with a cell is coupled with itself if the two stores keep the same list in the cell,
and are still related once they keep another one. -/
theorem Coupling.keepList_coupled {K : Coupling} {cell : CellRef}
    (hcell : ∀ s t, K.rel s t → s.cell? cell = t.cell? cell)
    (hlists : ∀ s t, K.rel s t → s.lists = t.lists)
    (hnew : ∀ s t, K.rel s t → ∀ values, K.rel (s.newList values).2 (t.newList values).2)
    (hfill : ∀ s t, K.rel s t → ∀ list, K.rel (s.fillCell cell list) (t.fillCell cell list))
    (hrecord : ∀ s t, K.rel s t → ∀ event, event.cell? = some cell →
      K.rel (s.record event) (t.record event))
    {x y : Eval (List Value)} (hxy : Eval.Coupled K K x y) :
    Eval.Coupled K K (Eval.keepList cell x) (Eval.keepList cell y) := by
  have hreuse : ∀ kept, Eval.Coupled K K (Eval.reuseList cell kept) (Eval.reuseList cell kept) :=
    fun kept => (Eval.Coupled.changing fun s t hst => hrecord s t hst _ rfl).bind
      fun _ => Eval.Coupled.pure _
  have hcomplete : Eval.Coupled K K (Eval.fillList cell x) (Eval.fillList cell y) := by
    refine (Eval.Coupled.changing fun s t hst => hrecord s t hst _ rfl).bind fun _ => ?_
    refine hxy.bind fun values => ?_
    refine (Eval.Coupled.making fun s t hst => ⟨?_, hnew s t hst values.toArray⟩).bind
      fun made => ?_
    · simp only [Store.newList, hlists s t hst]
    refine (Eval.Coupled.changing fun s t hst => hfill s t hst made).bind fun _ => ?_
    let finish (kept : ListRef) : Eval Value := do
      modify (·.record (.completed cell made kept))
      return .list kept
    refine Eval.Coupled.reading (f := finish) (g := finish)
      (fun s => (s.cell? cell).getD made) (fun s t hst => by rw [hcell s t hst]) fun kept _ => ?_
    exact (Eval.Coupled.changing fun s t hst => hrecord s t hst _ rfl).bind
      fun _ => Eval.Coupled.pure _
  intro s t hst
  rw [Eval.keepList, Eval.keepList, Eval.get_bind_apply, Eval.get_bind_apply, hcell s t hst]
  cases t.cell? cell with
  | none => exact hcomplete s t hst
  | some kept => exact hreuse kept s t hst

/-- A store that is coupled with itself keeps the same list on both sides. What is left to show is that
its invariant bears the changes that a literal with a cell makes. -/
theorem Coupling.keepList_invariant {K : Coupling} {holds : Store → Prop} {cell : CellRef}
    (hrel : ∀ s t, K.rel s t ↔ s = t ∧ holds s)
    (hnew : ∀ s, holds s → ∀ values, holds (s.newList values).2)
    (hfill : ∀ s, holds s → ∀ list, holds (s.fillCell cell list))
    (hrecord : ∀ s, holds s → ∀ event, event.cell? = some cell → holds (s.record event))
    {x y : Eval (List Value)} (hxy : Eval.Coupled K K x y) :
    Eval.Coupled K K (Eval.keepList cell x) (Eval.keepList cell y) := by
  refine Coupling.keepList_coupled ?_ ?_ ?_ ?_ ?_ hxy
  · intro s t hst
    rw [((hrel s t).1 hst).1]
  · intro s t hst
    rw [((hrel s t).1 hst).1]
  · intro s t hst values
    obtain ⟨rfl, hs⟩ := (hrel s t).1 hst
    exact (hrel _ _).2 ⟨rfl, hnew s hs values⟩
  · intro s t hst list
    obtain ⟨rfl, hs⟩ := (hrel s t).1 hst
    exact (hrel _ _).2 ⟨rfl, hfill s hs list⟩
  · intro s t hst event hcell
    obtain ⟨rfl, hs⟩ := (hrel s t).1 hst
    exact (hrel _ _).2 ⟨rfl, hrecord s hs event hcell⟩

/-! ### Operations -/

namespace Coupling.Stable

open Eval

variable {K : Coupling} {policy : Policy} {bodies : Body → Body → Prop}
variable (hK : K.Stable policy bodies)

include hK

theorem ofExcept {α : Type} {result : Except Fault α} (hplain : Plain result) :
    Coupled K K (Eval.ofExcept result) (Eval.ofExcept result) := by
  apply Coupled.ofExcept
  rintro fault rfl
  exact hK.fault hplain

theorem failing {α : Type} {fault : Fault} (hfault : fault.isEscape = false) :
    Coupled K K (Eval.fault fault : Eval α) (Eval.fault fault) :=
  Coupled.throw (hK.fault hfault)

/-- An operation that only reads the store, and may fault. -/
theorem asking {α : Type} (read : Store → Except Fault α)
    (hread : ∀ s t, K.rel s t → read s = read t) (hplain : ∀ s, Plain (read s)) :
    Coupled K K (do Eval.ofExcept (read (← get))) (do Eval.ofExcept (read (← get))) :=
  Coupled.reading read hread fun _ ⟨s, hs⟩ => hK.ofExcept (hs ▸ hplain s)

theorem askingThen {α β : Type} (read : Store → Except Fault α) {f g : α → Eval β}
    (hread : ∀ s t, K.rel s t → read s = read t) (hplain : ∀ s, Plain (read s))
    (hfg : ∀ a, Coupled K K (f a) (g a)) :
    Coupled K K ((get : Eval Store) >>= fun s => Eval.ofExcept (read s) >>= f)
      ((get : Eval Store) >>= fun s => Eval.ofExcept (read s) >>= g) :=
  Coupled.reading read hread fun _ ⟨s, hs⟩ => (hK.ofExcept (hs ▸ hplain s)).bind hfg

theorem setting {c : Context} (hc : K.growable c.inner) (name : String) (value : Value) :
    Coupled K K (modify (·.set c name value) : Eval PUnit) (modify (·.set c name value)) := by
  apply Coupled.changing
  intro s t hst
  have hhome : (s.frame (s.home c name)).binds name ∨ K.growable (s.home c name) := by
    refine (s.home_cases c name).imp_right fun hinner => ?_
    rwa [hinner]
  rw [Store.set, Store.set, ← (hK.alike hst).home_eq]
  exact hK.bind hst _ name hhome value

theorem load (c : Context) (name : String) : Coupled K K (Eval.load c name) (Eval.load c name) :=
  Coupled.reading (·.get c name) (fun _ _ hst => (hK.alike hst).get_eq c name)
    fun value _ => Coupled.pure value

theorem store {c : Context} (hc : K.growable c.inner) (name : String) (value : Value) :
    Coupled K K (Eval.store c name value) (Eval.store c name value) :=
  (hK.setting hc name value).bind fun _ => Coupled.pure value

theorem storeGlobal (c : Context) (name : String) (value : Value) :
    Coupled K K (Eval.storeGlobal c name value) (Eval.storeGlobal c name value) :=
  (Coupled.changing fun _ _ hst => hK.publish hst c name value).bind fun _ => Coupled.pure value

theorem makeList (values : List Value) :
    Coupled K K (Eval.newList values) (Eval.newList values) := by
  apply Coupled.making
  intro s t hst
  refine ⟨?_, hK.newList hst values.toArray⟩
  simp only [Store.newList, (hK.alike hst).lists]

theorem makeTable {table : Table} (htable : table.Sound) :
    Coupled K K (Eval.newTable table) (Eval.newTable table) := by
  apply Coupled.making
  intro s t hst
  refine ⟨?_, hK.newTable hst htable⟩
  simp only [Store.newTable, (hK.alike hst).tables]

theorem makeFunction {f g : Closure} (hmatch : f.Matches bodies g)
    (hcontext : K.growable g.context.inner) :
    Coupled K K (Eval.newFunction f) (Eval.newFunction g) := by
  refine Coupled.bind (Coupled.making fun s t hst => ⟨?_, hK.newFunction hst hmatch⟩)
    fun value => ?_
  · simp only [Store.newFunction, (hK.alike hst).size]
  · rw [hmatch.name, hmatch.context]
    cases g.name with
    | none => exact (Coupled.pure ()).bind fun _ => Coupled.pure value
    | some name => exact (hK.setting hcontext name value).bind fun _ => Coupled.pure value

theorem index (container index : Value) :
    Coupled K K (Eval.index container index) (Eval.index container index) :=
  hK.asking (·.index container index) (fun _ _ hst => (hK.alike hst).index_eq container index)
    fun s => s.index_plain container index

theorem member (container : Value) (name : String) :
    Coupled K K (Eval.member container name) (Eval.member container name) :=
  hK.asking (·.member container name) (fun _ _ hst => (hK.alike hst).member_eq container name)
    fun s => s.member_plain container name

theorem storeIndex (container index value : Value) :
    Coupled K K (Eval.storeIndex container index value)
      (Eval.storeIndex container index value) := by
  refine hK.askingThen (·.place container index)
    (fun _ _ hst => (hK.alike hst).place_eq container index)
    (fun s => s.place_plain container index) fun place => ?_
  exact (Coupled.changing fun _ _ hst => hK.write hst place value).bind fun _ => Coupled.pure value

theorem storeMember (container : Value) (name : String) (value : Value) :
    Coupled K K (Eval.storeMember container name value)
      (Eval.storeMember container name value) := by
  refine (hK.ofExcept (Store.memberPlace_plain container name)).bind fun place => ?_
  exact (Coupled.changing fun _ _ hst => hK.write hst place value).bind fun _ => Coupled.pure value

theorem add (left right : Value) : Coupled K K (Eval.add left right) (Eval.add left right) := by
  unfold Eval.add
  split
  · exact Coupled.pure _
  · rename_i a
    refine Coupled.reading (fun s => Value.string (a ++ s.text right)) (fun _ _ hst => ?_)
      fun value _ => Coupled.pure value
    rw [(hK.alike hst).text_eq]
  · rename_i b _
    refine Coupled.reading (fun s => Value.string (s.text left ++ b)) (fun _ _ hst => ?_)
      fun value _ => Coupled.pure value
    rw [(hK.alike hst).text_eq]
  · rename_i a b
    refine Coupled.reading (fun s => (s.list a).toList ++ (s.list b).toList)
      (fun _ _ hst => ?_) fun values _ => hK.makeList values
    simp only [(hK.alike hst).list_eq]
  · exact hK.failing rfl

theorem addOp (op : AddOp) (left right : Value) :
    Coupled K K (op.apply left right) (op.apply left right) := by
  cases op with
  | add => exact hK.add left right
  | sub => exact hK.ofExcept (subtract_plain left right)

theorem binaryOp (op : BinaryOp) (left right : Value) :
    Coupled K K (op.apply left right) (op.apply left right) := by
  cases op with
  | compare op => exact hK.ofExcept (op.apply_plain left right)
  | add op => exact hK.addOp op left right
  | mul op => exact hK.ofExcept (op.apply_plain left right)

theorem bindItem {c : Context} (hc : K.growable c.inner) (valueName : String)
    (keyName : Option String) (value key : Value) :
    Coupled K K (Loop.bindItem c valueName keyName value key)
      (Loop.bindItem c valueName keyName value key) := by
  refine (hK.setting hc valueName value).bind fun _ => ?_
  cases keyName with
  | none => exact Coupled.pure ()
  | some keyName => exact hK.setting hc keyName key

theorem bindCounter {c : Context} (hc : K.growable c.inner) (name : String) (x : Float) :
    Coupled K K (Loop.bindCounter c name x) (Loop.bindCounter c name x) :=
  hK.setting hc name (.number x)

/-! ### Loops -/

omit hK in
theorem proceed (ending : Ending) {next next' : Value → Eval Ending}
    (hnext : ∀ value, Coupled K K (next value) (next' value)) :
    Coupled K K (Loop.proceed ending next) (Loop.proceed ending next') := by
  unfold Loop.proceed
  cases ending.2.loopStep with
  | next => exact hnext ending.1
  | exit => exact Coupled.pure _
  | «return» => exact Coupled.pure _

variable {condition condition' : Eval Value} {body body' : Eval Ending}

theorem whileTrue (hcondition : Coupled K K condition condition') (hbody : Coupled K K body body')
    (fuel : Nat) (last : Value) :
    Coupled K K (Loop.whileTrue condition body fuel last)
      (Loop.whileTrue condition' body' fuel last) := by
  induction fuel generalizing last with
  | zero => exact Coupled.throw hK.outOfFuel
  | succ fuel ih =>
      refine hcondition.bind fun value => Coupled.ite ?_ (Coupled.pure _)
      exact hbody.bind fun ending => proceed ending ih

theorem forever (hbody : Coupled K K body body') (fuel : Nat) :
    Coupled K K (Loop.forever body fuel) (Loop.forever body' fuel) := by
  induction fuel with
  | zero => exact Coupled.throw hK.outOfFuel
  | succ fuel ih => exact hbody.bind fun ending => proceed ending fun _ => ih

omit hK in
theorem forItems {bind : Value → Value → Eval Unit}
    (hbind : ∀ value key, Coupled K K (bind value key) (bind value key))
    (hbody : Coupled K K body body') (items : List (Value × Value)) (last : Value) :
    Coupled K K (Loop.forItems bind body items last) (Loop.forItems bind body' items last) := by
  induction items generalizing last with
  | nil => exact Coupled.pure _
  | cons item items ih =>
      refine (hbind item.1 item.2).bind fun _ => ?_
      exact hbody.bind fun ending => proceed ending ih

theorem forRange {bind : Float → Eval Unit} (hbind : ∀ x, Coupled K K (bind x) (bind x))
    (hbody : Coupled K K body body') (fuel : Nat) (range : Range) (last : Value) :
    Coupled K K (Loop.forRange bind body fuel range last)
      (Loop.forRange bind body' fuel range last) := by
  induction fuel generalizing range last with
  | zero => exact Coupled.throw hK.outOfFuel
  | succ fuel ih =>
      unfold Loop.forRange
      cases range.next? with
      | none => exact Coupled.pure _
      | some step =>
          refine (hbind step.1).bind fun _ => ?_
          exact hbody.bind fun ending => proceed ending (ih step.2)

end Coupling.Stable

end TableScript
