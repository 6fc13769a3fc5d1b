import TableScript.Store.Container
import TableScript.Store.Scope
import TableScript.Store.Text

/-!
Stores that look the same to a script. What a script reads of two such stores is the same, and they
still look the same after the same change to both.
-/

namespace TableScript

/-- Two functions with the same name, parameters and context, and related bodies. -/
structure Closure.Matches (bodies : Body → Body → Prop) (f g : Closure) : Prop where
  name : f.name = g.name
  params : f.params = g.params
  context : f.context = g.context
  body : bodies f.body g.body

/-- Two stores that look the same to a script: they differ at most in the bodies of functions and in
what scripts cannot see. -/
structure Store.Alike (bodies : Body → Body → Prop) (s t : Store) : Prop where
  lists : s.lists = t.lists
  tables : s.tables = t.tables
  natives : s.natives = t.natives
  frames : s.frames = t.frames
  size : s.functions.size = t.functions.size
  functions : ∀ ref f g, s.function? ref = some f → t.function? ref = some g → f.Matches bodies g

theorem Closure.Matches.eq {f g : Closure} (hmatch : f.Matches Eq g) : f = g := by
  obtain ⟨hname, hparams, hcontext, hbody⟩ := hmatch
  cases f
  cases g
  simp_all only

/-- A store looks like itself if the bodies of its functions are related to themselves. -/
theorem Store.Alike.of_bodies {bodies : Body → Body → Prop} {s : Store}
    (hbodies : ∀ ref f, s.function? ref = some f → bodies f.body f.body) : s.Alike bodies s where
  lists := rfl
  tables := rfl
  natives := rfl
  frames := rfl
  size := rfl
  functions ref f g hf hg := by
    obtain rfl : f = g := Option.some.inj (hf.symm.trans hg)
    exact ⟨rfl, rfl, rfl, hbodies ref f hf⟩

theorem Store.Alike.refl (s : Store) : s.Alike Eq s :=
  .of_bodies fun _ _ _ => rfl

namespace Store.Alike

variable {bodies : Body → Body → Prop} {s t : Store}

theorem list_eq (h : s.Alike bodies t) (ref : ListRef) : s.list ref = t.list ref := by
  rw [Store.list, Store.list, h.lists]

theorem table_eq (h : s.Alike bodies t) (ref : TableRef) : s.table ref = t.table ref := by
  rw [Store.table, Store.table, h.tables]

theorem frame_eq (h : s.Alike bodies t) (ref : FrameRef) : s.frame ref = t.frame ref := by
  rw [Store.frame, Store.frame, h.frames]

theorem native?_eq (h : s.Alike bodies t) (ref : NativeRef) : s.native? ref = t.native? ref := by
  rw [Store.native?, Store.native?, h.natives]

/-- A reference leads to a function on both sides or on neither. -/
theorem function?_cases (h : s.Alike bodies t) (ref : FunctionRef) :
    (s.function? ref = none ∧ t.function? ref = none) ∨
      ∃ f g, s.function? ref = some f ∧ t.function? ref = some g ∧ f.Matches bodies g := by
  have hsize := h.size
  cases hs : s.function? ref with
  | none =>
      refine Or.inl ⟨rfl, ?_⟩
      rw [function?, Array.getElem?_eq_none_iff] at hs ⊢
      omega
  | some f =>
      cases ht : t.function? ref with
      | none =>
          rw [function?, Array.getElem?_eq_none_iff] at ht
          rw [function?, Array.getElem?_eq_some_iff] at hs
          obtain ⟨hlt, _⟩ := hs
          omega
      | some g => exact Or.inr ⟨f, g, rfl, rfl, h.functions ref f g hs ht⟩

theorem functionName_eq (h : s.Alike bodies t) (ref : FunctionRef) :
    (s.function? ref).bind (·.name) = (t.function? ref).bind (·.name) := by
  rcases h.function?_cases ref with ⟨hs, ht⟩ | ⟨f, g, hs, ht, hmatch⟩
  · rw [hs, ht]
  · rw [hs, ht, Option.bind_some, Option.bind_some, hmatch.name]

theorem lookup_eq (h : s.Alike bodies t) (c : Context) (name : String) :
    s.lookup c name = t.lookup c name := by
  simp only [Store.lookup, h.frame_eq]

theorem get_eq (h : s.Alike bodies t) (c : Context) (name : String) :
    s.get c name = t.get c name := by
  rw [Store.get, Store.get, h.lookup_eq]

theorem home_eq (h : s.Alike bodies t) (c : Context) (name : String) :
    s.home c name = t.home c name := by
  simp only [Store.home, h.frame_eq]

theorem index_eq (h : s.Alike bodies t) (container index : Value) :
    s.index container index = t.index container index := by
  simp only [Store.index, h.table_eq, h.list_eq]

theorem member_eq (h : s.Alike bodies t) (container : Value) (name : String) :
    s.member container name = t.member container name := by
  simp only [Store.member, h.table_eq]

theorem place_eq (h : s.Alike bodies t) (container index : Value) :
    s.place container index = t.place container index := by
  simp only [Store.place, h.list_eq]

theorem items_eq (h : s.Alike bodies t) (container : Value) :
    s.items container = t.items container := by
  cases container <;> simp only [Store.items, h.list_eq, h.table_eq]

theorem textWithin_eq (h : s.Alike bodies t) (depth : Nat) (value : Value) :
    s.textWithin depth value = t.textWithin depth value := by
  induction depth generalizing value with
  | zero => cases value <;> simp only [Store.textWithin, h.functionName_eq, h.native?_eq]
  | succ depth ih =>
      cases value <;>
        simp only [Store.textWithin, h.functionName_eq, h.native?_eq, h.list_eq, h.table_eq,
          funext ih]

theorem text_eq (h : s.Alike bodies t) (value : Value) : s.text value = t.text value := by
  rw [Store.text, Store.text, h.textWithin_eq]

/-! ### After a change -/

theorem newList (h : s.Alike bodies t) (values : Array Value) :
    (s.newList values).2.Alike bodies (t.newList values).2 :=
  { h with lists := congrArg (·.push values) h.lists }

theorem newTable (h : s.Alike bodies t) (table : Table) :
    (s.newTable table).2.Alike bodies (t.newTable table).2 :=
  { h with tables := congrArg (·.push table) h.tables }

theorem newFrame (h : s.Alike bodies t) (frame : Frame) :
    (s.newFrame frame).2.Alike bodies (t.newFrame frame).2 :=
  { h with frames := congrArg (·.push frame) h.frames }

theorem modifyFrame (h : s.Alike bodies t) (ref : FrameRef) (change : Frame → Frame) :
    (s.modifyFrame ref change).Alike bodies (t.modifyFrame ref change) :=
  { h with frames := congrArg (·.modify ref.index change) h.frames }

theorem modifyList (h : s.Alike bodies t) (ref : ListRef) (change : Array Value → Array Value) :
    (s.modifyList ref change).Alike bodies (t.modifyList ref change) :=
  { h with lists := congrArg (·.modify ref.index change) h.lists }

theorem modifyTable (h : s.Alike bodies t) (ref : TableRef) (change : Table → Table) :
    (s.modifyTable ref change).Alike bodies (t.modifyTable ref change) :=
  { h with tables := congrArg (·.modify ref.index change) h.tables }

theorem write (h : s.Alike bodies t) (place : Place) (value : Value) :
    (s.write place value).Alike bodies (t.write place value) := by
  cases place with
  | key ref key => exact h.modifyTable ref _
  | slot ref slot => exact h.modifyList ref _
  | back ref => exact h.modifyList ref _

theorem newFunction (h : s.Alike bodies t) {f g : Closure} (hmatch : f.Matches bodies g) :
    (s.newFunction f).2.Alike bodies (t.newFunction g).2 := by
  refine { h with size := ?_, functions := ?_ }
  · simp only [Store.newFunction, Array.size_push, h.size]
  · intro ref f' g' hf hg
    have hsize := h.size
    simp only [Store.newFunction, function?, Array.getElem?_push] at hf hg
    by_cases hlast : ref.index = t.functions.size
    · rw [if_pos (hlast.trans hsize.symm), Option.some.injEq] at hf
      rw [if_pos hlast, Option.some.injEq] at hg
      exact hf ▸ hg ▸ hmatch
    · rw [if_neg (hsize ▸ hlast)] at hf
      rw [if_neg hlast] at hg
      exact h.functions ref f' g' hf hg

end Store.Alike

end TableScript
