import TableScript.Code.Basic
import TableScript.Syntax.Expr
import TableScript.Value.Signal
import TableScript.Value.Table

/-!
The store: everything that values refer to, and what has been printed. Places are given out in
ascending order and never taken back, so a reference stays good for as long as the store lives.
-/

namespace TableScript

/-- A place in the store that holds the variables of one scope. -/
structure FrameRef where
  index : Nat
deriving DecidableEq, Repr

/-- The scopes in which a name is looked up, from the innermost to the outermost. -/
structure Context where
  inner : FrameRef
  outer : List FrameRef
deriving DecidableEq, Repr

namespace Context

/-- All scopes, the innermost first. -/
def frames (c : Context) : List FrameRef :=
  c.inner :: c.outer

/-- The outermost scope, which holds the global variables. -/
def root (c : Context) : FrameRef :=
  c.outer.getLastD c.inner

/-- A new scope inside a context. -/
def enter (c : Context) (frame : FrameRef) : Context :=
  ⟨frame, c.frames⟩

end Context

/-- The variables of one scope. -/
structure Frame where
  bindings : List (String × Value)

namespace Frame

def empty : Frame :=
  ⟨[]⟩

instance : Inhabited Frame :=
  ⟨empty⟩

def get? (f : Frame) (name : String) : Option Value :=
  f.bindings.lookup name

/-- Whether a name is bound here. -/
def binds (f : Frame) (name : String) : Bool :=
  (f.get? name).isSome

/-- Replaces the value under a name, or adds the name at the end. -/
def insert (name : String) (value : Value) : List (String × Value) → List (String × Value)
  | [] => [(name, value)]
  | (key, old) :: rest =>
    if key = name then (name, value) :: rest else (key, old) :: insert name value rest

/-- Binds a name in place of what it was bound to. -/
def bind (f : Frame) (name : String) (value : Value) : Frame :=
  ⟨insert name value f.bindings⟩

def names (f : Frame) : List String :=
  f.bindings.map (·.1)

theorem lookup_insert (name other : String) (value : Value) (bindings : List (String × Value)) :
    (insert name value bindings).lookup other
      = if other = name then some value else bindings.lookup other := by
  induction bindings with
  | nil => grind [insert]
  | cons binding rest ih => grind [insert]

/-- After a binding its name has the new value, and every other name what it had. -/
@[simp]
theorem get?_bind (f : Frame) (name other : String) (value : Value) :
    (f.bind name value).get? other = if other = name then some value else f.get? other :=
  lookup_insert name other value f.bindings

@[simp]
theorem binds_bind (f : Frame) (name other : String) (value : Value) :
    (f.bind name value).binds other ↔ f.binds other ∨ other = name := by
  by_cases hname : other = name <;> simp [binds, hname]

end Frame

/-- The body of a script function, as a syntax tree or as code. -/
inductive Body where
  | tree (block : Block)
  | code (steps : List Step)

/-- A script function, with the context that it was made in. -/
structure Closure where
  name : Option String
  params : List String
  body : Body
  context : Context

/-- A function that a host provides: its name, and how many arguments it takes, if not any number.
What it does is up to the host. -/
structure Native where
  name : String
  arity : Option Nat
deriving DecidableEq, Repr

namespace Native

def print : Native :=
  ⟨"print", none⟩

def type : Native :=
  ⟨"type", some 1⟩

def str : Native :=
  ⟨"str", some 1⟩

def fail : Native :=
  ⟨"fail", none⟩

def apply : Native :=
  ⟨"apply", some 2⟩

/-- The host functions that scripts usually find. -/
def all : List Native :=
  [print, type, str, fail, apply]

end Native

/-- What happened while scripts ran, beside what the store shows. -/
inductive Event where
  /-- A host function was called. -/
  | called (native : NativeRef) (args : List Value)
  /-- A signal left a function or a program that no loop was there to take. -/
  | escaped (signal : Signal)
  /-- A list literal yielded the list in its cell without looking at its elements. -/
  | reused (cell : CellRef) (list : ListRef)
  /-- A list literal found its cell empty, so its elements are evaluated from here on. -/
  | entered (cell : CellRef)
  /-- The elements of a list literal made up a list, and it yielded that one or another. -/
  | completed (cell : CellRef) (made yielded : ListRef)
  /-- A name was assigned in the outermost scope of a context. -/
  | published (context : Context) (name : String)
deriving DecidableEq

structure Store where
  lists : Array (Array Value)
  tables : Array Table
  functions : Array Closure
  natives : Array Native
  frames : Array Frame
  /-- The lists that literals have kept. -/
  cells : Array (Option ListRef)
  /-- The lines printed so far. -/
  output : Array String
  /-- What happened so far, the latest first. -/
  events : List Event
  /-- The states that all tables together have been in. Being a property, it takes no room. -/
  seen : Array Table → Prop

namespace Store

def empty : Store :=
  { lists := #[], tables := #[], functions := #[], natives := #[], frames := #[], cells := #[],
    output := #[], events := [], seen := fun tables => tables = #[] }

instance : Inhabited Store :=
  ⟨empty⟩

/-! ### Reading -/

def list (s : Store) (ref : ListRef) : Array Value :=
  s.lists[ref.index]?.getD #[]

def table (s : Store) (ref : TableRef) : Table :=
  s.tables[ref.index]?.getD .empty

def function? (s : Store) (ref : FunctionRef) : Option Closure :=
  s.functions[ref.index]?

def native? (s : Store) (ref : NativeRef) : Option Native :=
  s.natives[ref.index]?

def frame (s : Store) (ref : FrameRef) : Frame :=
  s.frames[ref.index]?.getD .empty

/-- The list that a cell keeps. -/
def cell? (s : Store) (ref : CellRef) : Option ListRef :=
  (s.cells[ref.index]?).join

/-! ### Remembering -/

/-- The states that tables have been in once they are in another one. -/
def seenThen (s : Store) (tables : Array Table) : Array Table → Prop :=
  fun state => state = tables ∨ s.seen state

/-- The store without its memory of earlier tables. -/
def forget (s : Store) : Store :=
  { s with seen := fun state => state = s.tables }

/-! ### Making -/

def newList (s : Store) (values : Array Value) : ListRef × Store :=
  (⟨s.lists.size⟩, { s with lists := s.lists.push values })

def newTable (s : Store) (table : Table) : TableRef × Store :=
  let ref := ⟨s.tables.size⟩
  let tables := s.tables.push table
  (ref, { s with tables := tables, seen := s.seenThen tables })

def newFunction (s : Store) (closure : Closure) : FunctionRef × Store :=
  (⟨s.functions.size⟩, { s with functions := s.functions.push closure })

def newNative (s : Store) (native : Native) : NativeRef × Store :=
  (⟨s.natives.size⟩, { s with natives := s.natives.push native })

def newFrame (s : Store) (frame : Frame) : FrameRef × Store :=
  (⟨s.frames.size⟩, { s with frames := s.frames.push frame })

/-- Empty cells, up to the given number of all cells. -/
def growCells (s : Store) (count : Nat) : Store :=
  { s with cells := s.cells ++ Array.replicate (count - s.cells.size) none }

/-! ### Changing -/

def modifyList (s : Store) (ref : ListRef) (f : Array Value → Array Value) : Store :=
  { s with lists := s.lists.modify ref.index f }

def modifyTable (s : Store) (ref : TableRef) (f : Table → Table) : Store :=
  let tables := s.tables.modify ref.index f
  { s with tables := tables, seen := s.seenThen tables }

def modifyFrame (s : Store) (ref : FrameRef) (f : Frame → Frame) : Store :=
  { s with frames := s.frames.modify ref.index f }

/-- Keeps a list in a cell that has none yet. -/
def fillCell (s : Store) (ref : CellRef) (list : ListRef) : Store :=
  { s with cells := s.cells.modify ref.index (·.or (some list)) }

def printLine (s : Store) (line : String) : Store :=
  { s with output := s.output.push line }

def record (s : Store) (event : Event) : Store :=
  { s with events := event :: s.events }

/-! ### What is read after a change -/

section

variable (s : Store)

@[simp]
theorem list_newList (values : Array Value) :
    (s.newList values).2.list (s.newList values).1 = values := by
  simp [newList, list]

@[simp]
theorem table_newTable (t : Table) : (s.newTable t).2.table (s.newTable t).1 = t := by
  simp [newTable, table]

@[simp]
theorem frame_newFrame (f : Frame) : (s.newFrame f).2.frame (s.newFrame f).1 = f := by
  simp [newFrame, frame]

theorem list_modifyList {ref : ListRef} (href : ref.index < s.lists.size)
    (f : Array Value → Array Value) : (s.modifyList ref f).list ref = f (s.list ref) := by
  simp [modifyList, list, href, Array.getElem_modify]

theorem list_modifyList_of_ne {ref other : ListRef} (hne : ref.index ≠ other.index)
    (f : Array Value → Array Value) : (s.modifyList ref f).list other = s.list other := by
  simp [modifyList, list, Array.getElem?_modify, hne]

theorem table_modifyTable {ref : TableRef} (href : ref.index < s.tables.size)
    (f : Table → Table) : (s.modifyTable ref f).table ref = f (s.table ref) := by
  simp [modifyTable, table, href, Array.getElem_modify]

theorem table_modifyTable_of_ne {ref other : TableRef} (hne : ref.index ≠ other.index)
    (f : Table → Table) : (s.modifyTable ref f).table other = s.table other := by
  simp [modifyTable, table, Array.getElem?_modify, hne]

theorem frame_modifyFrame {ref : FrameRef} (href : ref.index < s.frames.size)
    (f : Frame → Frame) : (s.modifyFrame ref f).frame ref = f (s.frame ref) := by
  simp [modifyFrame, frame, href, Array.getElem_modify]

theorem frame_modifyFrame_of_ne {ref other : FrameRef} (hne : ref.index ≠ other.index)
    (f : Frame → Frame) : (s.modifyFrame ref f).frame other = s.frame other := by
  simp [modifyFrame, frame, Array.getElem?_modify, hne]

/-- The names that scopes bind once a name is bound in one of them. -/
theorem binds_modifyFrame (ref other : FrameRef) (name name' : String) (value : Value) :
    ((s.modifyFrame ref (·.bind name value)).frame other).binds name' ↔
      (s.frame other).binds name' ∨ other = ref ∧ ref.index < s.frames.size ∧ name' = name := by
  by_cases hother : other = ref
  · subst hother
    by_cases hsize : other.index < s.frames.size
    · simp [frame_modifyFrame s hsize, hsize]
    · simp [modifyFrame, frame, hsize]
  · have hne : ref.index ≠ other.index := fun h => hother (congrArg FrameRef.mk h.symm)
    simp [frame_modifyFrame_of_ne s hne, hother]

end

end Store

end TableScript
