import TableScript.Proofs.KeptLists

/-!
Where a program evaluates no list literal twice, it makes no difference whether literals keep their
lists. Cells are numbered in the order in which literals are completed, so while a program runs for
the first time all cells from some number on are empty; a literal that finds its cell empty makes a
list, as one without a cell does.
-/

-- The theorems of a mutual block share their hypotheses, whichever of them a single one needs.
set_option linter.unusedSectionVars false

namespace TableScript

open Eval TableScript.Numbering

/-- The policy of code before numbering whose list literals stand only where code runs once. -/
def Policy.listsOnce : Policy
  | site, .list none => !site.repeated
  | _, .list (some _) => false
  | _, .continue => true
  | _, .break => true

theorem Policy.listsOnce_le_cellsBelow (bound : Nat) (site : Site) (feature : Feature)
    (hallowed : listsOnce site feature) : cellsBelow bound site feature := by
  cases feature with
  | list cell =>
      cases cell with
      | none => rfl
      | some cell => cases hallowed
  | _ => rfl

theorem Policy.not_listsOnce_of_repeated {site : Site} (hsite : site.repeated)
    (cell : Option CellRef) : ¬listsOnce site (.list cell) := by
  cases cell <;> simp [listsOnce, hsite]

/-! ### Code without literals -/

mutual

/-- Numbering changes nothing where code may run more than once, as no literals are there. -/
theorem Code.number_eq_self {site : Site} (hsite : site.repeated) : ∀ (code : Code) (first : Nat),
    Policy.listsOnce.Allows (code.occurrences site) → code.number.startingAt first = (code, first)
  | .const _, _, _ => rfl
  | .load _, _, _ => rfl
  | .list cell _, _, hallowed => by
    rw [Code.occurrences, Policy.allows_append, Policy.allows_singleton] at hallowed
    exact absurd hallowed.2 (Policy.not_listsOnce_of_repeated hsite cell)
  | .table entries, _, hallowed => by
    simp only [Code.number, startingAt_bind, startingAt_pure,
      numberEntries_eq_self hsite entries _ hallowed]
  | .function _ _ body, _, hallowed => by
    simp only [Code.number, startingAt_bind, startingAt_pure,
      numberSteps_eq_self rfl body _ hallowed]
  | .unary _ operand, _, hallowed => by
    simp only [Code.number, startingAt_bind, startingAt_pure,
      Code.number_eq_self hsite operand _ hallowed]
  | .or operands, _, hallowed => by
    simp only [Code.number, startingAt_bind, startingAt_pure,
      numberAll_eq_self hsite operands _ hallowed]
  | .and operands, _, hallowed => by
    simp only [Code.number, startingAt_bind, startingAt_pure,
      numberAll_eq_self hsite operands _ hallowed]
  | .fold first rest, _, hallowed => by
    simp only [Code.occurrences, Policy.allows_append] at hallowed
    simp only [Code.number, startingAt_bind, startingAt_pure,
      Code.number_eq_self hsite first _ hallowed.1, numberRest_eq_self hsite rest _ hallowed.2]
  | .index container index, _, hallowed => by
    simp only [Code.occurrences, Policy.allows_append] at hallowed
    simp only [Code.number, startingAt_bind, startingAt_pure,
      Code.number_eq_self hsite container _ hallowed.1,
      Code.number_eq_self hsite index _ hallowed.2]
  | .member container _, _, hallowed => by
    simp only [Code.number, startingAt_bind, startingAt_pure,
      Code.number_eq_self hsite container _ hallowed]
  | .call callee args, _, hallowed => by
    simp only [Code.occurrences, Policy.allows_append] at hallowed
    simp only [Code.number, startingAt_bind, startingAt_pure,
      Code.number_eq_self hsite callee _ hallowed.1, numberAll_eq_self hsite args _ hallowed.2]
  | .store _ value, _, hallowed => by
    simp only [Code.number, startingAt_bind, startingAt_pure,
      Code.number_eq_self hsite value _ hallowed]
  | .update _ _ value, _, hallowed => by
    simp only [Code.number, startingAt_bind, startingAt_pure,
      Code.number_eq_self hsite value _ hallowed]
  | .storeGlobal _ value, _, hallowed => by
    simp only [Code.number, startingAt_bind, startingAt_pure,
      Code.number_eq_self hsite value _ hallowed]
  | .storeIndex container index value, _, hallowed => by
    simp only [Code.occurrences, Policy.allows_append] at hallowed
    simp only [Code.number, startingAt_bind, startingAt_pure,
      Code.number_eq_self hsite container _ hallowed.1.1,
      Code.number_eq_self hsite index _ hallowed.1.2, Code.number_eq_self hsite value _ hallowed.2]
  | .updateIndex _ container index value, _, hallowed => by
    simp only [Code.occurrences, Policy.allows_append] at hallowed
    simp only [Code.number, startingAt_bind, startingAt_pure,
      Code.number_eq_self hsite container _ hallowed.1.1,
      Code.number_eq_self hsite index _ hallowed.1.2, Code.number_eq_self hsite value _ hallowed.2]
  | .storeMember container _ value, _, hallowed => by
    simp only [Code.occurrences, Policy.allows_append] at hallowed
    simp only [Code.number, startingAt_bind, startingAt_pure,
      Code.number_eq_self hsite container _ hallowed.1,
      Code.number_eq_self hsite value _ hallowed.2]
  | .updateMember _ container _ value, _, hallowed => by
    simp only [Code.occurrences, Policy.allows_append] at hallowed
    simp only [Code.number, startingAt_bind, startingAt_pure,
      Code.number_eq_self hsite container _ hallowed.1,
      Code.number_eq_self hsite value _ hallowed.2]
  | .flow flow, _, hallowed => by
    simp only [Code.number, startingAt_bind, startingAt_pure,
      Flow.number_eq_self hsite flow _ hallowed]

theorem Flow.number_eq_self {site : Site} (hsite : site.repeated) : ∀ (flow : Flow) (first : Nat),
    Policy.listsOnce.Allows (flow.occurrences site) → flow.number.startingAt first = (flow, first)
  | .nothing, _, _ => rfl
  | .block body, _, hallowed => by
    simp only [Flow.number, startingAt_bind, startingAt_pure,
      numberSteps_eq_self hsite body _ hallowed]
  | .branch condition body otherwise, _, hallowed => by
    simp only [Flow.occurrences, Policy.allows_append] at hallowed
    simp only [Flow.number, startingAt_bind, startingAt_pure,
      Code.number_eq_self hsite condition _ hallowed.1.1,
      numberSteps_eq_self hsite body _ hallowed.1.2,
      Flow.number_eq_self hsite otherwise _ hallowed.2]
  | .while condition body, _, hallowed => by
    simp only [Flow.occurrences, Policy.allows_append] at hallowed
    simp only [Flow.number, startingAt_bind, startingAt_pure,
      Code.number_eq_self rfl condition _ hallowed.1, numberSteps_eq_self rfl body _ hallowed.2]
  | .loop body, _, hallowed => by
    simp only [Flow.number, startingAt_bind, startingAt_pure,
      numberSteps_eq_self rfl body _ hallowed]
  | .forIn _ _ items body, _, hallowed => by
    simp only [Flow.occurrences, Policy.allows_append] at hallowed
    simp only [Flow.number, startingAt_bind, startingAt_pure,
      Code.number_eq_self hsite items _ hallowed.1, numberSteps_eq_self rfl body _ hallowed.2]
  | .forOf _ start stop step body, _, hallowed => by
    simp only [Flow.occurrences, Policy.allows_append] at hallowed
    simp only [Flow.number, startingAt_bind, startingAt_pure,
      Code.number_eq_self hsite start _ hallowed.1.1.1,
      Code.number_eq_self hsite stop _ hallowed.1.1.2,
      Code.number_eq_self hsite step _ hallowed.1.2, numberSteps_eq_self rfl body _ hallowed.2]
  | .return value, _, hallowed => by
    simp only [Flow.number, startingAt_bind, startingAt_pure,
      Code.number_eq_self hsite value _ hallowed]
  | .continue, _, _ => rfl
  | .break, _, _ => rfl

theorem numberAll_eq_self {site : Site} (hsite : site.repeated) :
    ∀ (codes : List Code) (first : Nat), Policy.listsOnce.Allows (codeOccurrences site codes) →
      (numberAll codes).startingAt first = (codes, first)
  | [], _, _ => rfl
  | code :: codes, _, hallowed => by
    simp only [codeOccurrences, Policy.allows_append] at hallowed
    simp only [numberAll, startingAt_bind, startingAt_pure,
      Code.number_eq_self hsite code _ hallowed.1, numberAll_eq_self hsite codes _ hallowed.2]

theorem numberRest_eq_self {site : Site} (hsite : site.repeated) :
    ∀ (rest : List (BinaryOp × Code)) (first : Nat),
      Policy.listsOnce.Allows (restOccurrences site rest) →
        (numberRest rest).startingAt first = (rest, first)
  | [], _, _ => rfl
  | (_, code) :: rest, _, hallowed => by
    simp only [restOccurrences, Policy.allows_append] at hallowed
    simp only [numberRest, startingAt_bind, startingAt_pure,
      Code.number_eq_self hsite code _ hallowed.1, numberRest_eq_self hsite rest _ hallowed.2]

theorem numberEntries_eq_self {site : Site} (hsite : site.repeated) :
    ∀ (entries : List CodeEntry) (first : Nat),
      Policy.listsOnce.Allows (codeEntryOccurrences site entries) →
        (numberEntries entries).startingAt first = (entries, first)
  | [], _, _ => rfl
  | .fixed _ value :: entries, _, hallowed => by
    simp only [codeEntryOccurrences, Policy.allows_append] at hallowed
    simp only [numberEntries, startingAt_bind, startingAt_pure,
      Code.number_eq_self hsite value _ hallowed.1,
      numberEntries_eq_self hsite entries _ hallowed.2]
  | .computed key value :: entries, _, hallowed => by
    simp only [codeEntryOccurrences, Policy.allows_append] at hallowed
    simp only [numberEntries, startingAt_bind, startingAt_pure,
      Code.number_eq_self hsite key _ hallowed.1.1, Code.number_eq_self hsite value _ hallowed.1.2,
      numberEntries_eq_self hsite entries _ hallowed.2]

theorem numberSteps_eq_self {site : Site} (hsite : site.repeated) :
    ∀ (steps : List Step) (first : Nat), Policy.listsOnce.Allows (stepOccurrences site steps) →
      (numberSteps steps).startingAt first = (steps, first)
  | [], _, _ => rfl
  | .value code :: steps, _, hallowed => by
    simp only [stepOccurrences, Policy.allows_append] at hallowed
    simp only [numberSteps, startingAt_bind, startingAt_pure,
      Code.number_eq_self hsite code _ hallowed.1, numberSteps_eq_self hsite steps _ hallowed.2]
  | .flow flow :: steps, _, hallowed => by
    simp only [stepOccurrences, Policy.allows_append] at hallowed
    simp only [numberSteps, startingAt_bind, startingAt_pure,
      Flow.number_eq_self hsite flow _ hallowed.1, numberSteps_eq_self hsite steps _ hallowed.2]

end

/-! ### Stores -/

/-- Two stores with the same data. What their cells hold may differ, and what happened to
literals. -/
structure Store.SameData (s t : Store) : Prop where
  lists : s.lists = t.lists
  tables : s.tables = t.tables
  functions : s.functions = t.functions
  natives : s.natives = t.natives
  frames : s.frames = t.frames
  output : s.output = t.output
  events : s.events.filter (·.cell?.isNone) = t.events.filter (·.cell?.isNone)

/-- Stores of a program whose literals keep their lists and of one whose literals do not. There were
cells before, numbered below `old`; of the others, those from `first` on are still empty. -/
structure Store.Unfilled (old first : Nat) (s t : Store) : Prop extends Store.SameData s t where
  follows : s.Follows (.cellsBelow old)
  old_le : old ≤ first
  cells : ∀ index < old, s.cells[index]? = t.cells[index]?
  empty : ∀ cell : CellRef, first ≤ cell.index → s.cell? cell = none

/-- The coupling of a program whose literals keep their lists with one whose literals do not. -/
def Coupling.unfilled (old first : Nat) : Coupling :=
  { rel := Store.Unfilled old first, halts := fun _ => True }

namespace Store.Unfilled

variable {old first : Nat} {s t : Store} (h : s.Unfilled old first t)

include h

theorem alike : s.Alike (Policy.cellsBelow old).Shared t where
  lists := h.lists
  tables := h.tables
  natives := h.natives
  frames := h.frames
  size := congrArg Array.size h.functions
  functions ref f g hf hg := by
    have hfollows := h.follows ref f hf
    rw [Store.function?, h.functions] at hf
    obtain rfl : f = g := Option.some.inj (hf.symm.trans hg)
    exact ⟨rfl, rfl, rfl, rfl, hfollows⟩

theorem advance {next : Nat} (hle : first ≤ next) : s.Unfilled old next t :=
  { h with
    old_le := Nat.le_trans h.old_le hle
    empty := fun cell hcell => h.empty cell (Nat.le_trans hle hcell) }

theorem record (event : Event) : (s.record event).Unfilled old first (t.record event) :=
  { h with events := by simp only [Store.record, List.filter_cons, h.events] }

/-- What happens to a literal need not happen on the other side. -/
theorem recordLeft {event : Event} (hevent : event.cell?.isNone = false) :
    (s.record event).Unfilled old first t :=
  { h with events := by simpa [Store.record, List.filter_cons, hevent] using h.events }

theorem newList (values : Array Value) :
    (s.newList values).2.Unfilled old first (t.newList values).2 :=
  { h with lists := by simp only [Store.newList, h.lists] }

theorem newFunction {f : Closure}
    (hf : (Policy.cellsBelow old).Allows (f.body.occurrences .function)) :
    (s.newFunction f).2.Unfilled old first (t.newFunction f).2 :=
  { h with
    functions := by simp only [Store.newFunction, h.functions]
    follows := h.follows.newFunction hf }

theorem modifyFrame (ref : FrameRef) (f : Frame → Frame) :
    (s.modifyFrame ref f).Unfilled old first (t.modifyFrame ref f) :=
  { h with frames := by simp only [Store.modifyFrame, h.frames] }

theorem write (place : Place) (value : Value) :
    (s.write place value).Unfilled old first (t.write place value) := by
  cases place with
  | key ref key =>
      exact { h with tables := by simp only [Store.write, Store.modifyTable, h.tables] }
  | slot ref slot => exact { h with lists := by simp only [Store.write, Store.modifyList, h.lists] }
  | back ref => exact { h with lists := by simp only [Store.write, Store.modifyList, h.lists] }

/-- A cell that was there before is filled on both sides. -/
theorem fillCell {cell : CellRef} (hcell : cell.index < old) (list : ListRef) :
    (s.fillCell cell list).Unfilled old first (t.fillCell cell list) :=
  { h with
    cells := fun index hindex => by
      simp only [Store.fillCell, Array.getElem?_modify, h.cells index hindex]
    empty := fun other hother => by
      have hne : cell.index ≠ other.index := by have := h.old_le; omega
      simpa [Store.cell?, Store.fillCell, Array.getElem?_modify, hne] using h.empty other hother }

/-- The first empty cell is filled on one side only. -/
theorem fillFirst (list : ListRef) : (s.fillCell ⟨first⟩ list).Unfilled old (first + 1) t :=
  { h with
    old_le := Nat.le_succ_of_le h.old_le
    cells := fun index hindex => by
      have hne : first ≠ index := by have := h.old_le; omega
      simpa [Store.fillCell, Array.getElem?_modify, hne] using h.cells index hindex
    empty := fun other hother => by
      have hne : first ≠ other.index := by omega
      simpa [Store.cell?, Store.fillCell, Array.getElem?_modify, hne]
        using h.empty other (Nat.le_of_succ_le hother) }

end Store.Unfilled

namespace Coupling

variable (old first : Nat)

theorem unfilled_implies {first next : Nat} (hle : first ≤ next) :
    (unfilled old first).Implies (unfilled old next) :=
  ⟨fun h => Store.Unfilled.advance h hle, id⟩

theorem unfilled_stable :
    (unfilled old first).Stable (.cellsBelow old) (Policy.cellsBelow old).Shared where
  alike h := h.alike
  newList h values := h.newList values
  newTable h table _ := { h with tables := by simp only [Store.newTable, h.tables] }
  newFunction h _ _ hmatch := by
    obtain ⟨rfl, hallowed⟩ := hmatch.eq_of_shared
    exact h.newFunction hallowed
  newFrame h := { h with frames := by simp only [Store.newFrame, h.frames] }
  newFrame_growable _ := trivial
  bind h ref name _ value := h.modifyFrame ref (·.bind name value)
  publish h c name value := (h.modifyFrame c.root (·.bind name value)).record (.published c name)
  write h place value := h.write place value
  called h ref args := h.record (.called ref args)
  keepList hcell _ _ hxy := by
    have hbelow := of_decide_eq_true hcell
    refine keepList_coupled (K := unfilled old first) (fun s t h => ?_) (fun s t h => h.lists)
      (fun s t h values => h.newList values) (fun s t h list => h.fillCell hbelow list)
      (fun s t h event _ => h.record event) hxy
    rw [Store.cell?, Store.cell?, h.cells _ hbelow]
  outOfFuel := trivial
  fault _ := trivial

end Coupling

/-! ### Evaluation -/

/-- The left evaluation fills cells from `first` to before `next`, and is like the right one
otherwise. -/
structure Eval.Advances {α : Type} (old first next : Nat) (x y : Eval α) : Prop where
  le : first ≤ next
  coupled : Coupled (.unfilled old first) (.unfilled old next) x y

namespace Eval.Advances

variable {α β : Type} {old first mid next : Nat} {x y x' y' : Eval α} {f g : α → Eval β}

/-- What is the same whichever cells are empty fills no cell. -/
theorem steady (hxy : ∀ first, Coupled (.unfilled old first) (.unfilled old first) x y) :
    Advances old first first x y :=
  ⟨Nat.le_refl first, hxy first⟩

theorem pure (a : α) : Advances old first first (Pure.pure a) (Pure.pure a) :=
  steady fun _ => Coupled.pure a

theorem widen {first' next' : Nat} (hxy : Advances old first next x y) (hfirst : first' ≤ first)
    (hnext : next ≤ next') : Advances old first' next' x y where
  le := Nat.le_trans hfirst (Nat.le_trans hxy.le hnext)
  coupled s t h :=
    (hxy.coupled s t (h.advance hfirst)).mono (Coupling.unfilled_implies old hnext)

theorem bind [Inhabited α] (hxy : Advances old first mid x y)
    (hfg : ∀ a, Advances old mid next (f a) (g a)) :
    Advances old first next (x >>= f) (y >>= g) := by
  have hle := (hfg default).le
  refine ⟨Nat.le_trans hxy.le hle, ?_⟩
  exact Coupled.bindThen (Coupling.unfilled_implies old hle) hxy.coupled fun a => (hfg a).coupled

/-- Of two branches, each fills its own cells, if it is taken. -/
theorem ite {condition : Bool} (hthen : Advances old first mid x x')
    (helse : Advances old mid next y y') :
    Advances old first next (if condition then x else y) (if condition then x' else y') := by
  have hx := hthen.widen (Nat.le_refl first) helse.le
  have hy := helse.widen hthen.le (Nat.le_refl next)
  exact ⟨hx.le, Coupled.ite hx.coupled hy.coupled⟩

/-- A literal whose cell comes after those of its elements makes a list, as one without a cell. -/
theorem keepList {x y : Eval (List Value)} (hxy : Advances old first next x y) :
    Advances old first (next + 1) (Eval.keepList ⟨next⟩ x) (y >>= Eval.newList) := by
  refine ⟨Nat.le_succ_of_le hxy.le, fun s t h => ?_⟩
  have hentered : (s.record (.entered ⟨next⟩)).Unfilled old first t := h.recordLeft rfl
  rw [keepList_apply, h.empty ⟨next⟩ hxy.le, bind_apply]
  rcases (hxy.coupled _ t hentered).cases with
    ⟨values, s', t', hx, hy, h'⟩ | ⟨halt, s', t', hx, hy, _, h'⟩
  · have hnew := h'.newList values.toArray
    -- The elements have cells before this one, so it is still empty when they are done.
    have hkept := Store.getD_cell?_fillCell (hnew.empty ⟨next⟩ (Nat.le_refl next))
      (s'.newList values.toArray).1
    simp only [hx, hy, hkept]
    refine ⟨?_, (hnew.fillFirst _).recordLeft rfl⟩
    simp only [Store.newList, h'.lists]
  · simp only [hx, hy]
    exact ⟨rfl, trivial, h'.advance (Nat.le_succ next)⟩

end Eval.Advances

section Numbered

variable {old : Nat} {m m' : Machine}
variable (hm : ∀ first, Machine.Paired (.unfilled old first) m m')

include hm

/-- Code that numbering leaves alone does the same on both sides. -/
theorem Code.run_steady (c : Context) (site : Site) (code : Code)
    (hallowed : Policy.listsOnce.Allows (code.occurrences site)) (first : Nat) :
    Advances old first first (code.run m c) (code.run m' c) :=
  .steady fun first => Code.run_coupled (Coupling.unfilled_stable old first) (hm first)
    (fun _ hsteps => ⟨rfl, hsteps⟩) trivial site code
    (hallowed.mono (Policy.listsOnce_le_cellsBelow old))

theorem Flow.run_steady (c : Context) (site : Site) (flow : Flow)
    (hallowed : Policy.listsOnce.Allows (flow.occurrences site)) (first : Nat) :
    Advances old first first (flow.run m c) (flow.run m' c) :=
  .steady fun first => Flow.run_coupled (Coupling.unfilled_stable old first) (hm first)
    (fun _ hsteps => ⟨rfl, hsteps⟩) trivial site flow
    (hallowed.mono (Policy.listsOnce_le_cellsBelow old))

theorem runSteps_steady (c : Context) (site : Site) (last : Value) (steps : List Step)
    (hallowed : Policy.listsOnce.Allows (stepOccurrences site steps)) (first : Nat) :
    Coupled (.unfilled old first) (.unfilled old first) (runSteps m c last steps)
      (runSteps m' c last steps) :=
  runSteps_coupled (Coupling.unfilled_stable old first) (hm first)
    (fun _ hsteps => ⟨rfl, hsteps⟩) trivial site last steps
    (hallowed.mono (Policy.listsOnce_le_cellsBelow old))

mutual

/-- Numbered code, run while its cells are empty, does what the code does without cells. -/
theorem Code.number_advances (c : Context) (site : Site) : ∀ (code : Code) (first : Nat),
    Policy.listsOnce.Allows (code.occurrences site) →
      Advances old first (code.number.startingAt first).2
        ((code.number.startingAt first).1.run m c) (code.run m' c)
  | .const value, _, _ => .pure value
  | .load name, _, hallowed => Code.run_steady hm c site (.load name) hallowed _
  | .list cell elements, first, hallowed => by
    rw [Code.occurrences, Policy.allows_append, Policy.allows_singleton] at hallowed
    cases cell with
    | none => exact (runAll_advances c site elements first hallowed.1).keepList
    | some cell => cases hallowed.2
  | .table entries, first, hallowed =>
    (runEntries_advances c site .empty entries first hallowed).bind fun table =>
      .steady fun first => Coupled.making fun _ _ h =>
        ⟨by simp only [Store.newTable, h.tables],
          { h with tables := by simp only [Store.newTable, h.tables] }⟩
  | .function name params body, first, hallowed => by
    simp only [Code.number, startingAt_bind, startingAt_pure,
      numberSteps_eq_self rfl body first hallowed]
    exact Code.run_steady hm c site (.function name params body) hallowed first
  | .unary op operand, first, hallowed =>
    (Code.number_advances c site operand first hallowed).bind fun value =>
      .steady fun first => (Coupling.unfilled_stable old first).ofExcept (op.apply_plain value)
  | .or operands, first, hallowed => runOr_advances c site operands first hallowed
  | .and operands, first, hallowed => runAnd_advances c site .null operands first hallowed
  | .fold code rest, first, hallowed => by
    rw [Code.occurrences, Policy.allows_append] at hallowed
    refine (Code.number_advances c site code first hallowed.1).bind fun left => ?_
    exact runRest_advances c site left rest _ hallowed.2
  | .index container index, first, hallowed => by
    rw [Code.occurrences, Policy.allows_append] at hallowed
    refine (Code.number_advances c site container first hallowed.1).bind fun container => ?_
    refine (Code.number_advances c site index _ hallowed.2).bind fun index => ?_
    exact .steady fun first => (Coupling.unfilled_stable old first).index container index
  | .member container name, first, hallowed =>
    (Code.number_advances c site container first hallowed).bind fun container =>
      .steady fun first => (Coupling.unfilled_stable old first).member container name
  | .call callee args, first, hallowed => by
    rw [Code.occurrences, Policy.allows_append] at hallowed
    refine (Code.number_advances c site callee first hallowed.1).bind fun callee => ?_
    refine (runAll_advances c site args _ hallowed.2).bind fun args => ?_
    exact .steady fun first => (hm first).call callee args
  | .store name value, first, hallowed =>
    (Code.number_advances c site value first hallowed).bind fun value =>
      .steady fun first => (Coupling.unfilled_stable old first).store trivial name value
  | .update op name value, first, hallowed => by
    refine Advances.bind (.steady fun first =>
      (Coupling.unfilled_stable old first).load c name) fun current => ?_
    refine (Code.number_advances c site value first hallowed).bind fun value => ?_
    exact .steady fun first => ((Coupling.unfilled_stable old first).addOp op current value).bind
      ((Coupling.unfilled_stable old first).store trivial name)
  | .storeGlobal name value, first, hallowed =>
    (Code.number_advances c site value first hallowed).bind fun value =>
      .steady fun first => (Coupling.unfilled_stable old first).storeGlobal c name value
  | .storeIndex container index value, first, hallowed => by
    rw [Code.occurrences, Policy.allows_append, Policy.allows_append] at hallowed
    refine (Code.number_advances c site container first hallowed.1.1).bind fun container => ?_
    refine (Code.number_advances c site index _ hallowed.1.2).bind fun index => ?_
    refine (Code.number_advances c site value _ hallowed.2).bind fun value => ?_
    exact .steady fun first => (Coupling.unfilled_stable old first).storeIndex container index value
  | .updateIndex op container index value, first, hallowed => by
    rw [Code.occurrences, Policy.allows_append, Policy.allows_append] at hallowed
    refine (Code.number_advances c site container first hallowed.1.1).bind fun container => ?_
    refine (Code.number_advances c site index _ hallowed.1.2).bind fun index => ?_
    refine Advances.bind (.steady fun first =>
      (Coupling.unfilled_stable old first).index container index) fun current => ?_
    refine (Code.number_advances c site value _ hallowed.2).bind fun value => ?_
    exact .steady fun first => ((Coupling.unfilled_stable old first).addOp op current value).bind
      ((Coupling.unfilled_stable old first).storeIndex container index)
  | .storeMember container name value, first, hallowed => by
    rw [Code.occurrences, Policy.allows_append] at hallowed
    refine (Code.number_advances c site container first hallowed.1).bind fun container => ?_
    refine (Code.number_advances c site value _ hallowed.2).bind fun value => ?_
    exact .steady fun first => (Coupling.unfilled_stable old first).storeMember container name value
  | .updateMember op container name value, first, hallowed => by
    rw [Code.occurrences, Policy.allows_append] at hallowed
    refine (Code.number_advances c site container first hallowed.1).bind fun container => ?_
    refine Advances.bind (.steady fun first =>
      (Coupling.unfilled_stable old first).member container name) fun current => ?_
    refine (Code.number_advances c site value _ hallowed.2).bind fun value => ?_
    exact .steady fun first => ((Coupling.unfilled_stable old first).addOp op current value).bind
      ((Coupling.unfilled_stable old first).storeMember container name)
  | .flow flow, first, hallowed =>
    (Flow.number_advances c site flow first hallowed).bind fun ending => .pure ending.1

theorem runAll_advances (c : Context) (site : Site) : ∀ (codes : List Code) (first : Nat),
    Policy.listsOnce.Allows (codeOccurrences site codes) →
      Advances old first ((numberAll codes).startingAt first).2
        (runAll m c ((numberAll codes).startingAt first).1) (runAll m' c codes)
  | [], _, _ => .pure _
  | code :: codes, first, hallowed => by
    rw [codeOccurrences, Policy.allows_append] at hallowed
    refine (Code.number_advances c site code first hallowed.1).bind fun value => ?_
    exact (runAll_advances c site codes _ hallowed.2).bind fun values => .pure _

theorem runOr_advances (c : Context) (site : Site) : ∀ (codes : List Code) (first : Nat),
    Policy.listsOnce.Allows (codeOccurrences site codes) →
      Advances old first ((numberAll codes).startingAt first).2
        (runOr m c ((numberAll codes).startingAt first).1) (runOr m' c codes)
  | [], _, _ => .pure _
  | code :: codes, first, hallowed => by
    rw [codeOccurrences, Policy.allows_append] at hallowed
    refine (Code.number_advances c site code first hallowed.1).bind fun value => ?_
    exact .ite (.pure value) (runOr_advances c site codes _ hallowed.2)

theorem runAnd_advances (c : Context) (site : Site) (last : Value) :
    ∀ (codes : List Code) (first : Nat), Policy.listsOnce.Allows (codeOccurrences site codes) →
      Advances old first ((numberAll codes).startingAt first).2
        (runAnd m c last ((numberAll codes).startingAt first).1) (runAnd m' c last codes)
  | [], _, _ => .pure last
  | code :: codes, first, hallowed => by
    rw [codeOccurrences, Policy.allows_append] at hallowed
    refine (Code.number_advances c site code first hallowed.1).bind fun value => ?_
    exact .ite (runAnd_advances c site value codes _ hallowed.2) (.pure _)

theorem runRest_advances (c : Context) (site : Site) (left : Value) :
    ∀ (rest : List (BinaryOp × Code)) (first : Nat),
      Policy.listsOnce.Allows (restOccurrences site rest) →
        Advances old first ((numberRest rest).startingAt first).2
          (runRest m c left ((numberRest rest).startingAt first).1) (runRest m' c left rest)
  | [], _, _ => .pure left
  | (op, code) :: rest, first, hallowed => by
    rw [restOccurrences, Policy.allows_append] at hallowed
    refine (Code.number_advances c site code first hallowed.1).bind fun right => ?_
    refine Advances.bind (.steady fun first =>
      (Coupling.unfilled_stable old first).binaryOp op left right) fun value => ?_
    exact runRest_advances c site value rest _ hallowed.2

theorem runEntries_advances (c : Context) (site : Site) (table : Table) :
    ∀ (entries : List CodeEntry) (first : Nat),
      Policy.listsOnce.Allows (codeEntryOccurrences site entries) →
        Advances old first ((numberEntries entries).startingAt first).2
          (runEntries m c table ((numberEntries entries).startingAt first).1)
          (runEntries m' c table entries)
  | [], _, _ => .pure _
  | .fixed _ value :: entries, first, hallowed => by
    rw [codeEntryOccurrences, Policy.allows_append] at hallowed
    refine (Code.number_advances c site value first hallowed.1).bind fun value => ?_
    exact runEntries_advances c site _ entries _ hallowed.2
  | .computed key value :: entries, first, hallowed => by
    rw [codeEntryOccurrences, Policy.allows_append, Policy.allows_append] at hallowed
    refine (Code.number_advances c site key first hallowed.1.1).bind fun key => ?_
    refine Advances.bind (.steady fun first =>
      (Coupling.unfilled_stable old first).ofExcept (Key.ofValue_plain key)) fun key => ?_
    refine (Code.number_advances c site value _ hallowed.1.2).bind fun value => ?_
    exact runEntries_advances c site _ entries _ hallowed.2

theorem Flow.number_advances (c : Context) (site : Site) : ∀ (flow : Flow) (first : Nat),
    Policy.listsOnce.Allows (flow.occurrences site) →
      Advances old first (flow.number.startingAt first).2
        ((flow.number.startingAt first).1.run m c) (flow.run m' c)
  | .nothing, _, _ => .pure _
  | .block body, first, hallowed => runSteps_advances c site .null body first hallowed
  | .branch condition body otherwise, first, hallowed => by
    rw [Flow.occurrences, Policy.allows_append, Policy.allows_append] at hallowed
    refine (Code.number_advances c site condition first hallowed.1.1).bind fun value => ?_
    exact .ite (runSteps_advances c site .null body _ hallowed.1.2)
      (Flow.number_advances c site otherwise _ hallowed.2)
  -- Conditions and bodies of loops have no literals, so they are the same code on both sides.
  | .while condition body, first, hallowed => by
    have hparts := hallowed
    rw [Flow.occurrences, Policy.allows_append] at hparts
    simp only [Flow.number, startingAt_bind, startingAt_pure,
      Code.number_eq_self rfl condition first hparts.1, numberSteps_eq_self rfl body first hparts.2]
    exact Flow.run_steady hm c site (.while condition body) hallowed first
  | .loop body, first, hallowed => by
    simp only [Flow.number, startingAt_bind, startingAt_pure,
      numberSteps_eq_self rfl body first hallowed]
    exact Flow.run_steady hm c site (.loop body) hallowed first
  | .forIn value key items body, first, hallowed => by
    rw [Flow.occurrences, Policy.allows_append] at hallowed
    simp only [Flow.number, startingAt_bind, startingAt_pure,
      numberSteps_eq_self rfl body _ hallowed.2]
    refine (Code.number_advances c site items first hallowed.1).bind fun container => ?_
    refine .steady fun first => ?_
    have hK := Coupling.unfilled_stable old first
    refine hK.askingThen (·.items container) (fun _ _ hst => (hK.alike hst).items_eq container)
      (fun s => s.items_plain container) fun items => ?_
    exact Coupling.Stable.forItems (hK.bindItem trivial value key)
      (runSteps_steady hm c .loopBody .null body hallowed.2 first) items .null
  | .forOf counter start stop step body, first, hallowed => by
    rw [Flow.occurrences, Policy.allows_append, Policy.allows_append, Policy.allows_append]
      at hallowed
    obtain ⟨⟨⟨hstart, hstop⟩, hstep⟩, hbody⟩ := hallowed
    simp only [Flow.number, startingAt_bind, startingAt_pure, numberSteps_eq_self rfl body _ hbody]
    refine (Code.number_advances c site start first hstart).bind fun start => ?_
    refine (Code.number_advances c site stop _ hstop).bind fun stop => ?_
    refine (Code.number_advances c site step _ hstep).bind fun step => ?_
    refine .steady fun first => ?_
    have hK := Coupling.unfilled_stable old first
    rw [(hm first).fuel]
    refine (hK.ofExcept (Range.ofValues_plain start stop (some step))).bind fun range => ?_
    exact hK.forRange (hK.bindCounter trivial counter)
      (runSteps_steady hm c .loopBody .null body hbody first) m'.fuel range .null
  | .return value, first, hallowed =>
    (Code.number_advances c site value first hallowed).bind fun value => .pure _
  | .continue, _, _ => .pure _
  | .break, _, _ => .pure _

theorem runSteps_advances (c : Context) (site : Site) (last : Value) :
    ∀ (steps : List Step) (first : Nat), Policy.listsOnce.Allows (stepOccurrences site steps) →
      Advances old first ((numberSteps steps).startingAt first).2
        (runSteps m c last ((numberSteps steps).startingAt first).1) (runSteps m' c last steps)
  | [], _, _ => .pure _
  | .value code :: steps, first, hallowed => by
    rw [stepOccurrences, Policy.allows_append] at hallowed
    exact (Code.number_advances c site code first hallowed.1).bind fun value =>
      runSteps_advances c site value steps _ hallowed.2
  | .flow flow :: steps, first, hallowed => by
    rw [stepOccurrences, Policy.allows_append] at hallowed
    refine (Flow.number_advances c site flow first hallowed.1).bind fun ending => ?_
    have hrest := runSteps_advances c site ending.1 steps (flow.number.startingAt first).2
      hallowed.2
    by_cases hnone : ending.2 = .none
    · simp only [hnone, ↓reduceIte]
      exact hrest
    · simp only [hnone, ↓reduceIte]
      exact (Advances.pure _).widen (Nat.le_refl _) hrest.le

end

end Numbered

/-! ### Whole runs -/

theorem Coupling.unfilled_complete (old first : Nat) (ending : Ending) :
    Coupled (unfilled old first) (unfilled old first) (complete ending.2 ending.1)
      (complete ending.2 ending.1) :=
  complete_coupled (fun _ => trivial)
    (fun signal _ _ h => Store.Unfilled.record h (.escaped signal)) ending.2 ending.1

theorem Coupling.unfilled_runs (old first : Nat) :
    (unfilled old first).Runs (Policy.cellsBelow old).Shared := by
  rintro l _ ⟨rfl, hallowed⟩ call call' hcall fuel c -
  have hrun := Body.run_shared (unfilled_stable old first) hcall fuel c trivial .function l hallowed
  exact hrun.bind (unfilled_complete old first)

/-- New cells are empty, and nothing else is new. -/
theorem Store.growCells_unfilled {s : Store} (hs : s.Follows (.cellsBelow s.cells.size))
    (count : Nat) : (s.growCells count).Unfilled s.cells.size s.cells.size s where
  lists := rfl
  tables := rfl
  functions := rfl
  natives := rfl
  frames := rfl
  output := rfl
  events := rfl
  follows := hs
  old_le := Nat.le_refl _
  cells index hindex := Array.getElem?_append_left hindex
  empty cell hcell := by
    rw [cell?_growCells, cell?, Array.getElem?_eq_none hcell]
    rfl

namespace Host

variable {host : Host}

/-- A host that takes no notice of the lists that literals keep. -/
def IgnoresCells (host : Host) : Prop :=
  ∀ old first, host.Respects (.unfilled old first)

theorem standard_ignoresCells : standard.IgnoresCells := fun old first =>
  (Coupling.unfilled_stable old first).standard_respects fun _ _ h line =>
    { h with output := congrArg (·.push line) h.output }

/-- A program without list literals in functions, loop bodies and loop conditions runs in the same
way whether or not its literals keep their lists: with the same value or fault, the same calls of
host functions and printed lines, the same variables, and the same lists and tables. The functions
that are there before may have literals that keep lists of their own. -/
theorem keeping_lists_changes_nothing (hhost : host.IgnoresCells) {block : Block}
    (hblock : Policy.listsOnce.Allows (blockOccurrences .top block)) (c : Context) {s : Store}
    (hs : s.Follows (.cellsBelow s.cells.size)) (fuel : Nat) :
    let keeping := s.prepare ⟨.compiler, true⟩ block
    let plain := s.prepare ⟨.compiler, false⟩ block
    let outcome : Outcome Value := host.run fuel keeping.1 c keeping.2
    let outcome' : Outcome Value := host.run fuel plain.1 c plain.2
    outcome.result = outcome'.result ∧ outcome.store.SameData outcome'.store := by
  intro keeping plain outcome outcome'
  have hm : ∀ first, Machine.Paired (.unfilled s.cells.size first) (host.machine fuel)
      (host.machine fuel) := fun first =>
    ⟨(Coupling.unfilled_stable _ first).call (hhost _ first) (Coupling.unfilled_runs _ first) fuel,
      rfl⟩
  have hsteps : Policy.listsOnce.Allows (stepOccurrences .top (compileBlock block)) := by
    rwa [occurrences_compileBlock]
  have hrun := (runSteps_advances hm c .top .null (compileBlock block) s.cells.size hsteps).coupled
  have hevaluate := hrun.bind (Coupling.unfilled_complete _ _)
  obtain ⟨hresult, _, hstore⟩ :=
    Coupling.agree_iff.mp (hevaluate keeping.2 s (Store.growCells_unfilled hs _))
  exact ⟨hresult, hstore.toSameData⟩

/-- Literals inside each other, in a branch and as the items of a loop. -/
def listsProgram : Block :=
  [.assign (.name "pair") (.set (.list [.number 1, .list [.number 2]])),
    .control (.cond [(.name "pair", [.assign (.name "more") (.set (.list [.name "pair"]))])]
      (some [.list []])),
    .control (.forIn "item" none (.list [.number 3, .name "more"])
      [.access (.name "print") [.call [.name "item"]]])]

theorem keeping_lists_changes_nothing_listsProgram :
    let context := Store.empty.newContextWith Native.all
    let keeping := context.2.prepare ⟨.compiler, true⟩ listsProgram
    let plain := context.2.prepare ⟨.compiler, false⟩ listsProgram
    let outcome : Outcome Value := standard.run 9 keeping.1 context.1 keeping.2
    let outcome' : Outcome Value := standard.run 9 plain.1 context.1 plain.2
    standard.IgnoresCells ∧ Policy.listsOnce.Allows (blockOccurrences .top listsProgram) ∧
      context.2.Follows (.cellsBelow context.2.cells.size) ∧
      outcome.store.output.size = 2 ∧ outcome.store.cells.size = 5 ∧
      outcome.result = outcome'.result ∧ outcome.store.SameData outcome'.store := by
  have hblock : Policy.listsOnce.Allows (blockOccurrences .top listsProgram) := by decide +kernel
  have hcontext : (Store.empty.newContextWith Native.all).2.Follows
      (.cellsBelow (Store.empty.newContextWith Native.all).2.cells.size) :=
    .of_no_functions rfl
  refine ⟨standard_ignoresCells, hblock, hcontext, ?_, ?_,
    keeping_lists_changes_nothing standard_ignoresCells hblock _ hcontext 9⟩
  · decide +kernel
  · decide +kernel

end Host

end TableScript
