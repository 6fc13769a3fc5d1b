import TableScript.Proofs.Numbering
import TableScript.Proofs.Onward

/-!
List literals that keep their lists. What a cell holds can be read off the history of its literal:
it is the list made by the evaluation that was completed first. An evaluation that starts later finds
the cell full and takes what is there; one that started before yields the same list in place of its
own. As a store only goes on, this is so for the rest of the run and for all runs after it.
-/

namespace TableScript

open Eval

/-! ### Histories -/

/-- The list that the evaluation of a literal yields, if that is what an event is about. -/
def Event.Yields (event : Event) (cell : CellRef) (list : ListRef) : Prop :=
  event = .reused cell list ∨ ∃ made, event = .completed cell made list

/-- What a cell holds after a history, the latest event first: the list that was completed first. -/
def keptList (cell : CellRef) : List Event → Option ListRef
  | [] => none
  | .called _ _ :: earlier => keptList cell earlier
  | .escaped _ :: earlier => keptList cell earlier
  | .published _ _ :: earlier => keptList cell earlier
  | .reused _ _ :: earlier => keptList cell earlier
  | .entered _ :: earlier => keptList cell earlier
  | .completed other made _ :: earlier =>
    (keptList cell earlier).or (if other = cell then some made else none)

/-- A history in which each literal looks into its cell before it evaluates its elements, and yields
what the cell holds when it is done. -/
inductive Orderly : List Event → Prop where
  | nil : Orderly []
  | called {ref args earlier} : Orderly earlier → Orderly (.called ref args :: earlier)
  | escaped {signal earlier} : Orderly earlier → Orderly (.escaped signal :: earlier)
  | published {c name earlier} : Orderly earlier → Orderly (.published c name :: earlier)
  | reused {cell list earlier} : Orderly earlier → keptList cell earlier = some list →
      Orderly (.reused cell list :: earlier)
  | entered {cell earlier} : Orderly earlier → keptList cell earlier = none →
      Orderly (.entered cell :: earlier)
  | completed {cell made earlier} : Orderly earlier →
      Orderly (.completed cell made ((keptList cell earlier).getD made) :: earlier)

section Histories

variable {cell : CellRef} {list : ListRef} {event : Event} {later earlier events : List Event}

/-- What a cell holds, it goes on holding. -/
theorem keptList_cons_of_eq_some (hkept : keptList cell earlier = some list) (event : Event) :
    keptList cell (event :: earlier) = some list := by
  cases event <;> simp [keptList, hkept]

theorem keptList_append_of_eq_some (hkept : keptList cell earlier = some list)
    (later : List Event) : keptList cell (later ++ earlier) = some list := by
  induction later with
  | nil => exact hkept
  | cons event later ih => exact keptList_cons_of_eq_some ih event

theorem keptList_eq_none_iff :
    keptList cell events = none ↔ ∀ made yielded, .completed cell made yielded ∉ events := by
  induction events with
  | nil => simp [keptList]
  | cons event earlier ih =>
      cases event with
      | completed other made yielded =>
          by_cases hother : other = cell
          · subst hother
            refine iff_of_false ?_ fun hnone => hnone made yielded List.mem_cons_self
            simp [keptList]
          · simp [keptList, ih, hother, Ne.symm hother]
      | _ => simp [keptList, ih]

/-- Events that are about no literal fill no cell. -/
theorem keptList_append_of_spared (hspared : ∀ event ∈ later, event.cell? = none) :
    keptList cell (later ++ earlier) = keptList cell earlier := by
  induction later with
  | nil => rfl
  | cons event later ih =>
      rw [List.forall_mem_cons] at hspared
      rw [List.cons_append, ← ih hspared.2]
      cases event with
      | completed other made yielded => cases hspared.1
      | _ => rfl

namespace Orderly

theorem append_of_spared (horderly : Orderly earlier)
    (hspared : ∀ event ∈ later, event.cell? = none) : Orderly (later ++ earlier) := by
  induction later with
  | nil => exact horderly
  | cons event later ih =>
      rw [List.forall_mem_cons] at hspared
      cases event with
      | called ref args => exact .called (ih hspared.2)
      | escaped signal => exact .escaped (ih hspared.2)
      | published c name => exact .published (ih hspared.2)
      | _ => cases hspared.1

theorem tail (horderly : Orderly (event :: earlier)) : Orderly earlier := by
  cases horderly <;> assumption

theorem of_append (horderly : Orderly (later ++ earlier)) : Orderly earlier := by
  induction later with
  | nil => exact horderly
  | cons event later ih => exact ih horderly.tail

/-- What an evaluation yields is in the cell when it is done. -/
theorem keptList_of_yields (horderly : Orderly (event :: earlier))
    (hyields : event.Yields cell list) : keptList cell (event :: earlier) = some list := by
  rcases hyields with rfl | ⟨made, rfl⟩
  · cases horderly with
    | reused _ hkept => exact hkept
  · cases horderly with
    | completed _ => cases hkept : keptList cell earlier <;> simp [keptList, hkept]

theorem keptList_of_mem (horderly : Orderly events) (hmem : event ∈ events)
    (hyields : event.Yields cell list) : keptList cell events = some list := by
  obtain ⟨later, earlier, rfl⟩ := List.append_of_mem hmem
  exact keptList_append_of_eq_some (horderly.of_append.keptList_of_yields hyields) later

/-- Once a cell holds a list, its literal evaluates no elements any more. -/
theorem entered_not_mem (horderly : Orderly (later ++ earlier))
    (hkept : keptList cell earlier = some list) : .entered cell ∉ later := by
  induction later with
  | nil => exact List.not_mem_nil
  | cons event later ih =>
      intro hmem
      rcases List.mem_cons.mp hmem with rfl | hmem
      · cases horderly with
        | entered _ hempty =>
            cases (keptList_append_of_eq_some hkept later).symm.trans hempty
      · exact ih horderly.tail hmem

/-- The list in a cell was made by the first evaluation that was completed. -/
theorem keptList_eq_some_iff (horderly : Orderly events) :
    keptList cell events = some list ↔
      ∃ later earlier, events = later ++ .completed cell list list :: earlier ∧
        ∀ made yielded, .completed cell made yielded ∉ earlier := by
  constructor
  · intro hkept
    induction horderly with
    | nil => cases hkept
    | @completed other made earlier _ ih =>
        cases hearlier : keptList cell earlier with
        | some first =>
            obtain rfl : first = list := by simpa [keptList, hearlier] using hkept
            obtain ⟨later, earlier', rfl, hfirst⟩ := ih hearlier
            exact ⟨_ :: later, earlier', rfl, hfirst⟩
        | none =>
            obtain ⟨rfl, rfl⟩ : other = cell ∧ made = list := by
              simpa [keptList, hearlier] using hkept
            rw [hearlier]
            exact ⟨[], earlier, rfl, keptList_eq_none_iff.mp hearlier⟩
    | _ =>
        rename_i ih
        obtain ⟨later, earlier, rfl, hfirst⟩ := ih hkept
        exact ⟨_ :: later, earlier, rfl, hfirst⟩
  · rintro ⟨later, earlier, rfl, hfirst⟩
    apply keptList_append_of_eq_some
    simp [keptList, keptList_eq_none_iff.mpr hfirst]

end Orderly

end Histories

/-! ### Stores -/

/-- A store whose cells hold what its history says. -/
structure Store.Recorded (bound : Nat) (s : Store) : Prop where
  follows : s.Follows (.cellsBelow bound)
  bound_le : bound ≤ s.cells.size
  orderly : Orderly s.events
  cells : ∀ cell, s.cell? cell = keptList cell s.events

namespace Store

namespace Recorded

variable {bound : Nat} {s t : Store} (hs : s.Recorded bound)

include hs

theorem sparesCells (hst : s.SparesCells t) : t.Recorded bound := by
  obtain ⟨during, hevents, hspared⟩ := hst.events
  refine { follows := hst.functions bound hs.follows, bound_le := ?_, orderly := ?_, cells := ?_ }
  · exact Nat.le_trans hs.bound_le hst.size
  · rw [hevents]
    exact hs.orderly.append_of_spared hspared
  · intro cell
    rw [hevents, keptList_append_of_spared hspared, hst.cells]
    exact hs.cells cell

/-- New cells hold nothing, as nothing has happened to their literals. -/
theorem growCells (count : Nat) :
    (s.growCells count).Recorded (s.growCells count).cells.size where
  follows ref f hf := (hs.follows ref f hf).mono fun site feature hfeature => by
    have hle : bound ≤ (s.growCells count).cells.size :=
      Nat.le_trans hs.bound_le (by simp [Store.growCells])
    cases feature with
    | list cell =>
        cases cell with
        | none => rfl
        | some cell => exact decide_eq_true (Nat.lt_of_lt_of_le (of_decide_eq_true hfeature) hle)
    | _ => rfl
  bound_le := Nat.le_refl _
  orderly := hs.orderly
  cells cell := (s.cell?_growCells count cell).trans (hs.cells cell)

theorem newFunction {f : Closure}
    (hf : (Policy.cellsBelow bound).Allows (f.body.occurrences .function)) :
    (s.newFunction f).2.Recorded bound :=
  { hs with follows := hs.follows.newFunction hf }

theorem reused {cell : CellRef} {list : ListRef} (hcell : s.cell? cell = some list) :
    (s.record (.reused cell list)).Recorded bound :=
  { hs with orderly := .reused hs.orderly (hs.cells cell ▸ hcell) }

theorem entered {cell : CellRef} (hcell : s.cell? cell = none) :
    (s.record (.entered cell)).Recorded bound :=
  { hs with orderly := .entered hs.orderly (hs.cells cell ▸ hcell) }

/-- Putting a list into a cell and completing the evaluation is one step of the history: in between,
the cell is ahead of it. -/
theorem completed {cell : CellRef} (hcell : cell.index < bound) (made : ListRef) :
    let filled := s.fillCell cell made
    (filled.record (.completed cell made ((filled.cell? cell).getD made))).Recorded bound := by
  have hfilled := s.cell?_fillCell (Nat.lt_of_lt_of_le hcell hs.bound_le) made
  have hyielded : ((s.fillCell cell made).cell? cell).getD made
      = (keptList cell s.events).getD made := by
    rw [hfilled, hs.cells]
    cases keptList cell s.events <;> simp
  intro filled
  refine { follows := hs.follows, bound_le := ?_, orderly := ?_, cells := fun other => ?_ }
  · exact Nat.le_trans hs.bound_le (by simp [filled, record, fillCell])
  · rw [hyielded]
    exact .completed hs.orderly
  · exact (hfilled other).trans (by rw [hs.cells]; rfl)

end Recorded

end Store

/-! ### Evaluation -/

/-- What the evaluation of a literal with a cell does to the store, besides what its elements do. -/
theorem Eval.keepList_apply (cell : CellRef) (elements : Eval (List Value)) (s : Store) :
    keepList cell elements s = match s.cell? cell with
      | some kept => .ok (.list kept) (s.record (.reused cell kept))
      | none => match elements (s.record (.entered cell)) with
        | .error halt t => .error halt t
        | .ok values t =>
          let made := (t.newList values.toArray).1
          let filled := (t.newList values.toArray).2.fillCell cell made
          let kept := (filled.cell? cell).getD made
          .ok (.list kept) (filled.record (.completed cell made kept)) := by
  rw [keepList, get_bind_apply]
  cases s.cell? cell with
  | some kept => rfl
  | none =>
      change (elements >>= _) (s.record (.entered cell)) = _
      rw [bind_apply]
      cases elements (s.record (.entered cell)) <;> rfl

/-- The stores in which cells hold what the history says. -/
def Coupling.history (bound : Nat) : Coupling :=
  diagonal (Store.Recorded bound) fun _ => True

namespace Coupling

variable (bound : Nat)

theorem history_invariant : Store.Invariant (.cellsBelow bound) (Store.Recorded bound) where
  follows hs := hs.follows
  sameScripts hs hst := hs.sparesCells hst.sparesCells
  newFunction hs _ hf := hs.newFunction hf
  called hs _ _ := hs.sparesCells (.record _ rfl)
  published hs _ _ := hs.sparesCells (.record _ rfl)

theorem history_keepList {cell : CellRef} (hcell : cell.index < bound) {x y : Eval (List Value)}
    (hxy : Coupled (history bound) (history bound) x y) :
    Coupled (history bound) (history bound) (keepList cell x) (keepList cell y) := by
  rintro s _ ⟨rfl, hs⟩
  rw [keepList_apply, keepList_apply]
  cases hkept : s.cell? cell with
  | some kept => exact ⟨rfl, rfl, hs.reused hkept⟩
  | none =>
      -- The elements may evaluate this very literal; all that counts is that they keep the record.
      have hentered := hs.entered hkept
      rcases (hxy _ _ ⟨rfl, hentered⟩).cases with
        ⟨values, t, t', hx, hy, rfl, ht⟩ | ⟨halt, t, t', hx, hy, _, hrel⟩
      · have hnew : (t.newList values.toArray).2.Recorded bound :=
          ht.sparesCells (t.newList_sameScripts values.toArray).sparesCells
        rw [hx, hy]
        exact ⟨rfl, rfl, hnew.completed hcell _⟩
      · rw [hx, hy]
        exact ⟨rfl, trivial, hrel⟩

theorem history_stable :
    (history bound).Stable (.cellsBelow bound) (Policy.cellsBelow bound).Shared := by
  refine diagonal_stable (history_invariant bound) ?_ trivial fun _ => trivial
  intro site cell hcell x y hxy
  exact history_keepList bound (of_decide_eq_true hcell) hxy

end Coupling

/-! ### Runs of one program -/

theorem Policy.anything_numbered (bound : Nat) :
    Policy.anything.Numbered (.cellsBelow bound) bound where
  list _ _ _ hindex _ := decide_eq_true hindex
  continues _ _ := rfl
  breaks _ _ := rfl

/-- A run of a program: in what context, which may be a new one, and with how much fuel. -/
structure Turn where
  enter : Store → Context × Store
  fuel : Nat

/-- Entering the context spares the cells. -/
def Turn.Neutral (turn : Turn) : Prop :=
  ∀ s : Store, s.SparesCells (turn.enter s).2

namespace Host

/-- Runs one program again and again, whether or not some runs fail. -/
def runTurns (host : Host) (program : Prepared) : List Turn → Store → Store
  | [], s => s
  | turn :: turns, s =>
    let (c, s) := turn.enter s
    let outcome : Outcome Value := host.run turn.fuel program c s
    runTurns host program turns outcome.store

variable {host : Host}

theorem runTurns_append (program : Prepared) (earlier later : List Turn) (s : Store) :
    host.runTurns program (earlier ++ later) s
      = host.runTurns program later (host.runTurns program earlier s) := by
  induction earlier generalizing s with
  | nil => rfl
  | cons turn earlier ih => exact ih _

theorem runTurns_recorded (hhost : host.KeepsHistory) {bound : Nat} {program : Prepared}
    (hprogram : (Policy.cellsBelow bound).Allows (program.occurrences .top)) (turns : List Turn)
    (hturns : ∀ turn ∈ turns, turn.Neutral) {s : Store} (hs : s.Recorded bound) :
    (host.runTurns program turns s).Recorded bound := by
  have hstable := Coupling.history_stable bound
  have hescaped : ∀ {s : Store}, s.Recorded bound → ∀ signal,
      (s.record (.escaped signal)).Recorded bound := fun hs _ => hs.sparesCells (.record _ rfl)
  have hcall := hstable.call_of_keeps (hhost.keeps Store.Recorded.sparesCells)
    (Coupling.diagonal_runs hstable hescaped)
  induction turns generalizing s with
  | nil => exact hs
  | cons turn turns ih =>
      rw [List.forall_mem_cons] at hturns
      have hentered := hs.sparesCells (hturns.1 s)
      have hrun := Coupling.diagonal_evaluate hstable hescaped (hcall turn.fuel) turn.fuel
        (turn.enter s).1 .top program hprogram
      exact ih hturns.2 (Coupling.diagonal_kept hrun hentered).2

/-- From run to run a store goes on as it does in each of them. -/
theorem runTurns_precedes (hhost : host.KeepsHistory) (program : Prepared) (turns : List Turn)
    (hturns : ∀ turn ∈ turns, turn.Neutral) (s : Store) :
    s.Precedes (host.runTurns program turns s) := by
  induction turns generalizing s with
  | nil => exact .refl s
  | cons turn turns ih =>
      rw [List.forall_mem_cons] at hturns
      have hentered := (hturns.1 s).precedes
      have hrun := hhost.goesOn.run turn.fuel program (turn.enter s).1 (turn.enter s).2
      exact (hentered.trans hrun).trans (ih hturns.2 _)

end Host

/-- What the history of a store shows of the evaluations of one literal: those that were completed
yielded one list, after the first of them no evaluation got to its elements, and the cell holds the
list that the first one made. -/
structure Store.KeepsFirst (s : Store) (cell : CellRef) : Prop where
  unique : ∀ {event event' list list'}, event ∈ s.events → event' ∈ s.events →
    event.Yields cell list → event'.Yields cell list' → list = list'
  unentered : ∀ {later event earlier list}, s.events = later ++ event :: earlier →
    event.Yields cell list → .entered cell ∉ later
  first : ∀ {list}, s.cell? cell = some list ↔
    ∃ later earlier, s.events = later ++ .completed cell list list :: earlier ∧
      ∀ made yielded, .completed cell made yielded ∉ earlier

theorem Store.Recorded.keepsFirst {bound : Nat} {s : Store} (hs : s.Recorded bound)
    (cell : CellRef) : s.KeepsFirst cell where
  unique hevent hevent' hyields hyields' := by
    have hkept := hs.orderly.keptList_of_mem hevent hyields
    have hkept' := hs.orderly.keptList_of_mem hevent' hyields'
    exact Option.some.inj (hkept.symm.trans hkept')
  unentered {later event earlier list} hevents hyields := by
    have horderly := hs.orderly
    rw [hevents] at horderly
    exact horderly.entered_not_mem (horderly.of_append.keptList_of_yields hyields)
  first := by
    intro list
    rw [hs.cells]
    exact hs.orderly.keptList_eq_some_iff

/-- An evaluation that is completed records the list it yields. -/
theorem Eval.keepList_ok {cell : CellRef} {elements : Eval (List Value)} {s t : Store}
    {value : Value} (hok : keepList cell elements s = .ok value t) :
    ∃ list event, value = .list list ∧ t.events.head? = some event ∧ event.Yields cell list := by
  rw [keepList_apply] at hok
  split at hok
  · cases hok
    exact ⟨_, _, rfl, rfl, .inl rfl⟩
  · split at hok
    · cases hok
    · cases hok
      exact ⟨_, _, rfl, rfl, .inr ⟨_, rfl⟩⟩

/-- An evaluation that fails leaves the store as its elements left it. -/
theorem Eval.keepList_error {cell : CellRef} {elements : Eval (List Value)} {s t : Store}
    {halt : Halt} (herror : keepList cell elements s = .error halt t) :
    elements (s.record (.entered cell)) = .error halt t := by
  rw [keepList_apply] at herror
  split at herror
  · cases herror
  · split at herror
    · rename_i helements
      cases herror
      exact helements
    · cases herror

theorem Eval.keepList_of_filled {cell : CellRef} {list : ListRef} {s : Store}
    (hcell : s.cell? cell = some list) (elements : Eval (List Value)) :
    keepList cell elements s = .ok (.list list) (s.record (.reused cell list)) := by
  rw [keepList_apply, hcell]

/-- An evaluation whose cell is filled while its elements are evaluated yields what is in the cell. -/
theorem Eval.keepList_of_filled_meanwhile {cell : CellRef} {list : ListRef}
    {elements : Eval (List Value)} {values : List Value} {s t : Store}
    (hempty : s.cell? cell = none) (helements : elements (s.record (.entered cell)) = .ok values t)
    (hcell : t.cell? cell = some list) :
    ∃ after, keepList cell elements s = .ok (.list list) after := by
  have hfilled : ((t.newList values.toArray).2.fillCell cell
      (t.newList values.toArray).1).cell? cell = some list :=
    (Store.Precedes.fillCell _ cell _).cells hcell
  rw [keepList_apply, hempty, helements]
  dsimp only
  rw [hfilled]
  exact ⟨_, rfl⟩

/-- What an evaluation yields is in the cell when it is done, if there is such a cell. -/
theorem Eval.keepList_cell? {cell : CellRef} {elements : Eval (List Value)} {s t : Store}
    {list : ListRef} (hcell : cell.index < s.cells.size) (hon : elements.Onward)
    (hok : keepList cell elements s = .ok (.list list) t) : t.cell? cell = some list := by
  rw [keepList_apply] at hok
  split at hok
  · rename_i kept hkept
    cases hok
    exact hkept
  · split at hok
    · cases hok
    · rename_i values t helements
      cases hok
      have hsize : cell.index < t.cells.size := by
        have hgrown := (hon (s.record (.entered cell))).size
        rw [helements] at hgrown
        exact Nat.lt_of_lt_of_le hcell hgrown
      have hfilled := (t.newList values.toArray).2.cell?_fillCell hsize
        (t.newList values.toArray).1 cell
      rw [if_pos rfl] at hfilled
      change Store.cell? (Store.fillCell _ _ _) cell = some (Option.getD _ _)
      rw [hfilled]
      cases Store.cell? _ cell <;> rfl

namespace Host

variable {host : Host}

/-- A literal with a cell is evaluated, in some context, from one store to another, and yields a
list. -/
def Completes (host : Host) (cell : CellRef) (before : Store) (list : ListRef) (after : Store) :
    Prop :=
  ∃ fuel c elements,
    (Code.list (some cell) elements).run (host.machine fuel) c before = .ok (.list list) after

/-- What comes of the evaluations of a literal from some time on. -/
structure KeepsList (host : Host) (since : Store) (cell : CellRef) : Prop where
  /-- An evaluation that is completed has put its list on record and leaves it in the cell. -/
  recorded : ∀ {before list after}, since.Precedes before → host.Completes cell before list after →
    after.cell? cell = some list ∧
      ∃ event, after.events.head? = some event ∧ event.Yields cell list
  /-- Two evaluations that are completed, the one before the other, yield the same list. -/
  same : ∀ {before list after before' list' after'}, since.Precedes before →
    since.Precedes before' → host.Completes cell before list after →
    host.Completes cell before' list' after' → after.Precedes after' → list' = list
  /-- So does one whose elements have brought about the other evaluation. -/
  outer : ∀ {before list after}, since.Precedes before → host.Completes cell before list after →
    ∀ {m c elements earlier values now}, earlier.cell? cell = none →
      runAll m c elements (earlier.record (.entered cell)) = .ok values now →
      after.Precedes now →
      ∃ later, (Code.list (some cell) elements).run m c earlier = .ok (.list list) later
  /-- An evaluation that starts when another one is completed does not get to its elements. -/
  reused : ∀ {before list after}, since.Precedes before → host.Completes cell before list after →
    ∀ {now}, after.Precedes now → ∀ m c elements,
      (Code.list (some cell) elements).run m c now
        = .ok (.list list) (now.record (.reused cell list))
  /-- An evaluation that fails leaves the store as its elements have left it. -/
  failed : ∀ {m c elements before halt after},
    (Code.list (some cell) elements).run m c before = .error halt after →
      runAll m c elements (before.record (.entered cell)) = .error halt after
  /-- If it does not fail, it yields a list. -/
  yields : ∀ {m c elements before value after},
    (Code.list (some cell) elements).run m c before = .ok value after →
      ∃ list, value = .list list

theorem KeepsHistory.keepsList (hhost : host.KeepsHistory) {since : Store} {cell : CellRef}
    (hcell : cell.index < since.cells.size) : host.KeepsList since cell := by
  have hkept : ∀ {before list after}, since.Precedes before →
      host.Completes cell before list after → after.cell? cell = some list := by
    rintro before list after hbefore ⟨fuel, c, elements, hok⟩
    exact keepList_cell? (Nat.lt_of_lt_of_le hcell hbefore.size)
      (hhost.runAll_onward fuel c elements) hok
  constructor
  case recorded =>
    intro before list after hbefore hcompletes
    refine ⟨hkept hbefore hcompletes, ?_⟩
    obtain ⟨fuel, c, elements, hok⟩ := hcompletes
    obtain ⟨_, event, ⟨⟩, hhead, hyields⟩ := keepList_ok hok
    exact ⟨event, hhead, hyields⟩
  case same =>
    intro before list after before' list' after' hbefore hbefore' hcompletes hcompletes' hafter
    have hfirst := hafter.cells (hkept hbefore hcompletes)
    exact Option.some.inj ((hkept hbefore' hcompletes').symm.trans hfirst)
  case outer =>
    intro before list after hbefore hcompletes m c elements earlier values now hempty helements hnow
    exact keepList_of_filled_meanwhile hempty helements (hnow.cells (hkept hbefore hcompletes))
  case reused =>
    intro before list after hbefore hcompletes now hnow m c elements
    exact keepList_of_filled (hnow.cells (hkept hbefore hcompletes)) (runAll m c elements)
  case failed => exact fun herror => keepList_error herror
  case yields =>
    intro m c elements before value after hok
    obtain ⟨list, _, hvalue, _⟩ := keepList_ok hok
    exact ⟨list, hvalue⟩

/-- When a program is compiled so that its list literals keep their lists, each literal has a cell
of its own. However often the program runs, and in whatever contexts, nothing that is evaluated takes
a list out of its cell or an event out of the history. So all evaluations of a literal that are
completed yield the list that the first of them made, also if one is part of another; later ones
leave their elements alone; and an evaluation that fails changes the cell only in so far as its
elements do. -/
theorem literals_keep_first_list (hhost : host.KeepsHistory) (block : Block) {s : Store}
    (hs : s.Recorded s.cells.size) (turns : List Turn) (hturns : ∀ turn ∈ turns, turn.Neutral) :
    let start := s.prepare ⟨.compiler, true⟩ block
    let literals := (start.1.occurrences .top).filterMap Occurrence.literal?
    let final := host.runTurns start.1 turns start.2
    literals = (List.range' s.cells.size (literalCount (blockOccurrences .top block))).map
        (fun index => some ⟨index⟩) ∧
      host.GoesOn ∧
      (∀ earlier turn later, turns = earlier ++ turn :: later →
        let entered := turn.enter (host.runTurns start.1 earlier start.2)
        start.2.Precedes entered.2 ∧
          (Outcome.store (host.run turn.fuel start.1 entered.1 entered.2)).Precedes final) ∧
      (∀ cell, some cell ∈ literals → host.KeepsList start.2 cell) ∧
      ∀ cell, final.KeepsFirst cell := by
  intro start literals final
  have hstart : start.2.Recorded start.2.cells.size := hs.growCells _
  have hprogram : (Policy.cellsBelow start.2.cells.size).Allows (start.1.occurrences .top) :=
    s.addCells_allowed (Policy.anything_numbered _) (Policy.anything_allows _)
  refine ⟨?_, hhost.goesOn, ?_, ?_, ?_⟩
  · change (stepOccurrences .top (s.addCells (compileBlock block)).1).filterMap _ = _
    rw [s.addCells_occurrences, literals_renumber, occurrences_compileBlock]
  · rintro earlier turn later rfl
    rw [List.forall_mem_append, List.forall_mem_cons] at hturns
    obtain ⟨hearlier, hturn, hlater⟩ := hturns
    have hbefore := runTurns_precedes hhost start.1 earlier hearlier start.2
    refine ⟨hbefore.trans (hturn _).precedes, ?_⟩
    have hrest : final = _ := runTurns_append start.1 earlier (turn :: later) start.2
    rw [hrest]
    exact runTurns_precedes hhost start.1 later hlater _
  · intro cell hliteral
    obtain ⟨⟨site, feature⟩, hmem, hcell⟩ := List.mem_filterMap.mp hliteral
    apply hhost.keepsList
    have hallowed := hprogram _ hmem
    cases feature with
    | list kept =>
        obtain rfl : kept = some cell := Option.some.inj hcell
        exact of_decide_eq_true hallowed
    | _ => cases hcell
  · exact (runTurns_recorded hhost hprogram turns hturns hstart).keepsFirst

/-- A function whose list literal is evaluated again by its own element. -/
def nestProgram : Block :=
  [.function (some "nest") ["depth"]
      [.control (.cond [(.compare (.name "depth") [(.greater, .number 0)],
        [.control (.return (some (.list [.access (.name "nest")
          [.call [.add (.name "depth") [(.sub, .number 1)]]]])))])] none)],
    .access (.name "nest") [.call [.number 2]]]

/-- Two runs, each in a context of its own. -/
def twoContexts : List Turn :=
  [⟨(·.newContextWith Native.all), 9⟩, ⟨(·.newContextWith Native.all), 9⟩]

/-- The inner evaluation is completed first; the outer one makes another list but yields the inner
one, and the second run finds the cell full. -/
theorem literals_keep_first_list_nestProgram :
    let start := Store.empty.prepare ⟨.compiler, true⟩ nestProgram
    let final := standard.runTurns start.1 twoContexts start.2
    standard.KeepsHistory ∧ Store.empty.Recorded Store.empty.cells.size ∧
      (∀ turn ∈ twoContexts, turn.Neutral) ∧
      final.events = [.reused ⟨0⟩ ⟨0⟩, .completed ⟨0⟩ ⟨1⟩ ⟨0⟩, .completed ⟨0⟩ ⟨0⟩ ⟨0⟩, .entered ⟨0⟩,
        .entered ⟨0⟩] ∧
      (∃ after, standard.Completes ⟨0⟩ start.2 ⟨0⟩ after) ∧ standard.KeepsList start.2 ⟨0⟩ ∧
      final.KeepsFirst ⟨0⟩ := by
  have hempty : Store.empty.Recorded Store.empty.cells.size :=
    { follows := .of_no_functions rfl
      bound_le := Nat.le_refl _
      orderly := .nil
      cells := fun cell => by simp [Store.cell?, Store.empty, keptList] }
  have hturn : Turn.Neutral ⟨(·.newContextWith Native.all), 9⟩ := fun s =>
    Store.SameScripts.sparesCells ⟨rfl, rfl, rfl, Nat.le_refl _⟩
  have hturns : ∀ turn ∈ twoContexts, turn.Neutral := by
    simp only [twoContexts, List.forall_mem_cons]
    exact ⟨hturn, hturn, fun _ h => absurd h List.not_mem_nil⟩
  obtain ⟨hliterals, -, -, hkeeps, hfirst⟩ :=
    literals_keep_first_list standard_keepsHistory nestProgram hempty twoContexts hturns
  refine ⟨standard_keepsHistory, hempty, hturns, ?_, ?_, hkeeps ⟨0⟩ ?_, hfirst ⟨0⟩⟩
  · decide +kernel
  · exact ⟨_, 0, ⟨⟨0⟩, []⟩, [], rfl⟩
  · rw [hliterals]
    decide

end Host

end TableScript
