import TableScript.Proofs.Invariant

/-!
Stores in the course of time. Whatever is evaluated, a store only goes on: what has happened stays on
record, a cell that holds a list keeps it, and no list is taken back. This takes a host whose
functions go on in the same way between the calls they make, so it is said step by step what they do.
-/

namespace TableScript

open Eval

/-! ### Cells -/

/-- The policy of code whose list literals have cells below a bound, or none. -/
def Policy.cellsBelow (bound : Nat) : Policy
  | _, .list (some cell) => cell.index < bound
  | _, _ => true

namespace Store

theorem cell?_fillCell (s : Store) {cell : CellRef} (hcell : cell.index < s.cells.size)
    (list : ListRef) (other : CellRef) :
    (s.fillCell cell list).cell? other
      = (s.cell? other).or (if cell = other then some list else none) := by
  obtain ⟨index⟩ := cell
  obtain ⟨index'⟩ := other
  simp only [cell?, fillCell, Array.getElem?_modify, CellRef.mk.injEq]
  by_cases hindex : index = index'
  · subst hindex
    simp [Array.getElem?_eq_getElem hcell]
  · simp [hindex]

/-- There is nothing to fill beyond the last cell. -/
theorem cell?_fillCell_of_le (s : Store) {cell : CellRef} (hcell : s.cells.size ≤ cell.index)
    (list : ListRef) (other : CellRef) : (s.fillCell cell list).cell? other = s.cell? other := by
  simp only [cell?, fillCell, Array.getElem?_modify]
  split
  · rename_i hindex
    simp [← hindex, hcell]
  · rfl

/-- An empty cell that is filled yields the new list, also if there is no such cell. -/
theorem getD_cell?_fillCell {s : Store} {cell : CellRef} (hempty : s.cell? cell = none)
    (list : ListRef) : ((s.fillCell cell list).cell? cell).getD list = list := by
  by_cases hcell : cell.index < s.cells.size
  · rw [s.cell?_fillCell hcell, hempty, if_pos rfl]
    rfl
  · rw [s.cell?_fillCell_of_le (Nat.le_of_not_lt hcell), hempty, Option.getD_none]

theorem cell?_growCells (s : Store) (count : Nat) (cell : CellRef) :
    (s.growCells count).cell? cell = s.cell? cell := by
  simp only [cell?, growCells, Array.getElem?_append]
  split
  · rfl
  · rename_i hsize
    rw [Array.getElem?_eq_none (Nat.le_of_not_lt hsize), Array.getElem?_replicate]
    split <;> rfl

end Store

/-! ### Earlier and later -/

/-- A store and one that it has become: what had happened is still on record, each cell that held a
list holds it, and all lists are still there. -/
structure Store.Precedes (s t : Store) : Prop where
  events : s.events <:+ t.events
  size : s.cells.size ≤ t.cells.size
  cells : ∀ {cell list}, s.cell? cell = some list → t.cell? cell = some list
  lists : s.lists.size ≤ t.lists.size

/-- A store and what it has become by a change that has nothing to do with literals: the cells hold
what they held, new ones hold nothing, what has happened concerns none of them, all lists are still
there, and no function has a literal with a cell beyond those that there were. -/
structure Store.SparesCells (s t : Store) : Prop where
  events : ∃ during, t.events = during ++ s.events ∧ ∀ event ∈ during, event.cell? = none
  size : s.cells.size ≤ t.cells.size
  cells : ∀ cell, t.cell? cell = s.cell? cell
  lists : s.lists.size ≤ t.lists.size
  functions : ∀ bound, s.Follows (.cellsBelow bound) → t.Follows (.cellsBelow bound)

namespace Store

variable {s t u : Store}

theorem SameScripts.sparesCells (h : s.SameScripts t) : s.SparesCells t where
  events := ⟨[], h.events, fun _ hevent => absurd hevent List.not_mem_nil⟩
  size := Nat.le_of_eq (congrArg Array.size h.cells.symm)
  cells cell := by rw [cell?, cell?, h.cells]
  lists := h.lists
  functions _ hs := hs.of_functions_eq h.functions

theorem SparesCells.record (s : Store) {event : Event} (hevent : event.cell? = none) :
    s.SparesCells (s.record event) where
  events := ⟨[event], rfl, by simpa using hevent⟩
  size := Nat.le_refl _
  cells _ := rfl
  lists := Nat.le_refl _
  functions _ := id

theorem SparesCells.precedes (h : s.SparesCells t) : s.Precedes t where
  events := by
    obtain ⟨during, hevents, -⟩ := h.events
    exact ⟨during, hevents.symm⟩
  size := h.size
  cells {cell list} hcell := (h.cells cell).trans hcell
  lists := h.lists

theorem SameScripts.precedes (h : s.SameScripts t) : s.Precedes t :=
  h.sparesCells.precedes

namespace Precedes

theorem refl (s : Store) : s.Precedes s :=
  ⟨List.suffix_refl _, Nat.le_refl _, id, Nat.le_refl _⟩

theorem trans (hst : s.Precedes t) (htu : t.Precedes u) : s.Precedes u where
  events := hst.events.trans htu.events
  size := Nat.le_trans hst.size htu.size
  cells hcell := htu.cells (hst.cells hcell)
  lists := Nat.le_trans hst.lists htu.lists

theorem record (s : Store) (event : Event) : s.Precedes (s.record event) :=
  ⟨List.suffix_cons event s.events, Nat.le_refl _, id, Nat.le_refl _⟩

/-- A list is put into a cell only if the cell has none. -/
theorem fillCell (s : Store) (cell : CellRef) (list : ListRef) :
    s.Precedes (s.fillCell cell list) where
  events := List.suffix_refl _
  size := by simp [Store.fillCell]
  cells {other kept} hkept := by
    by_cases hcell : cell.index < s.cells.size
    · rw [s.cell?_fillCell hcell, hkept, Option.some_or]
    · rw [s.cell?_fillCell_of_le (Nat.le_of_not_lt hcell), hkept]
  lists := Nat.le_refl _

end Precedes

end Store

/-- An evaluation from which a store only goes on, however it ends. -/
def Eval.Onward {α : Type} (x : Eval α) : Prop :=
  ∀ s : Store, s.Precedes (Outcome.store (x s))

/-! ### Evaluation -/

/-- The coupling of an evaluation with itself that has begun in a store or later. -/
def Coupling.onward (start : Store) : Coupling :=
  diagonal start.Precedes fun _ => True

namespace Coupling

variable {start : Store}

theorem onward_invariant : Store.Invariant .anything start.Precedes where
  follows _ _ _ _ := Policy.anything_allows _
  sameScripts hs hst := hs.trans hst.precedes
  newFunction hs _ _ := hs.trans ⟨List.suffix_refl _, Nat.le_refl _, id, Nat.le_refl _⟩
  called hs _ _ := hs.trans (.record _ _)
  published hs _ _ := hs.trans (.record _ _)

theorem onward_stable : (onward start).Stable .anything Policy.anything.Shared := by
  refine diagonal_stable onward_invariant ?_ trivial fun _ => trivial
  intro _ cell _ x y hxy
  apply keepList_invariant fun _ _ => .rfl
  · exact fun s hs values => hs.trans (s.newList_sameScripts values).precedes
  · exact fun s hs list => hs.trans (.fillCell s cell list)
  · exact fun s hs event _ => hs.trans (.record s event)
  · exact hxy

theorem onward_runs : (onward start).Runs Policy.anything.Shared :=
  diagonal_runs onward_stable fun hs _ => hs.trans (.record _ _)

/-- What goes on from the stores of every time goes on from the store it begins in. -/
theorem onward_kept {α : Type} {x : Eval α}
    (hx : ∀ start, Coupled (onward start) (onward start) x x) : x.Onward :=
  fun s => (diagonal_kept (hx s) (.refl s)).2

end Coupling

/-! ### Hosts -/

/-- What a function of a host does, step by step: it ends, it changes the store by itself and spares
the cells, or it makes a call. How it goes on may depend on the store before its own step, and on
what comes of a call. -/
inductive Routine where
  | done (result : Except Halt Value)
  | step (change : Store → Store) (spares : ∀ s : Store, s.SparesCells (change s))
      (next : Store → Routine)
  | call (callee : Value) (args : List Value) (next : Except Halt Value → Routine)

namespace Routine

/-- Goes through the steps, given a way to make calls. -/
def run (call : Value → List Value → Eval Value) : Routine → Eval Value
  | .done (.ok value) => return value
  | .done (.error halt) => throw halt
  | .step change _ next => fun s => (next s).run call (change s)
  | .call callee args next => fun s =>
    let outcome : Outcome Value := call callee args s
    (next outcome.result).run call outcome.store

/-- An invariant that bears changes which spare the cells is kept by every routine, as long as calls
keep it. -/
theorem run_coupled {holds : Store → Prop}
    (hspares : ∀ {s t : Store}, holds s → s.SparesCells t → holds t)
    {call : Value → List Value → Eval Value}
    (hcall : ∀ callee args, Coupled (.diagonal holds fun _ => True) (.diagonal holds fun _ => True)
      (call callee args) (call callee args)) (routine : Routine) :
    Coupled (.diagonal holds fun _ => True) (.diagonal holds fun _ => True) (routine.run call)
      (routine.run call) := by
  induction routine with
  | done result =>
      cases result with
      | ok value => exact Coupled.pure value
      | error halt => exact Coupled.throw trivial
  | step change hchange next ih =>
      rintro s _ ⟨rfl, hs⟩
      exact ih s _ _ ⟨rfl, hspares hs (hchange s)⟩
  | call callee args next ih =>
      rintro s _ ⟨rfl, hs⟩
      exact ih _ _ _ ⟨rfl, (Coupling.diagonal_kept (hcall callee args) hs).2⟩

/-- A call that is the last step is all that is left. -/
theorem run_call_done (call : Value → List Value → Eval Value) (callee : Value)
    (args : List Value) : (Routine.call callee args .done).run call = call callee args := by
  funext s
  change (Routine.done (Outcome.result (call callee args s))).run call
    (Outcome.store (call callee args s)) = _
  cases call callee args s <;> rfl

/-- A step that changes nothing, to have a look at the store. -/
def look (next : Store → Routine) : Routine :=
  .step id (fun _ => Store.SameScripts.sparesCells ⟨rfl, rfl, rfl, Nat.le_refl _⟩) next

/-- A step that prints a line. -/
def print (line : Store → String) (next : Store → Routine) : Routine :=
  .step (fun s => s.printLine (line s))
    (fun _ => Store.SameScripts.sparesCells ⟨rfl, rfl, rfl, Nat.le_refl _⟩) next

end Routine

namespace Host

/-- A host whose functions are routines: whatever they do beside making calls, and whatever comes of
these, are steps that spare the cells. -/
def KeepsHistory (host : Host) : Prop :=
  ∀ ref native args, ∃ routine : Routine, ∀ call,
    host.perform ref native call args = routine.run call

theorem standard_keepsHistory : standard.KeepsHistory := by
  rintro ref ⟨name, arity⟩ args
  by_cases hprint : name = "print"
  · subst hprint
    exact ⟨.print (·.line args) fun _ => .done (.ok .null), fun _ => rfl⟩
  by_cases htype : name = "type"
  · subst htype
    exact ⟨.done (.ok (.string (args.headD .null).type.text)), fun _ => rfl⟩
  by_cases hstr : name = "str"
  · subst hstr
    exact ⟨.look fun s => .done (.ok (.string (s.text (args.headD .null)))), fun _ => rfl⟩
  by_cases hfail : name = "fail"
  · subst hfail
    exact ⟨.look fun s => .done (.error (.fault (.host (s.line args)))), fun _ => rfl⟩
  by_cases happly : name = "apply"
  · subst happly
    cases hlist : (args.drop 1).headD .null with
    | list list =>
        refine ⟨.look fun s => .call (args.headD .null) (s.list list).toList .done, fun call => ?_⟩
        simp only [standard, hlist]
        exact funext fun s => (congrFun (Routine.run_call_done call _ _) s).symm
    | _ =>
        refine ⟨.done (.error (.fault (.host ("apply needs a list, got "
          ++ ((args.drop 1).headD .null).type.text)))), fun call => ?_⟩
        simp only [standard, hlist]
        rfl
  · refine ⟨.done (.error (.fault (.notCallable .function))), fun call => ?_⟩
    simp only [standard, *]
    rfl

/-- Nothing that is evaluated with a host undoes what there was before, however it ends: neither calls
nor what a function of the host has still to do, neither expressions nor code nor whole programs. -/
structure GoesOn (host : Host) : Prop where
  call : ∀ fuel callee args, (host.call fuel callee args).Onward
  routine : ∀ fuel (routine : Routine), (routine.run (host.call fuel)).Onward
  expr : ∀ fuel c (e : Expr), (e.eval (host.machine fuel) c).Onward
  code : ∀ fuel c (code : Code), (code.run (host.machine fuel) c).Onward
  run : ∀ fuel program c, (host.run fuel program c).Onward

variable {host : Host} (hhost : host.KeepsHistory)

include hhost

theorem KeepsHistory.keeps {holds : Store → Prop}
    (hspares : ∀ {s t : Store}, holds s → s.SparesCells t → holds t) :
    host.Keeps (.diagonal holds fun _ => True) := by
  intro ref native call hcall args
  obtain ⟨routine, hroutine⟩ := hhost ref native args
  rw [hroutine]
  exact routine.run_coupled hspares hcall

theorem KeepsHistory.call_coupled (start : Store) (fuel : Nat) (callee : Value)
    (args : List Value) :
    Coupled (.onward start) (.onward start) (host.call fuel callee args)
      (host.call fuel callee args) :=
  Coupling.onward_stable.call_of_keeps (hhost.keeps fun hs hst => hs.trans hst.precedes)
    Coupling.onward_runs fuel callee args

theorem KeepsHistory.machine_paired (start : Store) (fuel : Nat) :
    Machine.Paired (.onward start) (host.machine fuel) (host.machine fuel) :=
  ⟨hhost.call_coupled start fuel, rfl⟩

theorem KeepsHistory.runAll_onward (fuel : Nat) (c : Context) (codes : List Code) :
    (runAll (host.machine fuel) c codes).Onward := by
  apply Coupling.onward_kept
  intro start
  exact runAll_coupled Coupling.onward_stable (hhost.machine_paired start fuel)
    (fun _ hsteps => ⟨rfl, hsteps⟩) trivial .top codes (Policy.anything_allows _)

theorem KeepsHistory.goesOn : host.GoesOn where
  call fuel callee args :=
    Coupling.onward_kept fun start => hhost.call_coupled start fuel callee args
  routine fuel routine := Coupling.onward_kept fun start =>
    routine.run_coupled (fun hs hst => hs.trans hst.precedes) (hhost.call_coupled start fuel)
  expr fuel _ e := Coupling.onward_kept fun start =>
    Expr.eval_coupled Coupling.onward_stable (hhost.machine_paired start fuel)
      (fun _ hblock => ⟨rfl, hblock⟩) trivial .top e (Policy.anything_allows _)
  code fuel _ code := Coupling.onward_kept fun start =>
    Code.run_coupled Coupling.onward_stable (hhost.machine_paired start fuel)
      (fun _ hsteps => ⟨rfl, hsteps⟩) trivial .top code (Policy.anything_allows _)
  run fuel _ c := Coupling.onward_kept fun start =>
    Coupling.onward_runs ⟨rfl, Policy.anything_allows _⟩ (hhost.call_coupled start fuel) fuel c
      trivial

end Host

end TableScript
