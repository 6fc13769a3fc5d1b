import TableScript.Proofs.Compiled
import TableScript.Proofs.Numbering

/-!
What expressions mean to the engines. An engine makes of an expression a way to evaluate it, and where
list literals are kept it gives them cells. Two expressions are equivalent if every engine makes the
same of both, so that neither a store nor the code after them can tell which of the two was there.
-/

namespace TableScript

open Eval TableScript.Numbering

/-- A way to evaluate something, given a machine and a context. -/
abbrev Meaning := Machine → Context → Eval Value

namespace Expr

/-- What an engine makes of an expression. The numbering gives cells to the list literals that keep
their lists. -/
def meaning (setup : Setup) (e : Expr) : Numbering Meaning :=
  match setup.engine, setup.keepLists with
  | .interpreter, _ => return fun m c => e.eval m c
  | .compiler, false => return fun m c => e.compile.run m c
  | .compiler, true => do
    let code ← e.compile.number
    return fun m c => code.run m c

/-- Two expressions mean the same to every engine: with every machine, in every context and store,
they have the same value or halt for the same reason, leave the same store, and use up the same
cells. -/
def Equivalent (e e' : Expr) : Prop :=
  ∀ setup, e.meaning setup = e'.meaning setup

/-- What there is to show: that the trees evaluate alike, and that their codes run alike once they are
numbered. Without cells, a code is its tree already. -/
theorem Equivalent.of_trees {e e' : Expr} (htree : ∀ m c, e.eval m c = e'.eval m c)
    (hcode : (do let code ← e.compile.number; return fun m c => code.run m c : Numbering Meaning) =
      do let code ← e'.compile.number; return fun m c => code.run m c) : e.Equivalent e' := by
  rintro ⟨engine, keepLists⟩
  cases engine with
  | interpreter => exact congrArg pure (funext fun m => funext fun c => htree m c)
  | compiler =>
      cases keepLists with
      | true => exact hcode
      | false =>
          refine congrArg pure (funext fun m => funext fun c => ?_)
          rw [run_compile, run_compile, htree]

/-! ### Programs of one expression -/

section Programs

variable {e e' : Expr} (hvalue : ∀ control, e ≠ .control control)
  (hvalue' : ∀ control, e' ≠ .control control)

include hvalue

/-- A program of one expression evaluates it as the engine means it. -/
theorem run_prepare_single (setup : Setup) (s : Store) (m : Machine) (c : Context) :
    Body.run m c (s.prepare setup [e]).1 = (do
      return (← ((e.meaning setup).startingAt s.cells.size).1 m c, .none)) := by
  obtain ⟨engine, keepLists⟩ := setup
  cases engine with
  | interpreter => exact evalBlock_single m c hvalue .null
  | compiler => cases keepLists <;> simp only [Store.prepare, compileBlock_single hvalue] <;> rfl

/-- A program of one expression takes the cells that the engine gives to it. -/
theorem cells_prepare_single (setup : Setup) (s : Store) :
    (s.prepare setup [e]).2 = s.growCells ((e.meaning setup).startingAt s.cells.size).2 := by
  obtain ⟨engine, keepLists⟩ := setup
  have hnone : s.growCells s.cells.size = s := by simp [Store.growCells]
  cases engine with
  | interpreter => exact hnone.symm
  | compiler =>
      cases keepLists with
      | false => exact hnone.symm
      | true =>
          simp only [Store.prepare, compileBlock_single hvalue]
          rfl

include hvalue'

/-- Equivalent expressions make programs that cannot be told apart. -/
theorem Equivalent.programs_alike (h : e.Equivalent e') (setup : Setup) (s : Store) :
    (s.prepare setup [e]).2 = (s.prepare setup [e']).2 ∧
      ∀ (host : Host) (fuel : Nat) (c : Context),
        host.run fuel (s.prepare setup [e]).1 c = host.run fuel (s.prepare setup [e']).1 c := by
  refine ⟨?_, fun host fuel c => ?_⟩
  · rw [cells_prepare_single hvalue, cells_prepare_single hvalue', h setup]
  · rw [Host.run, Host.run, Body.evaluate, Body.evaluate, run_prepare_single hvalue,
      run_prepare_single hvalue', h setup]

end Programs

end Expr

end TableScript
