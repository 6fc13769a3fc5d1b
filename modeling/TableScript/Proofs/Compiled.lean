import TableScript.Code.Compile
import TableScript.Eval.Call

/-!
Compiled code does what its tree does. With the same machine the two are one and the same evaluation,
in every context and every store, but for the functions that they make: the code makes functions with
code for a body. So a machine whose function literals are compiled turns the statement into an
equation.
-/

namespace TableScript

open Eval

/-- The machine whose function literals become code. -/
def Machine.compiling (m : Machine) : Machine :=
  { m with body := fun block => .code (compileBlock block) }

/-- What a compiled update computes from what it reads. -/
def CodeUpdate.revise (m : Machine) (c : Context) : CodeUpdate → Revision
  | .store value, _ => value.run m c
  | .modify op value, current => do
    let left ← current
    op.apply left (← value.run m c)

/-- A loop without a step takes steps of one. -/
theorem Range.ofValues_one (start stop : Value) :
    Range.ofValues start stop (some (.number 1.0)) = Range.ofValues start stop none := by
  have habs : Float.abs 1.0 = 1.0 := by decide +kernel
  simp only [Range.ofValues, Range.bound, Functor.map, Except.map]
  rw [habs]
  rfl

variable (m : Machine) (c : Context)

namespace CodeUpdate

theorem run_toName (name : String) (update : CodeUpdate) :
    (update.toName name).run m c = (do
      let value ← update.revise m c (Eval.load c name)
      Eval.store c name value) := by
  cases update <;> simp only [toName, revise, Code.run, bind_assoc]

theorem run_toIndex (container index : Code) (update : CodeUpdate) :
    (update.toIndex container index).run m c = (do
      let container ← container.run m c
      let index ← index.run m c
      Eval.assignIndex container index (update.revise m c)) := by
  cases update <;> simp only [toIndex, revise, Code.run, Eval.assignIndex, bind_assoc]

theorem run_toMember (container : Code) (name : String) (update : CodeUpdate) :
    (update.toMember container name).run m c = (do
      let container ← container.run m c
      Eval.assignMember container name (update.revise m c)) := by
  cases update <;> simp only [toMember, revise, Code.run, Eval.assignMember, bind_assoc]

end CodeUpdate

mutual

/-- The code of an expression is the expression, its functions being compiled. -/
theorem Expr.run_compile : ∀ e : Expr, e.compile.run m c = e.eval m.compiling c
  | .null => rfl
  | .bool _ => rfl
  | .number _ => rfl
  | .string _ => rfl
  | .name _ => rfl
  | .list elements => by
    simp only [Expr.compile, Code.run, Expr.eval, run_compileAll elements]
  | .table entries => by
    simp only [Expr.compile, Code.run, Expr.eval, run_compileEntries .empty entries]
  | .function _ _ _ => rfl
  | .unary _ operand => by
    simp only [Expr.compile, Code.run, Expr.eval, Expr.run_compile operand]
  | .or first rest => by
    simp only [Expr.compile, Code.run, runOr, Expr.eval, Expr.run_compile first,
      run_compileOr rest]
  | .and first rest => by
    simp only [Expr.compile, Code.run, runAnd, Expr.eval, Expr.run_compile first,
      run_compileAnd _ rest]
  | .compare first rest => by
    simp only [Expr.compile, Code.run, Expr.eval, Expr.run_compile first,
      run_compileCompare _ rest]
  | .add first rest => by
    simp only [Expr.compile, Code.run, Expr.eval, Expr.run_compile first, run_compileAdd _ rest]
  | .mul first rest => by
    simp only [Expr.compile, Code.run, Expr.eval, Expr.run_compile first, run_compileMul _ rest]
  | .access target chain => by
    simp only [Expr.compile, Expr.eval, run_compileChain _ chain, Expr.run_compile target]
  | .assign target update => by
    rw [Expr.compile, Expr.eval, Target.run_compile _ target, Update.revise_compile update]
  | .global _ value => by
    simp only [Expr.compile, Code.run, Expr.eval, Expr.run_compile value]
  | .control control => by
    simp only [Expr.compile, Code.run, Expr.eval, Control.run_compile control]

theorem run_compileAll :
    ∀ es : List Expr, runAll m c (compileAll es) = evalAll m.compiling c es
  | [] => rfl
  | e :: es => by
    simp only [compileAll, runAll, evalAll, Expr.run_compile e, run_compileAll es]

theorem run_compileEntries (table : Table) :
    ∀ entries : List Entry, runEntries m c table (compileEntries entries)
      = evalEntries m.compiling c table entries
  | [] => rfl
  | .named _ value :: entries => by
    simp only [compileEntries, runEntries, evalEntries, Expr.run_compile value,
      run_compileEntries _ entries]
  | .computed key value :: entries => by
    simp only [compileEntries, runEntries, evalEntries, Expr.run_compile key,
      Expr.run_compile value, run_compileEntries _ entries]

theorem run_compileOr :
    ∀ es : List Expr, runOr m c (compileAll es) = evalOr m.compiling c es
  | [] => rfl
  | e :: es => by
    simp only [compileAll, runOr, evalOr, Expr.run_compile e, run_compileOr es]

theorem run_compileAnd (last : Value) :
    ∀ es : List Expr, runAnd m c last (compileAll es) = evalAnd m.compiling c last es
  | [] => rfl
  | e :: es => by
    simp only [compileAll, runAnd, evalAnd, Expr.run_compile e, run_compileAnd _ es]

theorem run_compileCompare (left : Value) :
    ∀ es : List (CompareOp × Expr),
      runRest m c left (compileCompare es) = evalCompare m.compiling c left es
  | [] => rfl
  | (_, e) :: es => by
    simp only [compileCompare, runRest, evalCompare, BinaryOp.apply, Expr.run_compile e,
      run_compileCompare _ es]

theorem run_compileAdd (left : Value) :
    ∀ es : List (AddOp × Expr), runRest m c left (compileAdd es) = evalAdd m.compiling c left es
  | [] => rfl
  | (_, e) :: es => by
    simp only [compileAdd, runRest, evalAdd, BinaryOp.apply, Expr.run_compile e,
      run_compileAdd _ es]

theorem run_compileMul (left : Value) :
    ∀ es : List (MulOp × Expr), runRest m c left (compileMul es) = evalMul m.compiling c left es
  | [] => rfl
  | (_, e) :: es => by
    simp only [compileMul, runRest, evalMul, BinaryOp.apply, Expr.run_compile e,
      run_compileMul _ es]

theorem run_compileChain (target : Code) :
    ∀ chain : List Accessor, (compileChain target chain).run m c = do
      evalChain m.compiling c (← target.run m c) chain
  | [] => by simp only [compileChain, evalChain, bind_pure]
  | .index index :: chain => by
    simp only [compileChain, Code.run, evalChain, run_compileChain _ chain,
      Expr.run_compile index, bind_assoc]
  | .member _ :: chain => by
    simp only [compileChain, Code.run, evalChain, run_compileChain _ chain, bind_assoc]
  | .call args :: chain => by
    simp only [compileChain, Code.run, evalChain, run_compileChain _ chain, run_compileAll args,
      Machine.compiling, bind_assoc]

theorem Target.run_compile (update : CodeUpdate) :
    ∀ target : Target, (target.compile update).run m c
      = target.assign m.compiling c (update.revise m c)
  | .name _ => by
    rw [Target.compile, CodeUpdate.run_toName, Target.assign]
  | .index container index => by
    simp only [Target.compile, CodeUpdate.run_toIndex, Target.assign, Expr.run_compile container,
      Expr.run_compile index]
  | .member container _ => by
    simp only [Target.compile, CodeUpdate.run_toMember, Target.assign, Expr.run_compile container]

theorem Update.revise_compile :
    ∀ update : Update, update.compile.revise m c = fun current => update.eval m.compiling c current
  | .set value => by
    funext current
    simp only [Update.compile, CodeUpdate.revise, Update.eval, Expr.run_compile value]
  | .addTo value => by
    funext current
    simp only [Update.compile, CodeUpdate.revise, Update.eval, AddOp.apply, Expr.run_compile value]
  | .subFrom value => by
    funext current
    simp only [Update.compile, CodeUpdate.revise, Update.eval, AddOp.apply, Expr.run_compile value]
  | .increment => by
    funext current
    simp only [Update.compile, CodeUpdate.revise, Update.eval, AddOp.apply, Code.one, Code.run,
      pure_bind]
  | .decrement => by
    funext current
    simp only [Update.compile, CodeUpdate.revise, Update.eval, AddOp.apply, Code.one, Code.run,
      pure_bind]

theorem Control.run_compile :
    ∀ control : Control, control.compile.run m c = control.eval m.compiling c
  | .cond branches otherwise => by
    rw [Control.compile, Control.eval, run_compileBranches _ branches,
      run_compileOtherwise otherwise]
  | .while condition body => by
    simp only [Control.compile, Flow.run, Control.eval, Expr.run_compile condition,
      run_compileBlock .null body, Machine.compiling]
  | .loop body => by
    simp only [Control.compile, Flow.run, Control.eval, run_compileBlock .null body,
      Machine.compiling]
  | .forIn _ _ items body => by
    simp only [Control.compile, Flow.run, Control.eval, Expr.run_compile items,
      run_compileBlock .null body]
  | .forOf _ start stop none body => by
    simp only [Control.compile, Flow.run, Control.eval, Expr.run_compile start,
      Expr.run_compile stop, run_compileBlock .null body, compileOr?, Code.one, Code.run,
      evalOption, pure_bind, Range.ofValues_one, Machine.compiling]
  | .forOf _ start stop (some step) body => by
    simp only [Control.compile, Flow.run, Control.eval, Expr.run_compile start,
      Expr.run_compile stop, Expr.run_compile step, run_compileBlock .null body, compileOr?,
      evalOption, bind_assoc, pure_bind, Machine.compiling]
  | .return none => by
    simp only [Control.compile, Flow.run, Control.eval, compileOr?, Code.run, evalOption, pure_bind,
      Option.getD_none]
  | .return (some value) => by
    simp only [Control.compile, Flow.run, Control.eval, compileOr?, evalOption,
      Expr.run_compile value, bind_assoc, pure_bind, Option.getD_some]
  | .continue => rfl
  | .break => rfl

theorem run_compileOtherwise :
    ∀ otherwise : Option (List Expr),
      (compileOtherwise otherwise).run m c = evalOtherwise m.compiling c otherwise
  | none => rfl
  | some body => by
    rw [compileOtherwise, Flow.run, evalOtherwise, run_compileBlock .null body]

theorem run_compileBranches (otherwise : Flow) :
    ∀ branches : List (Expr × List Expr), (compileBranches otherwise branches).run m c
      = evalBranches m.compiling c (otherwise.run m c) branches
  | [] => rfl
  | (condition, body) :: branches => by
    simp only [compileBranches, Flow.run, evalBranches, Expr.run_compile condition,
      run_compileBlock .null body, run_compileBranches otherwise branches]

/-- Compiled statements are the statements, their functions being compiled. -/
theorem run_compileBlock (last : Value) :
    ∀ block : List Expr, runSteps m c last (compileBlock block)
      = evalBlock m.compiling c last block
  | [] => rfl
  | e :: statements => by
    cases e <;>
      simp only [compileBlock, runSteps, evalBlock, Control.run_compile _, Expr.run_compile _,
        run_compileBlock _ statements]

end

/-! ### A single statement -/

section Single

variable {e : Expr} (hvalue : ∀ control, e ≠ .control control)

include hvalue

theorem evalBlock_single (last : Value) :
    evalBlock m c last [e] = (do return (← e.eval m c, .none)) := by
  cases e with
  | control control => exact absurd rfl (hvalue control)
  | _ => rfl

theorem compileBlock_single : compileBlock [e] = [.value e.compile] := by
  cases e with
  | control control => exact absurd rfl (hvalue control)
  | _ => rfl

end Single

end TableScript
