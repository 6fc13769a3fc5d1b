import TableScript.Proofs.Coupling
import TableScript.Proofs.Meanings

/-!
Compound assignments. `x += e`, `x -= e`, `x++` and `x--` read their target, work out a sum or
difference with what they have read, and write it back. As long as finding the target changes nothing,
this is the plain assignment of that sum or difference: the target is found twice there, at the same
moment, so both times it is the same place.
-/

namespace TableScript

open Eval TableScript.Numbering

/-! ### Evaluations without effects -/

namespace Eval

variable {α β : Type}

/-- An evaluation that has a value in every store and leaves the store as it is. -/
def Silent (x : Eval α) : Prop :=
  ∀ s, ∃ a, x s = .ok a s

theorem Silent.pure (a : α) : Silent (Pure.pure a : Eval α) :=
  fun _ => ⟨a, rfl⟩

theorem Silent.load (c : Context) (name : String) : Silent (Eval.load c name) :=
  fun s => ⟨s.get c name, rfl⟩

/-- What is evaluated silently need not be evaluated again. -/
theorem Silent.twice {x : Eval α} (hx : x.Silent) (f : α → α → Eval β) :
    (do let a ← x; let b ← x; f a b) = (do let a ← x; f a a) := by
  funext s
  obtain ⟨a, ha⟩ := hx s
  simp only [bind_apply, ha]

/-- The same for two evaluations, one after the other. -/
theorem Silent.twice_both {x y : Eval α} (hx : x.Silent) (hy : y.Silent)
    (f : α → α → α → α → Eval β) :
    (do let a ← x; let b ← y; let a' ← x; let b' ← y; f a b a' b') =
      (do let a ← x; let b ← y; f a b a b) := by
  funext s
  obtain ⟨a, ha⟩ := hx s
  obtain ⟨b, hb⟩ := hy s
  simp only [bind_apply, ha, hb]

end Eval

/-! ### Targets -/

/-- Whether an expression is a variable or a scalar literal. -/
def Expr.isAtom : Expr → Bool
  | .null | .bool _ | .number _ | .string _ | .name _ => true
  | _ => false

/-- Whether a target is a variable, or a part of a container where container and index are atoms. -/
def Target.isSimple : Target → Bool
  | .name _ => true
  | .index container position => container.isAtom && position.isAtom
  | .member container _ => container.isAtom

/-- The expression that reads a target. -/
def Target.read : Target → Expr
  | .name text => .name text
  | .index container position => .access container [.index position]
  | .member container key => .access container [.member key]

/-- On the left of an assignment, what reads a target is the target. -/
theorem Target.target?_read (target : Target) : Grammar.target? target.read = some target := by
  cases target <;> rfl

namespace Expr

variable {e : Expr}

theorem eval_silent (h : e.isAtom) (m : Machine) (c : Context) : (e.eval m c).Silent := by
  cases e with
  | null => exact .pure _
  | bool value => exact .pure _
  | number value => exact .pure _
  | string text => exact .pure _
  | name name => exact .load c name
  | _ => cases h

theorem run_silent (h : e.isAtom) (m : Machine) (c : Context) : (e.compile.run m c).Silent := by
  rw [run_compile]
  exact eval_silent h m.compiling c

/-- There is no list literal in an atom. -/
theorem number_atom (h : e.isAtom) : e.compile.number = pure e.compile := by
  cases e with
  | null => rfl
  | bool value => rfl
  | number value => rfl
  | string text => rfl
  | name name => rfl
  | _ => cases h

end Expr

/-! ### Updates -/

/-- The operation by which a compound update changes what it reads, and the other operand. -/
def Update.operation? : Update → Option (AddOp × Expr)
  | .set _ => none
  | .addTo value => some (.add, value)
  | .subFrom value => some (.sub, value)
  | .increment => some (.add, .number 1.0)
  | .decrement => some (.sub, .number 1.0)

namespace Update

variable {update : Update} {op : AddOp} {e : Expr}

theorem eval_compound (h : update.operation? = some (op, e)) (m : Machine) (c : Context)
    (current : Eval Value) : update.eval m c current = (do
      let left ← current
      let right ← e.eval m c
      op.apply left right) := by
  cases update with
  | set value => cases h
  | _ =>
      cases h
      simp only [Update.eval, AddOp.apply, Expr.eval, pure_bind]

theorem compile_compound (h : update.operation? = some (op, e)) :
    update.compile = .modify op e.compile := by
  cases update with
  | set value => cases h
  | _ =>
      cases h
      rfl

end Update

/-! ### Assignments -/

section Trees

variable {op : AddOp} {e : Expr} (m : Machine) (c : Context)

theorem evalAdd_single (left : Value) :
    evalAdd m c left [(op, e)] = (do op.apply left (← e.eval m c)) := by
  simp only [evalAdd, bind_pure]

/-- Interpreted, a compound assignment is the plain one of what it writes. -/
theorem Target.eval_assign_compound {target : Target} (hsimple : target.isSimple)
    {update : Update} (hupdate : update.operation? = some (op, e)) :
    (Expr.assign target update).eval m c
      = (Expr.assign target (.set (.add target.read [(op, e)]))).eval m c := by
  cases target with
  | name name =>
      simp only [Expr.eval, Target.assign, Update.eval_compound hupdate, Update.eval, read,
        evalAdd_single]
  | index container position =>
      obtain ⟨hcontainer, hposition⟩ := Bool.and_eq_true_iff.1 hsimple
      have htwice := Silent.twice_both (Expr.eval_silent hcontainer m c)
        (Expr.eval_silent hposition m c) (β := Value)
      simp only [Expr.eval, Target.assign, Eval.assignIndex, Update.eval_compound hupdate,
        Update.eval, read, evalAdd_single, evalChain, bind_assoc, pure_bind, htwice]
  | member container key =>
      have htwice := Silent.twice (Expr.eval_silent hsimple m c) (β := Value)
      simp only [Expr.eval, Target.assign, Eval.assignMember, Update.eval_compound hupdate,
        Update.eval, read, evalAdd_single, evalChain, bind_assoc, pure_bind, htwice]

end Trees

section Codes

variable {container index : Code} {m : Machine} {c : Context} (op : AddOp) (value : Code)

/-- Code that updates a variable is code that writes what it reads and revises. -/
theorem Code.run_update (name : String) : (Code.update op name value).run m c =
    (Code.store name (.fold (.load name) [(.add op, value)])).run m c := by
  simp only [Code.run, runRest, BinaryOp.apply, bind_assoc, bind_pure]

/-- Code that updates a position is code that finds it twice. -/
theorem Code.run_updateIndex (hcontainer : (container.run m c).Silent)
    (hindex : (index.run m c).Silent) : (Code.updateIndex op container index value).run m c =
      (Code.storeIndex container index
        (.fold (.index container index) [(.add op, value)])).run m c := by
  have htwice := Silent.twice_both hcontainer hindex (β := Value)
  simp only [Code.run, runRest, BinaryOp.apply, bind_assoc, bind_pure, htwice]

theorem Code.run_updateMember (hcontainer : (container.run m c).Silent) (name : String) :
    (Code.updateMember op container name value).run m c =
      (Code.storeMember container name
        (.fold (.member container name) [(.add op, value)])).run m c := by
  have htwice := Silent.twice hcontainer (β := Value)
  simp only [Code.run, runRest, BinaryOp.apply, bind_assoc, bind_pure, htwice]

end Codes

/-- Numbered, the code of a compound assignment runs as that of the plain one of what it writes. The
target has no list literal, so the cells are the same although the target is there twice. -/
theorem Target.number_assign_compound {target : Target} (hsimple : target.isSimple) {op : AddOp}
    {e : Expr} {update : Update} (hupdate : update.operation? = some (op, e)) :
    (do let code ← (Expr.assign target update).compile.number
        return fun m c => code.run m c : Numbering Meaning) = (do
      let code ← (Expr.assign target (.set (.add target.read [(op, e)]))).compile.number
      return fun m c => code.run m c) := by
  cases target with
  | name name =>
      simp only [Expr.compile, Update.compile_compound hupdate, Target.compile, Update.compile, read,
        CodeUpdate.toName, compileAdd, Code.number, numberRest, pure_bind, bind_assoc]
      refine congrArg (e.compile.number >>= ·) (funext fun value => ?_)
      refine congrArg pure (funext fun m => funext fun c => ?_)
      exact Code.run_update op value name
  | index container position =>
      obtain ⟨hcontainer, hposition⟩ := Bool.and_eq_true_iff.1 hsimple
      simp only [Expr.compile, Update.compile_compound hupdate, Target.compile, Update.compile, read,
        CodeUpdate.toIndex, compileAdd, compileChain, Code.number, numberRest,
        Expr.number_atom hcontainer, Expr.number_atom hposition, pure_bind, bind_assoc]
      refine congrArg (e.compile.number >>= ·) (funext fun value => ?_)
      refine congrArg pure (funext fun m => funext fun c => ?_)
      exact Code.run_updateIndex op value (Expr.run_silent hcontainer m c)
        (Expr.run_silent hposition m c)
  | member container key =>
      simp only [Expr.compile, Update.compile_compound hupdate, Target.compile, Update.compile, read,
        CodeUpdate.toMember, compileAdd, compileChain, Code.number, numberRest,
        Expr.number_atom hsimple, pure_bind, bind_assoc]
      refine congrArg (e.compile.number >>= ·) (funext fun value => ?_)
      refine congrArg pure (funext fun m => funext fun c => ?_)
      exact Code.run_updateMember op value (Expr.run_silent hsimple m c) key

/-- A compound assignment is the plain one of what it writes. -/
theorem Target.compound_equivalent {target : Target} (hsimple : target.isSimple) {op : AddOp}
    {e : Expr} {update : Update} (hupdate : update.operation? = some (op, e)) :
    Expr.Equivalent (.assign target update) (.assign target (.set (.add target.read [(op, e)]))) :=
  .of_trees (fun m c => eval_assign_compound m c hsimple hupdate)
    (number_assign_compound hsimple hupdate)

/-- Compound assignments say nothing that plain ones cannot say. For a target that is a variable, or a
part of a container where container and index are variables or scalar literals, `+=`, `-=`, `++` and
`--` mean to every engine what the plain assignment of the sum or difference with the target means: the
value or fault, the variables, the contents of containers and the calls are the same, also where the
operand binds the variables anew or changes the container. -/
theorem compound_assignment_is_plain (target : Target) (hsimple : target.isSimple) (e : Expr) :
    Grammar.target? target.read = some target ∧
    Expr.Equivalent (.assign target (.addTo e))
      (.assign target (.set (.add target.read [(.add, e)]))) ∧
    Expr.Equivalent (.assign target (.subFrom e))
      (.assign target (.set (.add target.read [(.sub, e)]))) ∧
    Expr.Equivalent (.assign target .increment)
      (.assign target (.set (.add target.read [(.add, .number 1.0)]))) ∧
    Expr.Equivalent (.assign target .decrement)
      (.assign target (.set (.add target.read [(.sub, .number 1.0)]))) := by
  have hplain : ∀ {op operand} (update : Update), update.operation? = some (op, operand) →
      Expr.Equivalent (.assign target update)
        (.assign target (.set (.add target.read [(op, operand)]))) :=
    fun _ => Target.compound_equivalent hsimple
  exact ⟨target.target?_read, hplain (.addTo e) rfl, hplain (.subFrom e) rfl, hplain .increment rfl,
    hplain .decrement rfl⟩

/-- `xs[i] += (i = 1)`, where the operand moves the index. -/
theorem compound_assignment_is_plain_moving :
    let target := Target.index (.name "xs") (.name "i")
    let e := Expr.assign (.name "i") (.set (.number 1.0))
    target.isSimple ∧ ∀ (setup : Setup) (s : Store) (host : Host) (fuel : Nat) (c : Context),
      host.run fuel (s.prepare setup [.assign target (.addTo e)]).1 c =
        host.run fuel (s.prepare setup
          [.assign target (.set (.add target.read [(.add, e)]))]).1 c := by
  intro target e
  have hsimple : target.isSimple := rfl
  refine ⟨hsimple, fun setup s => ?_⟩
  have hassign : ∀ update control, Expr.assign target update ≠ .control control := by
    intro update control h
    cases h
  have hsame := (compound_assignment_is_plain target hsimple e).2.1
  exact (hsame.programs_alike (hassign _) (hassign _) setup s).2

end TableScript
