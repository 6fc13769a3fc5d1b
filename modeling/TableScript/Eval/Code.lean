import TableScript.Eval.Loop

/-!
Evaluation of code.
-/

namespace TableScript

/-- Yields the list that a cell has. -/
def Eval.reuseList (cell : CellRef) (kept : ListRef) : Eval Value := do
  modify (·.record (.reused cell kept))
  return .list kept

/-- Makes a list, puts it into a cell unless the cell has got one meanwhile, and yields the list in
the cell. -/
def Eval.fillList (cell : CellRef) (elements : Eval (List Value)) : Eval Value := do
  modify (·.record (.entered cell))
  let values ← elements
  let made ← modifyGet (·.newList values.toArray)
  modify (·.fillCell cell made)
  let kept := ((← get).cell? cell).getD made
  modify (·.record (.completed cell made kept))
  return .list kept

/-- The list of a literal with a cell. The first list that is completed stays in the cell, and every
evaluation yields the list in the cell; when an element evaluates the same literal again, the inner
list is completed first. -/
def Eval.keepList (cell : CellRef) (elements : Eval (List Value)) : Eval Value := do
  match (← get).cell? cell with
  | some kept => Eval.reuseList cell kept
  | none => Eval.fillList cell elements

variable (m : Machine) (c : Context)

mutual

/-- The value of a piece of code. -/
def Code.run : Code → Eval Value
  | .const value => return value
  | .load name => Eval.load c name
  | .list none elements => do Eval.newList (← runAll elements)
  | .list (some cell) elements => Eval.keepList cell (runAll elements)
  | .table entries => do Eval.newTable (← runEntries .empty entries)
  | .function name params body => Eval.newFunction ⟨name, params, .code body, c⟩
  | .unary op operand => do Eval.ofExcept (op.apply (← operand.run))
  | .or operands => runOr operands
  | .and operands => runAnd .null operands
  | .fold first rest => do runRest (← first.run) rest
  | .index container index => do
    let container ← container.run
    Eval.index container (← index.run)
  | .member container name => do Eval.member (← container.run) name
  | .call callee args => do
    let callee ← callee.run
    m.call callee (← runAll args)
  | .store name value => do Eval.store c name (← value.run)
  | .update op name value => do
    let current ← Eval.load c name
    Eval.store c name (← op.apply current (← value.run))
  | .storeGlobal name value => do Eval.storeGlobal c name (← value.run)
  | .storeIndex container index value => do
    let container ← container.run
    let index ← index.run
    Eval.storeIndex container index (← value.run)
  | .updateIndex op container index value => do
    let container ← container.run
    let index ← index.run
    let current ← Eval.index container index
    Eval.storeIndex container index (← op.apply current (← value.run))
  | .storeMember container name value => do
    let container ← container.run
    Eval.storeMember container name (← value.run)
  | .updateMember op container name value => do
    let container ← container.run
    let current ← Eval.member container name
    Eval.storeMember container name (← op.apply current (← value.run))
  | .flow flow => do return (← flow.run).1

/-- The values of pieces of code, from left to right. -/
def runAll : List Code → Eval (List Value)
  | [] => return []
  | code :: codes => do
    let value ← code.run
    return value :: (← runAll codes)

/-- The first value that holds, or `false`. -/
def runOr : List Code → Eval Value
  | [] => return .bool false
  | code :: codes => do
    let value ← code.run
    if value.truthy then return value else runOr codes

/-- The last value, or `false` as soon as one does not hold. -/
def runAnd (last : Value) : List Code → Eval Value
  | [] => return last
  | code :: codes => do
    let value ← code.run
    if value.truthy then runAnd value codes else return .bool false

/-- What a value becomes when operators are applied to it, one after the other. -/
def runRest (left : Value) : List (BinaryOp × Code) → Eval Value
  | [] => return left
  | (op, code) :: rest => do
    let right ← code.run
    runRest (← op.apply left right) rest

/-- Adds the entries of a literal to a table. An entry whose value is `null` is left out. -/
def runEntries (table : Table) : List CodeEntry → Eval Table
  | [] => return table
  | .fixed key value :: entries => do
    let value ← value.run
    runEntries (if value.isNull then table else table.insert key value) entries
  | .computed key value :: entries => do
    let key ← Eval.ofExcept (Key.ofValue (← key.run))
    let value ← value.run
    runEntries (if value.isNull then table else table.insert key value) entries

def Flow.run : Flow → Eval Ending
  | .nothing => return (.null, .none)
  | .block body => runSteps .null body
  | .branch condition body otherwise => do
    if (← condition.run).truthy then runSteps .null body else otherwise.run
  | .while condition body => Loop.whileTrue condition.run (runSteps .null body) m.fuel .null
  | .loop body => Loop.forever (runSteps .null body) m.fuel
  | .forIn value key items body => do
    let container ← items.run
    let items ← Eval.ofExcept ((← get).items container)
    Loop.forItems (Loop.bindItem c value key) (runSteps .null body) items .null
  | .forOf counter start stop step body => do
    let start ← start.run
    let stop ← stop.run
    let step ← step.run
    let range ← Eval.ofExcept (Range.ofValues start stop (some step))
    Loop.forRange (Loop.bindCounter c counter) (runSteps .null body) m.fuel range .null
  | .return value => do return (← value.run, .return)
  | .continue => return (.null, .continue)
  | .break => return (.null, .break)

/-- Runs statements until one gives a signal. The value is that of the last statement run. -/
def runSteps (last : Value) : List Step → Eval Ending
  | [] => return (last, .none)
  | .value code :: steps => do
    runSteps (← code.run) steps
  | .flow flow :: steps => do
    let (value, signal) ← flow.run
    if signal = .none then runSteps value steps else return (value, signal)

end

end TableScript
