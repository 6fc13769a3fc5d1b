import TableScript.Eval.Loop

/-!
Evaluation of syntax trees. Evaluation follows the tree; only calls and the repetition of loops go
beyond it, and these are what the machine provides.
-/

namespace TableScript

/-- Computes what an assignment writes from what it reads. -/
abbrev Revision := Eval Value → Eval Value

/-- What an assignment does, given a way to revise its target. -/
def Eval.assignIndex (container index : Value) (revise : Revision) : Eval Value := do
  let value ← revise (Eval.index container index)
  Eval.storeIndex container index value

def Eval.assignMember (container : Value) (name : String) (revise : Revision) : Eval Value := do
  let value ← revise (Eval.member container name)
  Eval.storeMember container name value

variable (m : Machine) (c : Context)

mutual

/-- The value of an expression. Control flow that stands for a value loses its signal. -/
def Expr.eval : Expr → Eval Value
  | .null => return .null
  | .bool value => return .bool value
  | .number value => return .number value
  | .string text => return .string text
  | .name name => Eval.load c name
  | .list elements => do Eval.newList (← evalAll elements)
  | .table entries => do Eval.newTable (← evalEntries .empty entries)
  | .function name params body => Eval.newFunction ⟨name, params, m.body body, c⟩
  | .unary op operand => do Eval.ofExcept (op.apply (← operand.eval))
  | .or first rest => do
    let value ← first.eval
    if value.truthy then return value else evalOr rest
  | .and first rest => do
    let value ← first.eval
    if value.truthy then evalAnd value rest else return .bool false
  | .compare first rest => do evalCompare (← first.eval) rest
  | .add first rest => do evalAdd (← first.eval) rest
  | .mul first rest => do evalMul (← first.eval) rest
  | .access target chain => do evalChain (← target.eval) chain
  | .assign target update => target.assign update.eval
  | .global name value => do Eval.storeGlobal c name (← value.eval)
  | .control control => do return (← control.eval).1

/-- The values of expressions, from left to right. -/
def evalAll : List Expr → Eval (List Value)
  | [] => return []
  | e :: es => do
    let value ← e.eval
    return value :: (← evalAll es)

/-- Adds the entries of a literal to a table. An entry whose value is `null` is left out. -/
def evalEntries (table : Table) : List Entry → Eval Table
  | [] => return table
  | .named name value :: entries => do
    let value ← value.eval
    evalEntries (if value.isNull then table else table.insert (.string name) value) entries
  | .computed key value :: entries => do
    let key ← Eval.ofExcept (Key.ofValue (← key.eval))
    let value ← value.eval
    evalEntries (if value.isNull then table else table.insert key value) entries

/-- The first value that holds, or `false`. -/
def evalOr : List Expr → Eval Value
  | [] => return .bool false
  | e :: es => do
    let value ← e.eval
    if value.truthy then return value else evalOr es

/-- The last value, or `false` as soon as one does not hold. -/
def evalAnd (last : Value) : List Expr → Eval Value
  | [] => return last
  | e :: es => do
    let value ← e.eval
    if value.truthy then evalAnd value es else return .bool false

def evalCompare (left : Value) : List (CompareOp × Expr) → Eval Value
  | [] => return left
  | (op, e) :: es => do
    let right ← e.eval
    evalCompare (← Eval.ofExcept (op.apply left right)) es

def evalAdd (left : Value) : List (AddOp × Expr) → Eval Value
  | [] => return left
  | (op, e) :: es => do
    let right ← e.eval
    evalAdd (← op.apply left right) es

def evalMul (left : Value) : List (MulOp × Expr) → Eval Value
  | [] => return left
  | (op, e) :: es => do
    let right ← e.eval
    evalMul (← Eval.ofExcept (op.apply left right)) es

def evalChain (value : Value) : List Accessor → Eval Value
  | [] => return value
  | .index index :: chain => do
    let index ← index.eval
    evalChain (← Eval.index value index) chain
  | .member name :: chain => do
    evalChain (← Eval.member value name) chain
  | .call args :: chain => do
    let args ← evalAll args
    evalChain (← m.call value args) chain

/-- Evaluates the parts of a target, then what is written to it. -/
def Target.assign (revise : Revision) : Target → Eval Value
  | .name name => do
    let value ← revise (Eval.load c name)
    Eval.store c name value
  | .index container index => do
    let container ← container.eval
    let index ← index.eval
    Eval.assignIndex container index revise
  | .member container name => do
    let container ← container.eval
    Eval.assignMember container name revise

/-- The value that an update writes; only a compound one reads the target. -/
def Update.eval (current : Eval Value) : Update → Eval Value
  | .set value => value.eval
  | .addTo value => do
    let left ← current
    Eval.add left (← value.eval)
  | .subFrom value => do
    let left ← current
    Eval.ofExcept (subtract left (← value.eval))
  | .increment => do Eval.add (← current) (.number 1.0)
  | .decrement => do Eval.ofExcept (subtract (← current) (.number 1.0))

def Control.eval : Control → Eval Ending
  | .cond branches otherwise => evalBranches (evalOtherwise otherwise) branches
  | .while condition body =>
    Loop.whileTrue condition.eval (evalBlock .null body) m.fuel .null
  | .loop body => Loop.forever (evalBlock .null body) m.fuel
  | .forIn value key items body => do
    let container ← items.eval
    let items ← Eval.ofExcept ((← get).items container)
    Loop.forItems (Loop.bindItem c value key) (evalBlock .null body) items .null
  | .forOf counter start stop step body => do
    let start ← start.eval
    let stop ← stop.eval
    let step ← evalOption step
    let range ← Eval.ofExcept (Range.ofValues start stop step)
    Loop.forRange (Loop.bindCounter c counter) (evalBlock .null body) m.fuel range .null
  | .return value => do return ((← evalOption value).getD .null, .return)
  | .continue => return (.null, .continue)
  | .break => return (.null, .break)

def evalOption : Option Expr → Eval (Option Value)
  | none => return none
  | some e => do return some (← e.eval)

def evalOtherwise : Option (List Expr) → Eval Ending
  | none => return (.null, .none)
  | some body => evalBlock .null body

/-- Runs the first branch whose condition holds. -/
def evalBranches (otherwise : Eval Ending) : List (Expr × List Expr) → Eval Ending
  | [] => otherwise
  | (condition, body) :: branches => do
    if (← condition.eval).truthy then evalBlock .null body else evalBranches otherwise branches

/-- Runs statements until one gives a signal. The value is that of the last statement run. -/
def evalBlock (last : Value) : List Expr → Eval Ending
  | [] => return (last, .none)
  | .control control :: statements => do
    let (value, signal) ← control.eval
    if signal = .none then evalBlock value statements else return (value, signal)
  | e :: statements => do
    evalBlock (← e.eval) statements

end

end TableScript
