import TableScript.Eval.Operator
import TableScript.Store.Container
import TableScript.Store.Scope
import TableScript.Store.Text

/-!
Evaluation: a store goes in, and a value with a new store comes out, or a reason to halt with the
store as it was then.
-/

namespace TableScript

/-- Why an evaluation has no value: a fault of the script, or no fuel left to go on. -/
inductive Halt where
  | fault (fault : Fault)
  | outOfFuel
deriving DecidableEq

abbrev Eval := EStateM Halt Store

/-- What a block evaluates to: a value, and the signal that it ended on. -/
abbrev Ending := Value × Signal

namespace Eval

variable {α : Type}

def fault (f : Fault) : Eval α :=
  throw (.fault f)

def ofExcept : Except Fault α → Eval α
  | .ok a => pure a
  | .error f => fault f

def newList (values : List Value) : Eval Value :=
  modifyGet fun s =>
    let (ref, s) := s.newList values.toArray
    (.list ref, s)

def newTable (table : Table) : Eval Value :=
  modifyGet fun s =>
    let (ref, s) := s.newTable table
    (.table ref, s)

/-- A function value. A function with a name is also assigned to it. -/
def newFunction (closure : Closure) : Eval Value := do
  let value ← modifyGet fun s =>
    let (ref, s) := s.newFunction closure
    (Value.function ref, s)
  if let some name := closure.name then
    modify (·.set closure.context name value)
  return value

/-- The value of a name. -/
def load (c : Context) (name : String) : Eval Value :=
  return (← get).get c name

/-- Assigns a value to a name and yields it. -/
def store (c : Context) (name : String) (value : Value) : Eval Value := do
  modify (·.set c name value)
  return value

/-- Assigns a value to a global name and yields it. -/
def storeGlobal (c : Context) (name : String) (value : Value) : Eval Value := do
  modify fun s => (s.setGlobal c name value).record (.published c name)
  return value

def index (container index : Value) : Eval Value := do
  ofExcept ((← get).index container index)

def member (container : Value) (name : String) : Eval Value := do
  ofExcept ((← get).member container name)

/-- Writes a part of a container and yields what was written. -/
def storeIndex (container index value : Value) : Eval Value := do
  let place ← ofExcept ((← get).place container index)
  modify (·.write place value)
  return value

/-- Writes the part of a table under a name and yields what was written. -/
def storeMember (container : Value) (name : String) (value : Value) : Eval Value := do
  let place ← ofExcept (Store.memberPlace container name)
  modify (·.write place value)
  return value

/-- The sum of two numbers, the text of two values of which one is a string, or two lists joined in a
new one. -/
def add : Value → Value → Eval Value
  | .number x, .number y => return .number (x + y)
  | .string a, right => return .string (a ++ (← get).text right)
  | left, .string b => return .string ((← get).text left ++ b)
  | .list a, .list b => do
    let s ← get
    newList ((s.list a).toList ++ (s.list b).toList)
  | left, right => fault (.typeMismatch (.add .add) left.type right.type)

end Eval

def AddOp.apply : AddOp → Value → Value → Eval Value
  | .add, left, right => Eval.add left right
  | .sub, left, right => Eval.ofExcept (subtract left right)

def BinaryOp.apply : BinaryOp → Value → Value → Eval Value
  | .compare op, left, right => Eval.ofExcept (op.apply left right)
  | .add op, left, right => op.apply left right
  | .mul op, left, right => Eval.ofExcept (op.apply left right)

/-- What evaluation needs beside the store: how to call a function, how often a loop may run, and what
the body of a function literal becomes. -/
structure Machine where
  call : Value → List Value → Eval Value
  fuel : Nat
  body : Block → Body

end TableScript
