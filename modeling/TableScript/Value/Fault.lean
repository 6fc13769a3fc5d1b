import TableScript.Number.Written
import TableScript.Syntax.Operator
import TableScript.Value.Basic
import TableScript.Value.Signal

/-!
What can go wrong while a script runs.
-/

namespace TableScript

/-- The three numbers of a counting loop. -/
inductive Bound where
  | start
  | stop
  | step
deriving DecidableEq, Repr

def Bound.text : Bound → String
  | .start => "start"
  | .stop => "end"
  | .step => "step"

/-- The containers whose positions are numbers. -/
inductive Sequence where
  | list
  | string
deriving DecidableEq, Repr

def Sequence.text : Sequence → String
  | .list => "List"
  | .string => "String"

inductive Fault where
  | typeMismatch (op : BinaryOp) (left right : ValueType)
  | unsupportedOperand (op : UnaryOp) (type : ValueType)
  | notIndexable (type : ValueType)
  | nullIndex
  | indexType (container : Sequence) (type : ValueType)
  | indexOutOfBounds (index : Float) (length : Nat)
  | nanKey
  | unhashableKey (type : ValueType)
  | notAssignable (type : ValueType)
  | noMembers (name : String) (type : ValueType)
  | notIterable (type : ValueType)
  | loopBound (bound : Bound) (type : ValueType)
  | zeroStep
  | notCallable (type : ValueType)
  | arityMismatch (name : String) (expected found : Nat)
  | escapedSignal (signal : Signal)
  | host (text : String)
deriving DecidableEq

def Fault.message : Fault → String
  | .typeMismatch op left right =>
    s!"Operation '{op.symbol}' is not supported between {left.text} and {right.text}"
  | .unsupportedOperand op type => s!"Operation '{op.symbol}' is not supported for type {type.text}"
  | .notIndexable type => s!"Only table, list and string can be indexed, got {type.text}"
  | .nullIndex => "Cannot index a table with null"
  | .indexType container type => s!"{container.text} index must be a number, got {type.text}"
  | .indexOutOfBounds index length =>
    s!"List index out of bounds: index {Number.exactText index}, len {length}"
  | .nanKey => "Value of type NaN cannot be used as a table key"
  | .unhashableKey type => s!"Value of type {type.text} cannot be used as a table key"
  | .notAssignable type => s!"Cannot assign into value of type {type.text}"
  | .noMembers name type => s!"Cannot read member '{name}' of type {type.text}"
  | .notIterable type => s!"Cannot iterate over value of type {type.text}"
  | .loopBound bound type => s!"For loop {bound.text} must be a number, got {type.text}"
  | .zeroStep => "For loop step must not be zero"
  | .notCallable type => s!"Object of type {type.text} is not callable"
  | .arityMismatch name expected found =>
    s!"Function '{name}' expected {expected} arguments, got {found}"
  | .escapedSignal signal => s!"'{signal.text}' outside of a loop"
  | .host text => text

/-- What a function or a whole program amounts to: a loop's signal has no loop to go to. -/
def Signal.complete (signal : Signal) (value : Value) : Except Fault Value :=
  match signal with
  | .none | .return => .ok value
  | .continue | .break => .error (.escapedSignal signal)

end TableScript
