import TableScript.Number.Whole
import TableScript.Value.Fault

/-!
Operators on values that need no store: all but `+`, which writes texts and makes lists.
-/

namespace TableScript

def UnaryOp.apply : UnaryOp → Value → Except Fault Value
  | .not, value => .ok (.bool (!value.truthy))
  | .negate, .number x => .ok (.number (-x))
  | .negate, other => .error (.unsupportedOperand .negate other.type)

def MulOp.onNumbers : MulOp → Float → Float → Float
  | .mul, x, y => x * y
  | .div, x, y => x / y
  | .pow, x, y => Float.pow x y
  | .floorDiv, x, y => Number.floor (x / y)
  | .mod, x, y => Number.remainder x y

def MulOp.apply (op : MulOp) : Value → Value → Except Fault Value
  | .number x, .number y => .ok (.number (op.onNumbers x y))
  | left, right => .error (.typeMismatch (.mul op) left.type right.type)

/-- Differences are of numbers only. -/
def subtract : Value → Value → Except Fault Value
  | .number x, .number y => .ok (.number (x - y))
  | left, right => .error (.typeMismatch (.add .sub) left.type right.type)

/-- The order of numbers. Not-a-number stands in no order to any number. -/
def CompareOp.onNumbers : CompareOp → Float → Float → Bool
  | .equal, x, y => x == y
  | .notEqual, x, y => !(x == y)
  | .less, x, y => x < y
  | .lessEqual, x, y => x ≤ y
  | .greater, x, y => y < x
  | .greaterEqual, x, y => y ≤ x

/-- The order of strings, by the code points of their characters. -/
def CompareOp.onStrings : CompareOp → String → String → Bool
  | .equal, a, b => a = b
  | .notEqual, a, b => a ≠ b
  | .less, a, b => a < b
  | .lessEqual, a, b => !(b < a)
  | .greater, a, b => b < a
  | .greaterEqual, a, b => !(a < b)

/-- Any two values are equal or not; only two numbers or two strings are ordered. -/
def CompareOp.apply (op : CompareOp) (left right : Value) : Except Fault Value :=
  match op with
  | .equal => .ok (.bool (left.equal right))
  | .notEqual => .ok (.bool (!left.equal right))
  | op =>
    match left, right with
    | .number x, .number y => .ok (.bool (op.onNumbers x y))
    | .string a, .string b => .ok (.bool (op.onStrings a b))
    | left, right => .error (.typeMismatch (.compare op) left.type right.type)

end TableScript
