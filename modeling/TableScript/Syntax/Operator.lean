/-!
The operators of scripts. Those of one precedence level form one type.
-/

namespace TableScript

inductive UnaryOp where
  | negate
  | not
deriving DecidableEq, Repr

inductive CompareOp where
  | equal
  | notEqual
  | less
  | lessEqual
  | greater
  | greaterEqual
deriving DecidableEq, Repr

inductive AddOp where
  | add
  | sub
deriving DecidableEq, Repr

inductive MulOp where
  | mul
  | div
  | pow
  | floorDiv
  | mod
deriving DecidableEq, Repr

/-- An operator between two operands, of any level. -/
inductive BinaryOp where
  | compare (op : CompareOp)
  | add (op : AddOp)
  | mul (op : MulOp)
deriving DecidableEq, Repr

def UnaryOp.symbol : UnaryOp → String
  | .negate => "-"
  | .not => "not"

def CompareOp.symbol : CompareOp → String
  | .equal => "=="
  | .notEqual => "!="
  | .less => "<"
  | .lessEqual => "<="
  | .greater => ">"
  | .greaterEqual => ">="

def AddOp.symbol : AddOp → String
  | .add => "+"
  | .sub => "-"

def MulOp.symbol : MulOp → String
  | .mul => "*"
  | .div => "/"
  | .pow => "**"
  | .floorDiv => "//"
  | .mod => "%"

def BinaryOp.symbol : BinaryOp → String
  | .compare op => op.symbol
  | .add op => op.symbol
  | .mul op => op.symbol

end TableScript
