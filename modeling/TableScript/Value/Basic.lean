/-!
The values of scripts. Lists, tables and functions live in a store and are shared: a value holds
only a reference, and two references are the same value if they lead to the same place.
-/

namespace TableScript

/-- A place in the store that holds a list. -/
structure ListRef where
  index : Nat
deriving DecidableEq, Repr

/-- A place in the store that holds a table. -/
structure TableRef where
  index : Nat
deriving DecidableEq, Repr

/-- A place in the store that holds a script function. -/
structure FunctionRef where
  index : Nat
deriving DecidableEq, Repr

/-- A place in the store that holds a host function. -/
structure NativeRef where
  index : Nat
deriving DecidableEq, Repr

inductive Value where
  | null
  | bool (value : Bool)
  | number (value : Float)
  | string (text : String)
  | list (ref : ListRef)
  | table (ref : TableRef)
  | function (ref : FunctionRef)
  | native (ref : NativeRef)
deriving DecidableEq

instance : Inhabited Value :=
  ⟨.null⟩

/-- The types that scripts tell apart. -/
inductive ValueType where
  | null
  | boolean
  | number
  | string
  | list
  | table
  | function
deriving DecidableEq, Repr

def ValueType.text : ValueType → String
  | .null => "null"
  | .boolean => "boolean"
  | .number => "number"
  | .string => "string"
  | .list => "list"
  | .table => "table"
  | .function => "function"

namespace Value

/-- The type of a value. Functions of scripts and of the host are of one type. -/
def type : Value → ValueType
  | null => .null
  | bool _ => .boolean
  | number _ => .number
  | string _ => .string
  | list _ => .list
  | table _ => .table
  | function _ => .function
  | native _ => .function

/-- What a condition holds for: everything but `null` and `false`. -/
def truthy : Value → Bool
  | null => false
  | bool value => value
  | _ => true

def isNull : Value → Bool
  | null => true
  | _ => false

/-- Equality of the language: numbers as numbers, so that not-a-number differs from itself and the
two zeros are equal, and shared values by their place. -/
def equal : Value → Value → Bool
  | number x, number y => x == y
  | x, y => x = y

end Value

end TableScript
