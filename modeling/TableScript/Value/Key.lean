import TableScript.Value.Fault

/-!
Table keys. Two values are the same key exactly if they are equal in the language, so a key holds
less than a value: the two zeros are one key, and not-a-number is none.
-/

namespace TableScript

/-- A key: a text, the bits of a number or a truth value. -/
inductive Key where
  | string (text : String)
  | number (bits : UInt64)
  | bool (value : Bool)
deriving DecidableEq, Hashable, Inhabited

namespace Key

/-- The key of a number, which is the same for both zeros: adding zero to either gives the positive
one and changes no other number. -/
def ofNumber (x : Float) : Key :=
  .number (x + 0.0).toBits

/-- The key that a value is. -/
def ofValue : Value → Except Fault Key
  | .string text => .ok (.string text)
  | .number x => if x.isNaN then .error .nanKey else .ok (ofNumber x)
  | .bool value => .ok (.bool value)
  | .null => .error .nullIndex
  | other => .error (.unhashableKey other.type)

def toValue : Key → Value
  | string text => .string text
  | number bits => .number (Float.ofBits bits)
  | bool value => .bool value

end Key

end TableScript
