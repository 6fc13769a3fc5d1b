import TableScript.Number.Whole
import TableScript.Store.Basic

/-!
Reading and writing the parts of lists, tables and strings, and going through them.
-/

namespace TableScript

/-- The position that a number means in a sequence: counted from the end if it is negative, none if
it is not a whole number or lies outside. -/
def slot? (index : Float) (length : Nat) : Option Nat :=
  if Number.fract index == 0.0 then
    let count := Number.ofNat length
    let resolved := if index < 0.0 then count + index else index
    if 0.0 ≤ resolved ∧ resolved < count then some resolved.toUInt64.toNat else none
  else none

/-- The number that has to stand as the index of a sequence. -/
def numericIndex (container : Sequence) : Value → Except Fault Float
  | .number x => .ok x
  | other => .error (.indexType container other.type)

/-- The character at a position, as a string. -/
def charAt? (text : String) (slot : Nat) : Option Value :=
  (text.toList[slot]?).map fun c => .string (String.singleton c)

/-- A part of a container that can be written: an entry of a table, a position of a list, or the end
of one, where it grows. -/
inductive Place where
  | key (ref : TableRef) (key : Key)
  | slot (ref : ListRef) (slot : Nat)
  | back (ref : ListRef)
deriving DecidableEq

namespace Store

variable (s : Store)

/-- The part of a container under an index. What is not there reads as `null`. -/
def index (container index : Value) : Except Fault Value :=
  match container with
  | .table ref => do
    let key ← Key.ofValue index
    return ((s.table ref).get? key).getD .null
  | .list ref => do
    let position ← numericIndex .list index
    let values := s.list ref
    return ((slot? position values.size).bind (values[·]?)).getD .null
  | .string text => do
    let position ← numericIndex .string index
    return ((slot? position text.length).bind (charAt? text)).getD .null
  | other => .error (.notIndexable other.type)

/-- The part of a container that an index leads to. A list has a place for each position it has, and
one after its last. -/
def place (container index : Value) : Except Fault Place :=
  match container with
  | .table ref => .key ref <$> Key.ofValue index
  | .list ref => do
    let position ← numericIndex .list index
    let length := (s.list ref).size
    match slot? position length with
    | some slot => return .slot ref slot
    | none =>
      if position == Number.ofNat length then
        return .back ref
      else
        throw (.indexOutOfBounds position length)
  | other => .error (.notAssignable other.type)

/-- The part of a table that a name leads to. -/
def memberPlace (container : Value) (name : String) : Except Fault Place :=
  match container with
  | .table ref => .ok (.key ref (.string name))
  | other => .error (.notAssignable other.type)

/-- Writes a part of a container. A table entry that is set to `null` goes away. -/
def write (place : Place) (value : Value) : Store :=
  match place with
  | .key ref key =>
    s.modifyTable ref fun table => if value.isNull then table.erase key else table.insert key value
  | .slot ref slot => s.modifyList ref (·.setIfInBounds slot value)
  | .back ref => s.modifyList ref (·.push value)

/-- Writes the part of a container under an index. -/
def setIndex (container index value : Value) : Except Fault Store :=
  (s.write · value) <$> s.place container index

/-- Writes the part of a table under a name. -/
def setMember (container : Value) (name : String) (value : Value) : Except Fault Store :=
  (s.write · value) <$> memberPlace container name

/-- The part of a table under a name. -/
def member (container : Value) (name : String) : Except Fault Value :=
  match container with
  | .table ref => .ok (((s.table ref).get? (.string name)).getD .null)
  | other => .error (.noMembers name other.type)

/-- Numbers the values of a sequence from zero. -/
def numbered (values : List Value) : List (Value × Value) :=
  values.mapIdx fun position value => (value, .number (Number.ofNat position))

/-- The values of a container with their keys, in order. A loop goes through what was there when it
began, whatever its body does to the container. -/
def items : Value → Except Fault (List (Value × Value))
  | .list ref => .ok (numbered (s.list ref).toList)
  | .table ref => .ok ((s.table ref).toList.map fun (key, value) => (value, key.toValue))
  | .string text => .ok (numbered (text.toList.map fun c => .string (String.singleton c)))
  | other => .error (.notIterable other.type)

end Store

end TableScript
