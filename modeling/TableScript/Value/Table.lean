import Std.Data.HashMap
import TableScript.Value.Key

/-!
Tables: maps that remember in which order their keys came. The entries stand in that order, and an
index tells at which slot a key stands.
-/

namespace TableScript

structure Table where
  entries : Array (Key × Value)
  index : Std.HashMap Key Nat

namespace Table

def empty : Table :=
  { entries := #[], index := ∅ }

instance : Inhabited Table :=
  ⟨empty⟩

def size (t : Table) : Nat :=
  t.entries.size

def isEmpty (t : Table) : Bool :=
  t.entries.isEmpty

/-- The entries in the order in which their keys came. -/
def toList (t : Table) : List (Key × Value) :=
  t.entries.toList

def get? (t : Table) (key : Key) : Option Value :=
  (t.index[key]?).bind fun slot => (t.entries[slot]?).map (·.2)

/-- Puts a value under a key. A key that is there already keeps its place. -/
def insert (t : Table) (key : Key) (value : Value) : Table :=
  match t.index[key]? with
  | some slot => { t with entries := t.entries.setIfInBounds slot (key, value) }
  | none =>
    { entries := t.entries.push (key, value), index := t.index.insert key t.entries.size }

/-- The index after some entries have each moved up by one slot. -/
def moveUp (index : Std.HashMap Key Nat) (moved : List (Key × Value)) : Std.HashMap Key Nat :=
  moved.foldl (fun index entry => index.modify entry.1 fun slot => slot - 1) index

/-- Takes a key out and yields the value under it, if there is one. The entries after it move up. -/
def remove (t : Table) (key : Key) : Option Value × Table :=
  match t.index[key]? with
  | some slot =>
    let entries := t.entries.eraseIdxIfInBounds slot
    let index := moveUp (t.index.erase key) (entries.toList.drop slot)
    ((t.entries[slot]?).map (·.2), { entries := entries, index := index })
  | none => (none, t)

/-- The table without a key. -/
def erase (t : Table) (key : Key) : Table :=
  (t.remove key).2

/-- The table of some entries, put in one after another. -/
def ofList (entries : List (Key × Value)) : Table :=
  entries.foldl (fun t entry => t.insert entry.1 entry.2) empty

end Table

end TableScript
