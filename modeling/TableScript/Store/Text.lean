import TableScript.Number.Written
import TableScript.Store.Basic
import TableScript.Text.Quoted

/-!
The text of values, as `print` shows them. Strings stand for themselves, but inside a list or a
table they are quoted.
-/

namespace TableScript

/-- How a value is written inside a container, given how it is written by itself. -/
def Value.textInside (text : Value → String) : Value → String
  | .string content => Quoted.quote content
  | value => text value

namespace Store

variable (s : Store)

/-- The text of a value whose containers are nested at most `depth` deep. -/
def textWithin : Nat → Value → String
  | _, .null => "null"
  | _, .bool value => if value then "true" else "false"
  | _, .number x => Number.text x
  | _, .string text => text
  | _, .function ref =>
    match (s.function? ref).bind (·.name) with
    | some name => "<func " ++ name ++ ">"
    | none => "<func>"
  | _, .native ref =>
    match s.native? ref with
    | some host => "<native " ++ host.name ++ ">"
    | none => "<native>"
  | 0, .list _ => "[...]"
  | 0, .table _ => "\x7b...\x7d"
  | depth + 1, .list ref =>
    let part := Value.textInside (textWithin depth)
    "[" ++ ", ".intercalate ((s.list ref).toList.map part) ++ "]"
  | depth + 1, .table ref =>
    let part := Value.textInside (textWithin depth)
    let entry (e : Key × Value) : String := part e.1.toValue ++ ": " ++ part e.2
    "\x7b" ++ ", ".intercalate ((s.table ref).toList.map entry) ++ "\x7d"

/-- Deeper than containers are nested in any computer, unless one contains itself. -/
def ampleDepth : Nat := Nat.pow 2 60

/-- The text of a value. Writing out a container that contains itself does not end in any time. -/
def text (value : Value) : String :=
  s.textWithin ampleDepth value

end Store

end TableScript
