import TableScript.Store.Basic
import TableScript.Text.Quoted

/-!
Descriptions of functions and contexts for those who look into a running script.
-/

namespace TableScript

/-- Texts in quotes, in brackets. -/
def quotedList (texts : List String) : String :=
  "[" ++ ", ".intercalate (texts.map Quoted.quote) ++ "]"

/-- A part that may be absent. -/
def optionText : Option String → String
  | some text => "Some(" ++ text ++ ")"
  | none => "None"

/-- The name and the parameters of a script function. -/
def Closure.inspect (f : Closure) : String :=
  "Function \x7b name: " ++ optionText (f.name.map Quoted.quote) ++ ", params: "
    ++ quotedList f.params ++ ", .. \x7d"

/-- The name of a host function and the number of its arguments. -/
def Native.inspect (f : Native) : String :=
  "NativeFunction \x7b name: " ++ Quoted.quote f.name ++ ", arity: "
    ++ optionText (f.arity.map toString) ++ ", .. \x7d"

/-- The names in the innermost scope of a context, sorted, and whether there are other scopes. -/
def Store.inspect (s : Store) (c : Context) : String :=
  let names := (s.frame c.inner).names.mergeSort fun a b => !(b < a)
  "Context \x7b scope: Scope \x7b names: " ++ quotedList names ++ ", has_parent: "
    ++ (if c.outer.isEmpty then "false" else "true") ++ " \x7d \x7d"

end TableScript
