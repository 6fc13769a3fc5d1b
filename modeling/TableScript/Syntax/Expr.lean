import TableScript.Syntax.Operator

/-!
The syntax tree of scripts. A statement is an expression; a block is a list of them. The operators of
one precedence level form one flat node, a first operand and a list of operators with the operand
after each.
-/

namespace TableScript

mutual

inductive Expr where
  | null
  | bool (value : Bool)
  | number (value : Float)
  | string (text : String)
  | name (name : String)
  | list (elements : List Expr)
  | table (entries : List Entry)
  | function (name : Option String) (params : List String) (body : List Expr)
  | unary (op : UnaryOp) (operand : Expr)
  | or (first : Expr) (rest : List Expr)
  | and (first : Expr) (rest : List Expr)
  | compare (first : Expr) (rest : List (CompareOp × Expr))
  | add (first : Expr) (rest : List (AddOp × Expr))
  | mul (first : Expr) (rest : List (MulOp × Expr))
  | access (target : Expr) (chain : List Accessor)
  | assign (target : Target) (update : Update)
  | global (name : String) (value : Expr)
  | control (control : Control)

/-- Control flow: the nodes that can end a block before its last statement. -/
inductive Control where
  | cond (branches : List (Expr × List Expr)) (otherwise : Option (List Expr))
  | while (condition : Expr) (body : List Expr)
  | loop (body : List Expr)
  | forIn (value : String) (key : Option String) (items : Expr) (body : List Expr)
  | forOf (counter : String) (start stop : Expr) (step : Option Expr) (body : List Expr)
  | return (value : Option Expr)
  | continue
  | break

/-- An entry of a table literal, under a name or under a computed key. -/
inductive Entry where
  | named (name : String) (value : Expr)
  | computed (key : Expr) (value : Expr)

/-- One step from a value to a part of it, or to what it returns. -/
inductive Accessor where
  | index (index : Expr)
  | member (name : String)
  | call (args : List Expr)

/-- What can stand on the left of an assignment. -/
inductive Target where
  | name (name : String)
  | index (container : Expr) (index : Expr)
  | member (container : Expr) (name : String)

/-- What an assignment does to its target. -/
inductive Update where
  | set (value : Expr)
  | addTo (value : Expr)
  | subFrom (value : Expr)
  | increment
  | decrement

end

/-- Statements that run one after another. -/
abbrev Block := List Expr

end TableScript
