import TableScript.Syntax.Operator
import TableScript.Value.Key

/-!
Compiled scripts. Code is a smaller language than the syntax tree: comparisons, sums and products are
one kind of node, every access is a node of its own, an assignment is a node for what it writes and
where, and a list literal may own a cell that keeps its list from one evaluation to the next.
-/

namespace TableScript

/-- A place in the store that keeps the list of a literal. -/
structure CellRef where
  index : Nat
deriving DecidableEq, Repr

mutual

/-- Code that yields a value. -/
inductive Code where
  | const (value : Value)
  | load (name : String)
  | list (cell : Option CellRef) (elements : List Code)
  | table (entries : List CodeEntry)
  | function (name : Option String) (params : List String) (body : List Step)
  | unary (op : UnaryOp) (operand : Code)
  | or (operands : List Code)
  | and (operands : List Code)
  /-- Operators of one level with their right operands, applied from the left. -/
  | fold (first : Code) (rest : List (BinaryOp × Code))
  | index (container index : Code)
  | member (container : Code) (name : String)
  | call (callee : Code) (args : List Code)
  | store (name : String) (value : Code)
  | update (op : AddOp) (name : String) (value : Code)
  | storeGlobal (name : String) (value : Code)
  | storeIndex (container index value : Code)
  | updateIndex (op : AddOp) (container index value : Code)
  | storeMember (container : Code) (name : String) (value : Code)
  | updateMember (op : AddOp) (container : Code) (name : String) (value : Code)
  | flow (flow : Flow)

/-- An entry of a table literal, its key known beforehand or computed. -/
inductive CodeEntry where
  | fixed (key : Key) (value : Code)
  | computed (key value : Code)

/-- Code that yields a value and a signal. -/
inductive Flow where
  | nothing
  | block (body : List Step)
  | branch (condition : Code) (body : List Step) (otherwise : Flow)
  | while (condition : Code) (body : List Step)
  | loop (body : List Step)
  | forIn (value : String) (key : Option String) (items : Code) (body : List Step)
  | forOf (counter : String) (start stop step : Code) (body : List Step)
  | return (value : Code)
  | continue
  | break

/-- A statement. -/
inductive Step where
  | value (code : Code)
  | flow (flow : Flow)

end

end TableScript
