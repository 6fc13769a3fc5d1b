import TableScript.Code.Basic
import TableScript.Syntax.Expr

/-!
From syntax trees to code. Flat operator nodes stay flat, and a compound assignment stays one; a
chain of accesses becomes nested nodes, and a conditional a chain of branches. No part of the tree is
copied, so each list literal is one node of the code.
-/

namespace TableScript

/-- Code that writes back what an update computes: `store` for a plain assignment, `modify` for one
that reads its target first. -/
inductive CodeUpdate where
  | store (value : Code)
  | modify (op : AddOp) (value : Code)

/-- The code of an assignment to a name. -/
def CodeUpdate.toName (name : String) : CodeUpdate → Code
  | .store value => .store name value
  | .modify op value => .update op name value

/-- The code of an assignment to a position of a container. -/
def CodeUpdate.toIndex (container index : Code) : CodeUpdate → Code
  | .store value => .storeIndex container index value
  | .modify op value => .updateIndex op container index value

/-- The code of an assignment to a member of a container. -/
def CodeUpdate.toMember (container : Code) (name : String) : CodeUpdate → Code
  | .store value => .storeMember container name value
  | .modify op value => .updateMember op container name value

/-- The number by which `++` and `--` move. -/
def Code.one : Code :=
  .const (.number 1.0)

mutual

def Expr.compile : Expr → Code
  | .null => .const .null
  | .bool value => .const (.bool value)
  | .number value => .const (.number value)
  | .string text => .const (.string text)
  | .name name => .load name
  | .list elements => .list none (compileAll elements)
  | .table entries => .table (compileEntries entries)
  | .function name params body => .function name params (compileBlock body)
  | .unary op operand => .unary op operand.compile
  | .or first rest => .or (first.compile :: compileAll rest)
  | .and first rest => .and (first.compile :: compileAll rest)
  | .compare first rest => .fold first.compile (compileCompare rest)
  | .add first rest => .fold first.compile (compileAdd rest)
  | .mul first rest => .fold first.compile (compileMul rest)
  | .access target chain => compileChain target.compile chain
  | .assign target update => target.compile update.compile
  | .global name value => .storeGlobal name value.compile
  | .control control => .flow control.compile

def Control.compile : Control → Flow
  | .cond branches otherwise => compileBranches (compileOtherwise otherwise) branches
  | .while condition body => .while condition.compile (compileBlock body)
  | .loop body => .loop (compileBlock body)
  | .forIn value key items body => .forIn value key items.compile (compileBlock body)
  | .forOf counter start stop step body =>
    .forOf counter start.compile stop.compile (compileOr? .one step) (compileBlock body)
  | .return value => .return (compileOr? (.const .null) value)
  | .continue => .continue
  | .break => .break

def Target.compile (update : CodeUpdate) : Target → Code
  | .name name => update.toName name
  | .index container index => update.toIndex container.compile index.compile
  | .member container name => update.toMember container.compile name

def Update.compile : Update → CodeUpdate
  | .set value => .store value.compile
  | .addTo value => .modify .add value.compile
  | .subFrom value => .modify .sub value.compile
  | .increment => .modify .add .one
  | .decrement => .modify .sub .one

def compileAll : List Expr → List Code
  | [] => []
  | e :: es => e.compile :: compileAll es

def compileEntries : List Entry → List CodeEntry
  | [] => []
  | .named name value :: entries => .fixed (.string name) value.compile :: compileEntries entries
  | .computed key value :: entries => .computed key.compile value.compile :: compileEntries entries

def compileCompare : List (CompareOp × Expr) → List (BinaryOp × Code)
  | [] => []
  | (op, e) :: es => (.compare op, e.compile) :: compileCompare es

def compileAdd : List (AddOp × Expr) → List (BinaryOp × Code)
  | [] => []
  | (op, e) :: es => (.add op, e.compile) :: compileAdd es

def compileMul : List (MulOp × Expr) → List (BinaryOp × Code)
  | [] => []
  | (op, e) :: es => (.mul op, e.compile) :: compileMul es

def compileChain (target : Code) : List Accessor → Code
  | [] => target
  | .index index :: chain => compileChain (.index target index.compile) chain
  | .member name :: chain => compileChain (.member target name) chain
  | .call args :: chain => compileChain (.call target (compileAll args)) chain

/-- The code of a part that may be left out. -/
def compileOr? (absent : Code) : Option Expr → Code
  | none => absent
  | some e => e.compile

def compileOtherwise : Option (List Expr) → Flow
  | none => .nothing
  | some body => .block (compileBlock body)

def compileBranches (otherwise : Flow) : List (Expr × List Expr) → Flow
  | [] => otherwise
  | (condition, body) :: branches =>
    .branch condition.compile (compileBlock body) (compileBranches otherwise branches)

def compileBlock : List Expr → List Step
  | [] => []
  | .control control :: statements => .flow control.compile :: compileBlock statements
  | e :: statements => .value e.compile :: compileBlock statements

end

end TableScript
