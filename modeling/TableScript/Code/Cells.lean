import TableScript.Code.Basic

/-!
Cells for list literals. Each literal in a piece of code gets a cell of its own, numbered from the
first free one; literals among its elements come before it, as they are completed before it.
-/

namespace TableScript

/-- Numbering with the next free cell as its state. -/
abbrev Numbering := StateM Nat

/-- A cell that no other literal has. -/
def Numbering.fresh : Numbering CellRef :=
  modifyGet fun next => (⟨next⟩, next + 1)

mutual

def Code.number : Code → Numbering Code
  | .const value => return .const value
  | .load name => return .load name
  | .list _ elements => do
    let elements ← numberAll elements
    return .list (some (← Numbering.fresh)) elements
  | .table entries => return .table (← numberEntries entries)
  | .function name params body => return .function name params (← numberSteps body)
  | .unary op operand => return .unary op (← operand.number)
  | .or operands => return .or (← numberAll operands)
  | .and operands => return .and (← numberAll operands)
  | .fold first rest => return .fold (← first.number) (← numberRest rest)
  | .index container index => return .index (← container.number) (← index.number)
  | .member container name => return .member (← container.number) name
  | .call callee args => return .call (← callee.number) (← numberAll args)
  | .store name value => return .store name (← value.number)
  | .update op name value => return .update op name (← value.number)
  | .storeGlobal name value => return .storeGlobal name (← value.number)
  | .storeIndex container index value =>
    return .storeIndex (← container.number) (← index.number) (← value.number)
  | .updateIndex op container index value =>
    return .updateIndex op (← container.number) (← index.number) (← value.number)
  | .storeMember container name value =>
    return .storeMember (← container.number) name (← value.number)
  | .updateMember op container name value =>
    return .updateMember op (← container.number) name (← value.number)
  | .flow flow => return .flow (← flow.number)

def Flow.number : Flow → Numbering Flow
  | .nothing => return .nothing
  | .block body => return .block (← numberSteps body)
  | .branch condition body otherwise =>
    return .branch (← condition.number) (← numberSteps body) (← otherwise.number)
  | .while condition body => return .while (← condition.number) (← numberSteps body)
  | .loop body => return .loop (← numberSteps body)
  | .forIn value key items body =>
    return .forIn value key (← items.number) (← numberSteps body)
  | .forOf counter start stop step body =>
    return .forOf counter (← start.number) (← stop.number) (← step.number) (← numberSteps body)
  | .return value => return .return (← value.number)
  | .continue => return .continue
  | .break => return .break

def numberAll : List Code → Numbering (List Code)
  | [] => return []
  | code :: codes => return (← code.number) :: (← numberAll codes)

def numberRest : List (BinaryOp × Code) → Numbering (List (BinaryOp × Code))
  | [] => return []
  | (op, code) :: rest => return (op, ← code.number) :: (← numberRest rest)

def numberEntries : List CodeEntry → Numbering (List CodeEntry)
  | [] => return []
  | .fixed key value :: entries => return .fixed key (← value.number) :: (← numberEntries entries)
  | .computed key value :: entries =>
    return .computed (← key.number) (← value.number) :: (← numberEntries entries)

def numberSteps : List Step → Numbering (List Step)
  | [] => return []
  | .value code :: steps => return .value (← code.number) :: (← numberSteps steps)
  | .flow flow :: steps => return .flow (← flow.number) :: (← numberSteps steps)

end

end TableScript
