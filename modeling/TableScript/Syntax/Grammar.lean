import TableScript.Number.Reading
import TableScript.Syntax.Expr
import TableScript.Syntax.Rule

/-!
The grammar of scripts by recursive descent. Rules do not call themselves: each takes the rules for
what is nested one level deeper, and nesting ends at a fixed depth. Levels of precedence, from loose
to tight, are assignment, `or`, `and`, comparison, sums, products, prefix operators and access to
parts.
-/

namespace TableScript

/-- The rules for what stands one level deeper. The flag of an expression tells whether it has to be
there. -/
structure Nested where
  expr : Bool → Rule Expr
  operand : Rule Expr

namespace Grammar

open Rule

/-- What an operator of the given keyword joins, as one flat node. -/
def logical (keyword : Keyword) (operand : Bool → Rule Expr) (complaint : Complaint)
    (node : Expr → List Expr → Expr) (required : Bool) : Rule Expr := do
  let first ← operand required
  let rest ← many (after (.keyword keyword) (because complaint (operand true)))
  return if rest.isEmpty then first else node first rest

/-- An operator of one level, and the operand after it. -/
def operation {ω : Type} (operator? : Kind → Option ω) (operand : Bool → Rule Expr)
    (complaint : Complaint) : Rule (Option (ω × Expr)) := do
  match (← peekKind).bind operator? with
  | some op =>
    advance
    return some (op, ← because complaint (operand true))
  | none => return none

/-- What the operators of one level join, as one flat node. -/
def binary {ω : Type} (operator? : Kind → Option ω) (operand : Bool → Rule Expr)
    (complaint : Complaint) (node : Expr → List (ω × Expr) → Expr) (required : Bool) :
    Rule Expr := do
  let first ← operand required
  let rest ← many (operation operator? operand complaint)
  return if rest.isEmpty then first else node first rest

def compareOp? : Kind → Option CompareOp
  | .symbol .equal => some .equal
  | .symbol .notEqual => some .notEqual
  | .symbol .less => some .less
  | .symbol .lessEqual => some .lessEqual
  | .symbol .greater => some .greater
  | .symbol .greaterEqual => some .greaterEqual
  | _ => none

def addOp? : Kind → Option AddOp
  | .symbol .plus => some .add
  | .symbol .minus => some .sub
  | _ => none

def mulOp? : Kind → Option MulOp
  | .symbol .star => some .mul
  | .symbol .slash => some .div
  | .symbol .power => some .pow
  | .symbol .floorSlash => some .floorDiv
  | .symbol .percent => some .mod
  | _ => none

def unaryOp? : Kind → Option UnaryOp
  | .symbol .minus => some .negate
  | .keyword .not => some .not
  | _ => none

variable (deeper : Nested)

/-- Statements up to the first token that starts none. -/
def statements : Rule Block :=
  many (optional (deeper.expr false))

/-- Statements in braces. -/
def block (construct : Construct) : Rule Block := do
  expect (.symbol .leftBrace) (.blockOpen construct)
  let body ← statements deeper
  expect (.symbol .rightBrace) (.blockClose construct)
  return body

/-- The condition after a keyword. -/
def condition (keyword : String) (construct : Construct) : Rule Expr :=
  because (.condition keyword construct) (deeper.expr true)

/-- A condition and the block it guards. -/
def branch (keyword : String) : Rule (Expr × Block) := do
  let condition ← condition deeper keyword .cond
  return (condition, ← block deeper .cond)

/-- `if a { } elif b { } else { }`, after its first keyword. -/
def cond : Rule Control := do
  let first ← branch deeper "if"
  let rest ← many (after (.keyword .elif) (branch deeper "elif"))
  let otherwise ← after (.keyword .else) (block deeper .cond)
  return .cond (first :: rest) otherwise

/-- `while a { }`, after its keyword. -/
def whileLoop : Rule Control := do
  let condition ← condition deeper "while" .while
  return .while condition (← block deeper .while)

/-- `for v, k in items { }` or `for i of start..stop..step { }`, after its keyword. -/
def forLoop : Rule Control := do
  let value ← name .forName
  let key ← after (.symbol .comma) (name .forKey)
  if ← accept (.keyword .in) then
    let items ← because .forItems (deeper.expr true)
    return .forIn value key items (← block deeper .for)
  expect (.keyword .of) .forKeyword
  if key.isSome then
    reject .forSingle
  let start ← because .forStart (deeper.expr true)
  expect (.symbol .dotDot) .forDots
  let stop ← because .forStop (deeper.expr true)
  let step ← after (.symbol .dotDot) (because .forStep (deeper.expr true))
  return .forOf value start stop step (← block deeper .for)

/-- `return` or `return: e`, after its keyword. -/
def returnValue : Rule Control := do
  return .return (← after (.symbol .colon) (because .returnValue (deeper.expr true)))

/-- Control flow, if the next token starts any. -/
def control? : Rule (Option Control) := do
  match ← peekKind with
  | some (.keyword .if) => advance; return some (← cond deeper)
  | some (.keyword .while) => advance; return some (← whileLoop deeper)
  | some (.keyword .loop) => advance; return some (.loop (← block deeper .loop))
  | some (.keyword .for) => advance; return some (← forLoop deeper)
  | some (.keyword .return) => advance; return some (← returnValue deeper)
  | some (.keyword .continue) => advance; return some .continue
  | some (.keyword .break) => advance; return some .break
  | some (.keyword .require) => reject .requireUnsupported
  | _ => return none

/-- `func f(a, b) { }`, after its keyword. The name may be left out. -/
def function : Rule Expr := do
  let name ← name?
  expect (.symbol .leftParen) .funcOpen
  let params ← match ← name? with
    | none => pure []
    | some first =>
      let rest ← many (after (.symbol .comma) (Rule.name .funcParam))
      pure (first :: rest)
  expect (.symbol .rightParen) .funcClose
  return .function name params (← block deeper .func)

/-- Expressions with commas between them, if there is a first one. -/
def elements? (construct : Construct) : Rule (Option (List Expr)) := do
  match ← optional (deeper.expr false) with
  | none => return none
  | some first =>
    let next := because (.nextElement construct) (deeper.expr true)
    let rest ← many (after (.symbol .comma) next)
    return some (first :: rest)

/-- `[a, b]`, after its bracket. -/
def list : Rule Expr := do
  let elements ← elements? deeper .list
  expect (.symbol .rightBracket) (if elements.isSome then .listClose else .listElement)
  return .list (elements.getD [])

/-- A token that is a value by itself, if the next one is. -/
def literal? : Rule (Option Expr) := do
  match ← peek with
  | none => return none
  | some token =>
    match token.kind with
    | .keyword .null => advance; return some .null
    | .keyword .true => advance; return some (.bool true)
    | .keyword .false => advance; return some (.bool false)
    | .identifier => advance; return some (.name token.textD)
    | .string => advance; return some (.string token.textD)
    | .number =>
      match Number.ofText? token.textD with
      | some value => advance; return some (.number value)
      | none => reject (.invalidNumber token.textD)
    | _ => return none

/-- What follows the key of an entry. -/
def entryValue : Rule Expr := do
  expect (.symbol .colon) .tableColon
  because .tableValue (deeper.expr true)

/-- `name: e`, `"text": e`, `1: e` or `[e]: e`. -/
def entry : Rule Entry := do
  match ← peek with
  | none => reject .tableKey
  | some token =>
    match token.kind with
    | .identifier =>
      advance
      return .named token.textD (← entryValue deeper)
    | .string | .number =>
      match ← literal? with
      | some key => return .computed key (← entryValue deeper)
      | none => reject .tableKey
    | .symbol .leftBracket =>
      advance
      let key ← because .keyValue (deeper.expr true)
      expect (.symbol .rightBracket) .keyClose
      return .computed key (← entryValue deeper)
    | _ => reject .tableKey

/-- The entry after a comma. A comma before the closing brace has none. -/
def entryAfterComma : Rule (Option Entry) := do
  if ← accept (.symbol .comma) then
    if (← peekKind) = some (.symbol .rightBrace) then
      return none
    else
      return some (← entry deeper)
  else
    return none

/-- A table in braces, after the left one. -/
def table : Rule Expr := do
  if ← accept (.symbol .rightBrace) then
    return .table []
  else
    let first ← entry deeper
    let rest ← many (entryAfterComma deeper)
    expect (.symbol .rightBrace) .tableClose
    return .table (first :: rest)

/-- An expression in parentheses, after the left one. It leaves no node of its own. -/
def quote : Rule Expr := do
  let inner ← because .quoteValue (deeper.expr true)
  expect (.symbol .rightParen) .quoteClose
  return inner

/-- A literal, a list, a table, an expression in parentheses or a function. -/
def value (required : Bool) : Rule Expr := do
  match ← literal? with
  | some literal => return literal
  | none =>
    match ← peekKind with
    | some (.symbol .leftBracket) => advance; list deeper
    | some (.symbol .leftBrace) => advance; table deeper
    | some (.symbol .leftParen) => advance; quote deeper
    | some (.keyword .func) => advance; function deeper
    | _ => noMatch required

/-- Whether the next token is on the line of the one before. A bracket or parenthesis on a new line
starts a statement instead of continuing the last one. -/
def onSameLine : Rule Bool := do
  let cursor ← get
  return match cursor.rest.head? with
    | some token => cursor.line = some token.span.line
    | none => false

/-- `[e]`, `.name` or `(a, b)`, if the next token starts any. -/
def accessor? : Rule (Option Accessor) := do
  match ← peekKind with
  | some (.symbol .leftBracket) =>
    if ← onSameLine then
      advance
      let index ← because .indexValue (deeper.expr true)
      expect (.symbol .rightBracket) .indexClose
      return some (.index index)
    else
      return none
  | some (.symbol .dot) =>
    advance
    return some (.member (← name .memberName))
  | some (.symbol .leftParen) =>
    if ← onSameLine then
      advance
      let args ← elements? deeper .call
      expect (.symbol .rightParen) .callClose
      return some (.call (args.getD []))
    else
      return none
  | _ => return none

/-- A value and the accesses to its parts. -/
def access (required : Bool) : Rule Expr := do
  let target ← value deeper required
  let chain ← many (accessor? deeper)
  return if chain.isEmpty then target else .access target chain

/-- Control flow, or a value. -/
def primary (required : Bool) : Rule Expr := do
  match ← control? deeper with
  | some control => return .control control
  | none => access deeper required

/-- A prefix operator with its operand, or what binds tighter. -/
def unary (required : Bool) : Rule Expr := do
  match (← peekKind).bind unaryOp? with
  | some op =>
    advance
    return .unary op (← because .unaryOperand deeper.operand)
  | none => primary deeper required

def mul (required : Bool) : Rule Expr :=
  binary mulOp? (unary deeper) .mulOperand .mul required

def add (required : Bool) : Rule Expr :=
  binary addOp? (mul deeper) .addOperand .add required

def compare (required : Bool) : Rule Expr :=
  binary compareOp? (add deeper) .compareOperand .compare required

def and (required : Bool) : Rule Expr :=
  logical .and (compare deeper) .andOperand .and required

def or (required : Bool) : Rule Expr :=
  logical .or (and deeper) .orOperand .or required

/-- `global x = e`, after its keyword. -/
def global : Rule Expr := do
  let name ← name .globalName
  expect (.symbol .assign) .globalAssign
  return .global name (← because .globalValue (deeper.expr true))

/-- What makes the expression before it the target of an assignment, if the next token does. -/
def update? : Rule (Option Update) := do
  let value := because .assignValue (deeper.expr true)
  match ← peekKind with
  | some (.symbol .assign) => advance; return some (.set (← value))
  | some (.symbol .addAssign) => advance; return some (.addTo (← value))
  | some (.symbol .subAssign) => advance; return some (.subFrom (← value))
  | some (.symbol .increment) => advance; return some .increment
  | some (.symbol .decrement) => advance; return some .decrement
  | _ => return none

/-- The target that an expression is: a name, or the part of a value that its last access leads to. -/
def target? : Expr → Option Target
  | .name name => some (.name name)
  | .access target chain =>
    let container := match chain.dropLast with
      | [] => target
      | before => .access target before
    match chain.getLast? with
    | some (.index index) => some (.index container index)
    | some (.member name) => some (.member container name)
    | _ => none
  | _ => none

/-- A statement or an expression. Control flow at its front takes no operators after it. -/
def expr (required : Bool) : Rule Expr := do
  if ← accept (.keyword .global) then
    global deeper
  else
    match ← control? deeper with
    | some control => return .control control
    | none =>
      let span ← peekSpan
      let left ← or deeper required
      match ← update? deeper with
      | none => return left
      | some update =>
        match target? left with
        | some target => return .assign target update
        | none => throw ((Rejection.noMatch span).final.because .assignTarget)

/-- Fails because the limit of nesting is reached. -/
def tooDeep (construct : Construct) : Rule Expr := do
  throw ((Rejection.noMatch (← peekSpan)).final.because (.nestedTooDeeply construct))

/-- The rules with a number of levels still allowed. -/
def nested : Nat → Nested
  | 0 => { expr := fun _ => tooDeep .expression, operand := tooDeep .unary }
  | levels + 1 => { expr := expr (nested levels), operand := unary (nested levels) true }

/-- How many levels of expressions a program may have. -/
def maxDepth : Nat := 64

end Grammar

end TableScript
