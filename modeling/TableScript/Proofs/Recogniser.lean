import TableScript.Syntax.Program

/-!
The grammar as a machine. A recogniser moves a cursor over fixed tokens and counts how deep its
rules are nested. Failure leaves both as they are at that moment, so each rule has to undo by itself
what it has done. A loop that takes more rounds than it may, and a call for which there is no room,
have no outcome at all.
-/

namespace TableScript

/-- Where a recogniser stands: how many tokens it has passed, and how deep its rules are nested. -/
structure Standing where
  cursor : Nat
  depth : Nat
deriving DecidableEq, Repr

abbrev Recogniser (α : Type) :=
  ReaderT (List Token) (ExceptT Rejection (StateT Standing Option)) α

namespace Recogniser

variable {α : Type}

/-! ### Moves -/

def peek : Recogniser (Option Token) := do
  return (← read)[(← get).cursor]?

def peekKind : Recogniser (Option Kind) := do
  return (← peek).map (·.kind)

def peekSpan : Recogniser (Option Span) := do
  return (← peek).map (·.span)

/-- Moves the cursor, also where no token is left. -/
def advance : Recogniser Unit :=
  modify fun s => { s with cursor := s.cursor + 1 }

def noMatch (required : Bool) : Recogniser α := do
  throw ((Rejection.noMatch (← peekSpan)).demanded required)

def reject (complaint : Complaint) : Recogniser α := do
  throw ((Rejection.noMatch (← peekSpan)).because complaint)

/-- Fails for good at a place before the cursor, which no further tokens can mend. -/
def rejectAt (span : Option Span) (complaint : Complaint) : Recogniser α :=
  throw ((Rejection.noMatch span).final.because complaint)

/-- Puts the cursor back if the recogniser fails. -/
def attempt (m : Recogniser α) : Recogniser α := fun tokens s =>
  match m tokens s with
  | some (.error rejection, s') => some (.error rejection, { s' with cursor := s.cursor })
  | outcome => outcome

/-- Runs a recogniser one level deeper, unless the limit of nesting is reached. -/
def nested (construct : Construct) (m : Recogniser α) : Recogniser α := fun tokens s =>
  if Grammar.maxDepth ≤ s.depth then
    (peekSpan >>= fun span => rejectAt span (.nestedTooDeeply construct)) tokens s
  else
    match m tokens { s with depth := s.depth + 1 } with
    | some (result, s') => some (result, { s' with depth := s'.depth - 1 })
    | none => none

/-- Tries a recogniser that need not match. -/
def optional (m : Bool → Recogniser α) : Recogniser (Option α) := fun tokens s =>
  match attempt (m false) tokens s with
  | some (.ok x, s') => some (.ok (some x), s')
  | some (.error rejection, s') =>
    if rejection.committed then some (.error rejection, s') else some (.ok none, s')
  | none => none

/-- Gives a reason for a failure. -/
def because (complaint : Complaint) (m : Recogniser α) : Recogniser α := fun tokens s =>
  match m tokens s with
  | some (.error rejection, s') => some (.error (rejection.because complaint), s')
  | outcome => outcome

/-- Takes the next token if it is of the given kind. -/
def token (kind : Kind) (required : Bool) : Recogniser Token := do
  match ← peek with
  | some token =>
    if token.kind = kind then
      advance
      return token
    else
      noMatch required
  | none => noMatch required

/-- Whether the next token was of the given kind and is taken. -/
def taken (kind : Kind) : Recogniser Bool := fun tokens s =>
  match token kind false tokens s with
  | some (.ok _, s') => some (.ok true, s')
  | some (.error _, s') => some (.ok false, s')
  | none => none

def expect (kind : Kind) (complaint : Complaint) : Recogniser Unit := do
  let _ ← because complaint (token kind true)

def identifier (required : Bool) : Recogniser String := do
  return (← token .identifier required).textD

def name (complaint : Complaint) : Recogniser String :=
  because complaint (identifier true)

def after (kind : Kind) (m : Recogniser α) : Recogniser (Option α) := do
  if ← taken kind then
    return some (← m)
  else
    return none

/-! ### Loops -/

/-- Some limit is exceeded. -/
def exhausted : Recogniser α := fun _ _ => none

/-- Runs a recogniser again and again until it finds nothing. -/
def many (rounds : Nat) (item : Recogniser (Option α)) : Recogniser (List α) :=
  match rounds with
  | 0 => exhausted
  | rounds + 1 => do
    match ← item with
    | none => return []
    | some first => return first :: (← many rounds item)

/-- Operands with the same keyword between them, the first of which has to be there. -/
def operands (rounds : Nat) (keyword : Keyword) (operand : Recogniser Expr) :
    Recogniser (List Expr) :=
  match rounds with
  | 0 => exhausted
  | rounds + 1 => do
    let first ← operand
    if ← taken (.keyword keyword) then
      return first :: (← operands rounds keyword operand)
    else
      return [first]

/-- Entries of a table up to its closing brace, before which there may be a comma. -/
def entries (rounds : Nat) (entry : Recogniser Entry) : Recogniser (List Entry) :=
  match rounds with
  | 0 => exhausted
  | rounds + 1 => do
    let first ← entry
    if ← taken (.symbol .comma) then
      if ← taken (.symbol .rightBrace) then
        return [first]
      else
        return first :: (← entries rounds entry)
    else
      expect (.symbol .rightBrace) .tableClose
      return [first]

/-! ### Operators -/

def logicalTail (rounds : Nat) (keyword : Keyword) (operand : Bool → Recogniser Expr)
    (complaint : Complaint) (required : Bool) : Recogniser (List Expr) :=
  attempt do
    let _ ← token (.keyword keyword) required
    operands rounds keyword (because complaint (operand true))

def logical (rounds : Nat) (keyword : Keyword) (operand : Bool → Recogniser Expr)
    (complaint : Complaint) (node : Expr → List Expr → Expr) (required : Bool) : Recogniser Expr :=
  attempt do
    let first ← operand required
    let rest := (← optional (logicalTail rounds keyword operand complaint)).getD []
    return if rest.isEmpty then first else node first rest

def operation {ω : Type} (operator? : Kind → Option ω) (operand : Bool → Recogniser Expr)
    (complaint : Complaint) : Recogniser (Option (ω × Expr)) := do
  match (← peekKind).bind operator? with
  | some op =>
    advance
    return some (op, ← because complaint (operand true))
  | none => return none

def binaryTail {ω : Type} (rounds : Nat) (operator? : Kind → Option ω)
    (operand : Bool → Recogniser Expr) (complaint : Complaint) (required : Bool) :
    Recogniser (List (ω × Expr)) :=
  attempt do
    let tail ← many rounds (operation operator? operand complaint)
    if tail.isEmpty then
      noMatch required
    else
      return tail

def binary {ω : Type} (rounds : Nat) (operator? : Kind → Option ω)
    (operand : Bool → Recogniser Expr) (complaint : Complaint)
    (node : Expr → List (ω × Expr) → Expr) (required : Bool) : Recogniser Expr :=
  attempt do
    let first ← operand required
    let rest := (← optional (binaryTail rounds operator? operand complaint)).getD []
    return if rest.isEmpty then first else node first rest

/-- The recognisers that are called one level deeper, and how many rounds a loop may take. -/
structure Callees where
  rounds : Nat
  expr : Bool → Recogniser Expr
  operand : Recogniser Expr

variable (callees : Callees)

/-! ### Blocks and control flow -/

def statements : Recogniser Block :=
  many callees.rounds (optional callees.expr)

def block (construct : Construct) : Recogniser Block :=
  attempt do
    expect (.symbol .leftBrace) (.blockOpen construct)
    let body ← statements callees
    expect (.symbol .rightBrace) (.blockClose construct)
    return body

def condition (keyword : String) (construct : Construct) : Recogniser Expr :=
  because (.condition keyword construct) (callees.expr true)

def branch (keyword : String) : Recogniser (Expr × Block) := do
  let condition ← condition callees keyword .cond
  return (condition, ← block callees .cond)

def cond : Recogniser Control :=
  attempt do
    let _ ← token (.keyword .if) true
    let first ← branch callees "if"
    let rest ← many callees.rounds (after (.keyword .elif) (branch callees "elif"))
    let otherwise ← after (.keyword .else) (block callees .cond)
    return .cond (first :: rest) otherwise

def whileLoop : Recogniser Control :=
  attempt do
    let _ ← token (.keyword .while) true
    let condition ← condition callees "while" .while
    return .while condition (← block callees .while)

def endlessLoop : Recogniser Control :=
  attempt do
    let _ ← token (.keyword .loop) true
    return .loop (← block callees .loop)

def forLoop : Recogniser Control :=
  attempt do
    let _ ← token (.keyword .for) true
    let value ← name .forName
    let key ← after (.symbol .comma) (name .forKey)
    if ← taken (.keyword .in) then
      let items ← because .forItems (callees.expr true)
      return .forIn value key items (← block callees .for)
    expect (.keyword .of) .forKeyword
    if key.isSome then
      reject .forSingle
    let start ← because .forStart (callees.expr true)
    expect (.symbol .dotDot) .forDots
    let stop ← because .forStop (callees.expr true)
    let step ← after (.symbol .dotDot) (because .forStep (callees.expr true))
    return .forOf value start stop step (← block callees .for)

def returnValue : Recogniser Control :=
  attempt do
    let _ ← token (.keyword .return) true
    return .return (← after (.symbol .colon) (because .returnValue (callees.expr true)))

def control (required : Bool) : Recogniser Control := do
  match ← peekKind with
  | some (.keyword .if) => cond callees
  | some (.keyword .while) => whileLoop callees
  | some (.keyword .loop) => endlessLoop callees
  | some (.keyword .for) => forLoop callees
  | some (.keyword .return) => returnValue callees
  | some (.keyword .continue) => advance; return .continue
  | some (.keyword .break) => advance; return .break
  | some (.keyword .require) => reject .requireUnsupported
  | _ => noMatch required

/-! ### Values -/

def function : Recogniser Expr :=
  attempt do
    let _ ← token (.keyword .func) true
    let name ← optional identifier
    expect (.symbol .leftParen) .funcOpen
    let params ← match ← optional identifier with
      | none => pure []
      | some first =>
        let rest ← many callees.rounds (after (.symbol .comma) (Recogniser.name .funcParam))
        pure (first :: rest)
    expect (.symbol .rightParen) .funcClose
    return .function name params (← block callees .func)

/-- The expressions after the first one, with a comma before each. -/
def others (construct : Construct) : Recogniser (List Expr) :=
  many callees.rounds <|
    after (.symbol .comma) (because (.nextElement construct) (callees.expr true))

def elements (construct : Construct) (required : Bool) : Recogniser (List Expr) :=
  attempt do
    let first ← callees.expr required
    return first :: (← others callees construct)

def list : Recogniser Expr :=
  attempt do
    let _ ← token (.symbol .leftBracket) true
    let elements ← optional (elements callees .list)
    expect (.symbol .rightBracket) (if elements.isSome then .listClose else .listElement)
    return .list (elements.getD [])

def quote : Recogniser Expr :=
  attempt do
    let _ ← token (.symbol .leftParen) true
    let inner ← because .quoteValue (callees.expr true)
    expect (.symbol .rightParen) .quoteClose
    return inner

/-- A token that is a value by itself, taken if the next one is. -/
def literal? : Recogniser (Option Expr) := do
  match ← peek with
  | none => return none
  | some token =>
    match token.kind with
    | .keyword .null => advance; return some .null
    | .keyword .true => advance; return some (.bool true)
    | .keyword .false => advance; return some (.bool false)
    | .identifier => advance; return some (.name token.textD)
    | .string => advance; return some (.string token.textD)
    | .number =>
      match Number.ofText? token.textD with
      | some value => advance; return some (.number value)
      | none => reject (.invalidNumber token.textD)
    | _ => return none

def entryValue : Recogniser Expr := do
  expect (.symbol .colon) .tableColon
  because .tableValue (callees.expr true)

/-- An entry of a table. Its key is taken without a way back. -/
def entry : Recogniser Entry := do
  match ← peek with
  | none => reject .tableKey
  | some token =>
    match token.kind with
    | .identifier =>
      advance
      return .named token.textD (← entryValue callees)
    | .string | .number =>
      match ← literal? with
      | some key => return .computed key (← entryValue callees)
      | none => reject .tableKey
    | .symbol .leftBracket =>
      advance
      let key ← because .keyValue (callees.expr true)
      expect (.symbol .rightBracket) .keyClose
      return .computed key (← entryValue callees)
    | _ => reject .tableKey

def table : Recogniser Expr :=
  attempt do
    let _ ← token (.symbol .leftBrace) true
    if ← taken (.symbol .rightBrace) then
      return .table []
    else
      return .table (← entries callees.rounds (entry callees))

def value (required : Bool) : Recogniser Expr := do
  match ← literal? with
  | some literal => return literal
  | none =>
    match ← peekKind with
    | some (.symbol .leftBracket) => list callees
    | some (.symbol .leftBrace) => table callees
    | some (.symbol .leftParen) => quote callees
    | some (.keyword .func) => function callees
    | _ => noMatch required

/-! ### Access to parts -/

/-- Whether the next token may continue the value before it: a bracket or parenthesis has to be on
the line of the token before. -/
def continuesLine : Recogniser Bool := do
  match ← peek with
  | none => return false
  | some token =>
    if token.kind = .symbol .leftBracket ∨ token.kind = .symbol .leftParen then
      let tokens ← read
      return match (← get).cursor with
        | 0 => false
        | before + 1 => tokens[before]?.any fun previous => previous.span.line = token.span.line
    else
      return true

/-- `[e]`, `.name` or `(a, b)`. -/
def part (required : Bool) : Recogniser Accessor := do
  match ← peekKind with
  | some (.symbol .leftBracket) =>
    advance
    let index ← because .indexValue (callees.expr true)
    expect (.symbol .rightBracket) .indexClose
    return .index index
  | some (.symbol .dot) =>
    advance
    return .member (← name .memberName)
  | some (.symbol .leftParen) =>
    advance
    let args := (← optional (elements callees .call)).getD []
    expect (.symbol .rightParen) .callClose
    return .call args
  | _ => noMatch required

def accessor (required : Bool) : Recogniser Accessor := do
  if ← continuesLine then
    attempt (part callees required)
  else
    noMatch required

def accessors : Recogniser (List Accessor) :=
  many callees.rounds (optional (accessor callees))

def access (required : Bool) : Recogniser Expr :=
  attempt do
    let target ← value callees required
    let chain ← accessors callees
    return if chain.isEmpty then target else .access target chain

/-! ### Levels of expressions -/

def primary (required : Bool) : Recogniser Expr := do
  match ← optional (control callees) with
  | some control => return .control control
  | none => access callees required

def unary (required : Bool) : Recogniser Expr :=
  attempt do
    match (← peekKind).bind Grammar.unaryOp? with
    | some op =>
      advance
      return .unary op (← because .unaryOperand callees.operand)
    | none => primary callees required

def mul (required : Bool) : Recogniser Expr :=
  binary callees.rounds Grammar.mulOp? (unary callees) .mulOperand .mul required

def add (required : Bool) : Recogniser Expr :=
  binary callees.rounds Grammar.addOp? (mul callees) .addOperand .add required

def compare (required : Bool) : Recogniser Expr :=
  binary callees.rounds Grammar.compareOp? (add callees) .compareOperand .compare required

def and (required : Bool) : Recogniser Expr :=
  logical callees.rounds .and (compare callees) .andOperand .and required

def or (required : Bool) : Recogniser Expr :=
  logical callees.rounds .or (and callees) .orOperand .or required

/-- `global x = e`, taken without a way back. -/
def global : Recogniser Expr := do
  let _ ← token (.keyword .global) true
  let name ← name .globalName
  expect (.symbol .assign) .globalAssign
  return .global name (← because .globalValue (callees.expr true))

def update (required : Bool) : Recogniser Update :=
  let value := because .assignValue (callees.expr true)
  attempt do
    match ← peekKind with
    | some (.symbol .assign) => advance; return .set (← value)
    | some (.symbol .addAssign) => advance; return .addTo (← value)
    | some (.symbol .subAssign) => advance; return .subFrom (← value)
    | some (.symbol .increment) => advance; return .increment
    | some (.symbol .decrement) => advance; return .decrement
    | _ => noMatch required

/-- An expression or a statement, already one level deeper. -/
def inner (required : Bool) : Recogniser Expr :=
  attempt do
    if (← peekKind) = some (.keyword .global) then
      global callees
    else
      match ← optional (control callees) with
      | some control => return .control control
      | none =>
        let span ← peekSpan
        let left ← or callees required
        match ← optional (update callees) with
        | none => return left
        | some update =>
          match Grammar.target? left with
          | some target => return .assign target update
          | none => rejectAt span .assignTarget

/-! ### Nested calls -/

/-- The recognisers with room for a number of nested calls. -/
def calls (rounds : Nat) : Nat → Callees
  | 0 => { rounds, expr := fun _ => exhausted, operand := exhausted }
  | room + 1 =>
    { rounds
      expr := fun required => nested .expression (inner (calls rounds room) required)
      operand := nested .unary (unary (calls rounds room) true) }

/-- One expression or statement. -/
def expr (rounds room : Nat) (required : Bool) : Recogniser Expr :=
  (calls rounds room).expr required

/-- Statements up to the first token that starts none. -/
def program (rounds room : Nat) : Recogniser Block :=
  attempt (statements (calls rounds room))

end Recogniser

end TableScript
