import TableScript.Syntax.Rejection
import TableScript.Token.Basic

/-!
Grammar rules as functions on the tokens that are left. A rule that fails returns no tokens, so what
is tried after it starts from where it started.
-/

namespace TableScript

/-- A place between two tokens: the tokens still to come, and the line of the token just before. -/
structure Cursor where
  line : Option Nat
  rest : List Token
deriving DecidableEq, Repr

namespace Cursor

/-- The place before the first token. -/
def start (tokens : List Token) : Cursor :=
  ⟨none, tokens⟩

/-- The place after the next token. -/
def advance (c : Cursor) : Cursor :=
  match c.rest with
  | [] => c
  | token :: rest => ⟨some token.span.line, rest⟩

end Cursor

/-- A rule matches some tokens and returns what they mean, or is rejected. -/
abbrev Rule (α : Type) := StateT Cursor (Except Rejection) α

namespace Rule

variable {α : Type}

/-- The next token, left in place. -/
def peek : Rule (Option Token) := do
  return (← get).rest.head?

/-- The kind of the next token. -/
def peekKind : Rule (Option Kind) := do
  return (← peek).map (·.kind)

/-- The place of the next token. -/
def peekSpan : Rule (Option Span) := do
  return (← peek).map (·.span)

/-- Moves past the next token. -/
def advance : Rule Unit :=
  modify Cursor.advance

/-- Moves past the next token if it is of the given kind, and tells whether it was. -/
def accept (kind : Kind) : Rule Bool := do
  if (← peekKind) = some kind then
    advance
    return true
  else
    return false

/-- Fails at the next token. -/
def noMatch (required : Bool) : Rule α := do
  throw ((Rejection.noMatch (← peekSpan)).demanded required)

/-- Fails at the next token for a reason. -/
def reject (complaint : Complaint) : Rule α := do
  throw ((Rejection.noMatch (← peekSpan)).because complaint)

/-- Gives a reason for the failure of a rule. -/
def because (complaint : Complaint) (rule : Rule α) : Rule α := fun cursor =>
  match rule cursor with
  | .ok result => .ok result
  | .error rejection => .error (rejection.because complaint)

/-- A rule that need not match. If it fails before it commits itself, nothing is consumed. -/
def optional (rule : Rule α) : Rule (Option α) := fun cursor =>
  match rule cursor with
  | .ok (result, cursor) => .ok (some result, cursor)
  | .error rejection => if rejection.committed then .error rejection else .ok (none, cursor)

/-- Moves past a token of the given kind, which has to be there. -/
def expect (kind : Kind) (complaint : Complaint) : Rule Unit := do
  unless ← accept kind do
    reject complaint

/-- The name at the front, if there is one. -/
def name? : Rule (Option String) := do
  match ← peek with
  | some token =>
    if token.kind = .identifier then
      advance
      return some token.textD
    else
      return none
  | none => return none

/-- The name at the front, which has to be there. -/
def name (complaint : Complaint) : Rule String := do
  match ← name? with
  | some name => return name
  | none => reject complaint

/-- Repeats a rule until it finds nothing, at most once for each token of the budget and once more. -/
def manyWithin (item : Rule (Option α)) : List Token → Rule (List α)
  | [] => do
    return (← item).toList
  | _ :: budget => do
    match ← item with
    | none => return []
    | some first => return first :: (← manyWithin item budget)

/-- Repeats a rule until it finds nothing. Each item takes a token at least, so the tokens that are
left bound their number. -/
def many (item : Rule (Option α)) : Rule (List α) := do
  manyWithin item (← get).rest

/-- What follows a token of the given kind, if that token is there. -/
def after (kind : Kind) (rule : Rule α) : Rule (Option α) := do
  if ← accept kind then
    return some (← rule)
  else
    return none

end Rule

end TableScript
