import TableScript.Syntax.Grammar

/-!
From tokens to programs.
-/

namespace TableScript

/-- Why a row of tokens is not a program. -/
inductive SyntaxError where
  | invalid (complaint : Option Complaint) (span : Span)
  | incomplete (complaint : Option Complaint)
  | unexpectedToken (token : Token)
deriving DecidableEq, Repr

namespace SyntaxError

/-- The error that the failure of the outermost rule means. -/
def ofRejection (r : Rejection) : SyntaxError :=
  match r.span with
  | some span => if r.wantsMore then .incomplete r.complaint else .invalid r.complaint span
  | none => .incomplete r.complaint

/-- Whether the input ended inside a construct, so that a next line could complete it. -/
def isIncomplete : SyntaxError → Bool
  | .incomplete _ => true
  | _ => false

/-- Where the error is, unless it is at the end of the input. -/
def span? : SyntaxError → Option Span
  | .invalid _ span => some span
  | .incomplete _ => none
  | .unexpectedToken token => some token.span

def complaintText (complaint : Option Complaint) : String :=
  match complaint with
  | some complaint => complaint.message
  | none => "Invalid syntax"

def message : SyntaxError → String
  | .invalid complaint span => complaintText complaint ++ " at " ++ span.text
  | .incomplete complaint => complaintText complaint ++ " at end of input"
  | .unexpectedToken token =>
    let text := match token.text with
      | some text => " '" ++ text ++ "'"
      | none => ""
    "Unexpected token " ++ token.kind.describe ++ text ++ " at " ++ token.span.text

end SyntaxError

namespace Rule

/-- One expression or statement, with no level of nesting used yet. -/
def expr (required : Bool) : Rule Expr :=
  (Grammar.nested Grammar.maxDepth).expr required

/-- Statements up to the first token that starts none. -/
def program : Rule Block :=
  Grammar.statements (Grammar.nested Grammar.maxDepth)

end Rule

/-- The program that the tokens are as a whole. -/
def parse (tokens : List Token) : Except SyntaxError Block :=
  match Rule.program (.start tokens) with
  | .error rejection => .error (.ofRejection rejection)
  | .ok (program, cursor) =>
    match cursor.rest with
    | [] => .ok program
    | token :: _ => .error (.unexpectedToken token)

theorem parse_eq_ok_iff {tokens : List Token} {program : Block} :
    parse tokens = .ok program ↔
      ∃ line, Rule.program (.start tokens) = .ok (program, ⟨line, []⟩) := by
  unfold parse
  constructor
  · intro h
    split at h
    next => cases h
    next found c hfound =>
      split at h
      next hrest =>
        cases h
        exact ⟨c.line, by rw [hfound, ← hrest]⟩
      next => cases h
  · rintro ⟨line, hrun⟩
    rw [hrun]

end TableScript
