import TableScript.Token.Span

/-!
Why a text is not a row of tokens.
-/

namespace TableScript

inductive LexicalProblem where
  | unexpectedCharacter (c : Char)
  | unterminatedString
  | invalidEscape (c : Char)
  | malformedNumber (literal : String)
deriving DecidableEq, Repr

def LexicalProblem.message : LexicalProblem → String
  | .unexpectedCharacter c => s!"Unexpected character '{c}'"
  | .unterminatedString => "Unterminated string literal"
  | .invalidEscape c => s!"Invalid escape sequence '\\{c}' in string literal"
  | .malformedNumber literal => s!"Malformed number literal '{literal}'"

/-- A problem and the part of the text that shows it. -/
structure LexicalError where
  problem : LexicalProblem
  span : Span
deriving DecidableEq, Repr

def LexicalError.message (e : LexicalError) : String :=
  e.problem.message ++ " at " ++ e.span.text

end TableScript
