import TableScript.Text.Blank
import TableScript.Text.Letter
import TableScript.Text.Numeral
import TableScript.Token.Basic
import TableScript.Token.Error

/-!
From text to tokens. At each point the text is a gap, a token or an error, decided by its first
character and as long as it can be; the lexer steps from one such piece to the next and stops at the
first error.
-/

namespace TableScript

/-- What a text starts with, and how many of its characters belong to that. -/
inductive Piece where
  | gap (length : Nat)
  | token (kind : Kind) (text : Option String) (length : Nat)
  | error (problem : LexicalProblem) (length : Nat)
deriving DecidableEq, Repr

namespace Piece

/-- Whether a character can stand in a name after its first one. -/
def isNamePart (c : Char) : Bool :=
  isLetter c || isNumeral c || c = '_'

/-- Whether a character can start a name. -/
def isNameStart (c : Char) : Bool :=
  isLetter c || c = '_'

/-- A comment goes on to the end of its line. -/
def isCommentPart (c : Char) : Bool :=
  c ≠ '\r' && c ≠ '\n'

/-- A name, or the reserved word that is spelled like it. -/
def word (cs : List Char) : Piece :=
  let name := cs.takeWhile isNamePart
  match Keyword.ofSpelling? (String.ofList name) with
  | some keyword => .token (.keyword keyword) none name.length
  | none => .token .identifier (some (String.ofList name)) name.length

/-- A fraction at the front: a point with at least one digit after it. -/
def fraction : List Char → List Char
  | '.' :: cs =>
    match cs.takeWhile Char.isDigit with
    | [] => []
    | digits => '.' :: digits
  | _ => []

/-- A sign at the front. -/
def sign : List Char → List Char
  | '+' :: _ => ['+']
  | '-' :: _ => ['-']
  | _ => []

/-- An exponent at the front, and whether it has the digits it needs. -/
def exponent : List Char → List Char × Bool
  | [] => ([], true)
  | mark :: cs =>
    if mark = 'e' ∨ mark = 'E' then
      let sign := sign cs
      let digits := (cs.drop sign.length).takeWhile Char.isDigit
      (mark :: (sign ++ digits), !digits.isEmpty)
    else ([], true)

/-- A number: digits, a fraction and an exponent. -/
def number (cs : List Char) : Piece :=
  let whole := cs.takeWhile Char.isDigit
  let fraction := fraction (cs.drop whole.length)
  let (exponent, complete) := exponent (cs.drop (whole.length + fraction.length))
  let literal := whole ++ fraction ++ exponent
  if complete then .token .number (some (String.ofList literal)) literal.length
  else .error (.malformedNumber (String.ofList literal)) literal.length

/-- The character that an escape stands for. -/
def unescape? : Char → Option Char
  | 't' => some '\t'
  | 'r' => some '\r'
  | 'n' => some '\n'
  | 'b' => some '\x08'
  | '"' => some '"'
  | '\\' => some '\\'
  | _ => none

/-- The rest of a string after its opening quote: the text read so far is `read`, in reverse, from
`length` characters. A line cannot end inside a string, and an error in an escape is shown up to its
backslash. -/
def stringTail (read : List Char) (length : Nat) : List Char → Piece
  | [] => .error .unterminatedString length
  | '"' :: _ => .token .string (some (String.ofList read.reverse)) (length + 1)
  | '\r' :: '\n' :: _ => .error .unterminatedString (length + 2)
  | '\r' :: _ => .error .unterminatedString (length + 1)
  | '\n' :: _ => .error .unterminatedString (length + 1)
  | '\\' :: [] => .error .unterminatedString (length + 1)
  | '\\' :: c :: cs =>
    match unescape? c with
    | some meant => stringTail (meant :: read) (length + 2) cs
    | none => .error (.invalidEscape c) (length + 1)
  | c :: cs => stringTail (c :: read) (length + 1) cs

/-- Spellings of operators and punctuation, a longer one before its beginnings. -/
def marks : List (List Char × Kind) :=
  ([.increment, .addAssign, .decrement, .subAssign, .power, .floorSlash, .greaterEqual, .lessEqual,
    .equal, .notEqual, .dotDot, .plus, .minus, .star, .slash, .percent, .greater, .less, .assign,
    .leftParen, .rightParen, .leftBracket, .rightBracket, .leftBrace, .rightBrace, .colon, .comma,
    .dot] : List Symbol).map (fun mark => (mark.spelling.toList, .symbol mark))
    ++ [(['!'], .keyword .not)]

/-- The longest operator or punctuation mark. -/
def mark (c : Char) (cs : List Char) : Piece :=
  match marks.find? fun entry => entry.1.isPrefixOf (c :: cs) with
  | some (spelling, kind) => .token kind none spelling.length
  | none => .error (.unexpectedCharacter c) 1

/-- What the text `c :: cs` starts with. -/
def first (c : Char) (cs : List Char) : Piece :=
  if isBlank c then .gap 1
  else if c = '#' then .gap ((c :: cs).takeWhile isCommentPart).length
  else if c = '"' then stringTail [] 1 cs
  else if isNameStart c then word (c :: cs)
  else if c.isDigit then number (c :: cs)
  else mark c cs

end Piece

/-- The tokens of a text up to its end or its first error. -/
structure Lexed where
  tokens : List Token
  error : Option LexicalError
deriving DecidableEq, Repr

namespace Lexed

/-- Steps through a text at position `p`, of which the first `skip` characters belong to a piece that
has been dealt with. -/
def walk : Nat → Position → List Char → Lexed
  | _, _, [] => ⟨[], none⟩
  | skip + 1, p, c :: cs => walk skip (p.advance c cs) cs
  | 0, p, c :: cs =>
    match Piece.first c cs with
    | .gap length => walk (length - 1) (p.advance c cs) cs
    | .token kind text length =>
      let rest := walk (length - 1) (p.advance c cs) cs
      ⟨⟨kind, text, p.span length⟩ :: rest.tokens, rest.error⟩
    | .error problem length => ⟨[], some ⟨problem, p.span length⟩⟩

def ofChars (source : List Char) : Lexed :=
  walk 0 .origin source

end Lexed

/-- The tokens of a text before its first error, and that error. -/
def lex (source : String) : Lexed :=
  .ofChars source.toList

/-- The tokens of a text that has no error. -/
def tokenize (source : String) : Except LexicalError (List Token) :=
  let lexed := lex source
  match lexed.error with
  | none => .ok lexed.tokens
  | some e => .error e

end TableScript
