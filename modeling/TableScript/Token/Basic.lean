import TableScript.Token.Span

/-!
The tokens of a script: names, numbers, strings, reserved words and symbols.
-/

namespace TableScript

/-- Words that are not names. -/
inductive Keyword where
  | require | if | else | elif | for | in | of | loop | while | continue | break | null | true
  | false | not | and | or | func | return | global
deriving DecidableEq, Repr

namespace Keyword

def all : List Keyword :=
  [.require, .if, .else, .elif, .for, .in, .of, .loop, .while, .continue, .break, .null, .true,
    .false, .not, .and, .or, .func, .return, .global]

def spelling : Keyword → String
  | .require => "require"
  | .if => "if"
  | .else => "else"
  | .elif => "elif"
  | .for => "for"
  | .in => "in"
  | .of => "of"
  | .loop => "loop"
  | .while => "while"
  | .continue => "continue"
  | .break => "break"
  | .null => "null"
  | .true => "true"
  | .false => "false"
  | .not => "not"
  | .and => "and"
  | .or => "or"
  | .func => "func"
  | .return => "return"
  | .global => "global"

/-- The reserved word with a given spelling. -/
def ofSpelling? (word : String) : Option Keyword :=
  all.find? fun keyword => keyword.spelling = word

end Keyword

/-- Operators and punctuation. -/
inductive Symbol where
  | plus | increment | addAssign | minus | decrement | subAssign | star | power | slash
  | floorSlash | percent | greater | greaterEqual | less | lessEqual | assign | equal | notEqual
  | leftParen | rightParen | leftBracket | rightBracket | leftBrace | rightBrace | colon | comma
  | dot | dotDot
deriving DecidableEq, Repr

def Symbol.spelling : Symbol → String
  | .plus => "+"
  | .increment => "++"
  | .addAssign => "+="
  | .minus => "-"
  | .decrement => "--"
  | .subAssign => "-="
  | .star => "*"
  | .power => "**"
  | .slash => "/"
  | .floorSlash => "//"
  | .percent => "%"
  | .greater => ">"
  | .greaterEqual => ">="
  | .less => "<"
  | .lessEqual => "<="
  | .assign => "="
  | .equal => "=="
  | .notEqual => "!="
  | .leftParen => "("
  | .rightParen => ")"
  | .leftBracket => "["
  | .rightBracket => "]"
  | .leftBrace => "\x7b"
  | .rightBrace => "\x7d"
  | .colon => ":"
  | .comma => ","
  | .dot => "."
  | .dotDot => ".."

/-- What a token is, its text apart. -/
inductive Kind where
  | identifier
  | number
  | string
  | keyword (word : Keyword)
  | symbol (mark : Symbol)
deriving DecidableEq, Repr

/-- How messages name a kind of token. -/
def Kind.describe : Kind → String
  | .identifier => "identifier"
  | .number => "number"
  | .string => "string"
  | .keyword word => "'" ++ word.spelling ++ "'"
  | .symbol mark => "'" ++ mark.spelling ++ "'"

/-- A token with its place. Names, numbers and strings carry their text: a number as it was written,
a string as it reads. -/
structure Token where
  kind : Kind
  text : Option String
  span : Span
deriving DecidableEq, Repr

/-- The text of a token, empty if it carries none. -/
def Token.textD (token : Token) : String :=
  token.text.getD ""

end TableScript
