/-!
What the grammar misses in a row of tokens, and how messages say so.
-/

namespace TableScript

/-- The constructs that messages name. -/
inductive Construct where
  | expression | unary | global | assign | compare | add | mul | valueAccess | call | list | table
  | quote | func | cond | while | loop | for | return | require
deriving DecidableEq, Repr

def Construct.text : Construct → String
  | .expression => "expression"
  | .unary => "unary-expression"
  | .global => "global-expression"
  | .assign => "assign-expression"
  | .compare => "compare-expression"
  | .add => "add-expression"
  | .mul => "mul-expression"
  | .valueAccess => "value-access-expression"
  | .call => "call-expression"
  | .list => "list-expression"
  | .table => "table-expression"
  | .quote => "quote-expression"
  | .func => "func-expression"
  | .cond => "if-expression"
  | .while => "while-expression"
  | .loop => "loop-expression"
  | .for => "for-expression"
  | .return => "return-expression"
  | .require => "require-expression"

/-- A reason for which tokens are not a program. Most name the part that is missing. -/
inductive Complaint where
  | nestedTooDeeply (construct : Construct)
  | globalName | globalAssign | globalValue
  | assignValue | assignTarget
  | orOperand | andOperand | compareOperand | addOperand | mulOperand | unaryOperand
  | indexValue | indexClose | memberName | callClose
  | nextElement (construct : Construct)
  | listElement | listClose
  | tableKey | keyValue | keyClose | tableColon | tableValue | tableClose
  | quoteValue | quoteClose
  | invalidNumber (text : String)
  | blockOpen (construct : Construct) | blockClose (construct : Construct)
  | requireUnsupported
  | condition (keyword : String) (construct : Construct)
  | forName | forKey | forItems | forKeyword | forSingle | forStart | forDots | forStop | forStep
  | returnValue
  | funcOpen | funcParam | funcClose
  | note (text : String)
deriving DecidableEq, Repr

namespace Complaint

/-- The construct in which a complaint arose, as the end of its message. -/
def within (construct : Construct) (text : String) : String :=
  text ++ " while parsing '" ++ construct.text ++ "'"

def message : Complaint → String
  | nestedTooDeeply construct => within construct "Expression nested too deeply"
  | globalName => within .global "Expect name after 'global'"
  | globalAssign => within .global "Expect '=' after name"
  | globalValue => within .global "Expect expression after '='"
  | assignValue => within .assign "Expect expression after '=','+=','-='"
  | assignTarget => within .assign "Invalid assignment target"
  | orOperand => "Expect 'and-expression' after 'or' keyword"
  | andOperand => "Expect 'compare-expression' after 'and' keyword"
  | compareOperand => within .compare "Expect expression after '==','!=','<','<=','>','>='"
  | addOperand => within .add "Expect expression after '+','-'"
  | mulOperand => within .mul "Expect expression after '*','/','**','//','%'"
  | unaryOperand => within .unary "Expect expression after '-','not'"
  | indexValue => within .valueAccess "Require index after '['"
  | indexClose => within .valueAccess "Require ']' after index"
  | memberName => within .valueAccess "Require member name after '.'"
  | callClose => within .call "Expect ')' after arguments"
  | nextElement construct => within construct "Expect expression after ','"
  | listElement => within .list "Expect expression after '['"
  | listClose => within .list "Expect ']' after '['"
  | tableKey => within .table "Expect key"
  | keyValue => within .table "Expect key expression after '['"
  | keyClose => within .table "Expect ']' after key"
  | tableColon => within .table "Expect ':' after key"
  | tableValue => within .table "Expect value after ':'"
  | tableClose => within .table "Expect '\x7d' after entries"
  | quoteValue => within .quote "Expect expression after '('"
  | quoteClose => within .quote "Expect ')' after expression"
  | invalidNumber text => "Invalid number literal '" ++ text ++ "'"
  | blockOpen construct => within construct "Expect '\x7b'"
  | blockClose construct => within construct "Expect '\x7d' after block"
  | requireUnsupported => within .require "'require' is not supported"
  | condition keyword construct => within construct ("Expect condition after '" ++ keyword ++ "'")
  | forName => within .for "Expect variable name after 'for'"
  | forKey => within .for "Expect key name after ','"
  | forItems => within .for "Expect expression after 'in'"
  | forKeyword => within .for "Expect 'in' or 'of' after names"
  | forSingle => within .for "Numeric 'for' takes a single variable"
  | forStart => within .for "Expect start expression after 'of'"
  | forDots => within .for "Expect '..' after start"
  | forStop => within .for "Expect end expression after '..'"
  | forStep => within .for "Expect step expression after '..'"
  | returnValue => within .return "Expect expression after 'return:'"
  | funcOpen => within .func "Expect '(' after 'func'"
  | funcParam => within .func "Expect parameter name after ','"
  | funcClose => within .func "Expect ')' after parameters"
  | note text => text

end Complaint

end TableScript
