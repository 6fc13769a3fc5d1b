import TableScript.Number.Reading
import TableScript.Proofs.Reading
import TableScript.Syntax.Expr

/-!
The grammar of scripts as a relation between rows of tokens and what they mean, with one rule for
each production. It says nothing of the order in which alternatives are tried, of how far a
repetition goes or of how deep phrases may be nested.
-/

namespace TableScript

open Rule

def UnaryOp.kind : UnaryOp → Kind
  | .negate => .symbol .minus
  | .not => .keyword .not

def CompareOp.kind : CompareOp → Kind
  | .equal => .symbol .equal
  | .notEqual => .symbol .notEqual
  | .less => .symbol .less
  | .lessEqual => .symbol .lessEqual
  | .greater => .symbol .greater
  | .greaterEqual => .symbol .greaterEqual

def AddOp.kind : AddOp → Kind
  | .add => .symbol .plus
  | .sub => .symbol .minus

def MulOp.kind : MulOp → Kind
  | .mul => .symbol .star
  | .div => .symbol .slash
  | .pow => .symbol .power
  | .floorDiv => .symbol .floorSlash
  | .mod => .symbol .percent

/-- Some tokens and what they mean. -/
structure Part (α : Type) where
  tokens : List Token
  tree : α

/-- A part and the token that leads to it, such as a comma or an operator. -/
structure Led (α : Type) extends Part α where
  lead : Token

def Led.row {α : Type} (part : Led α) : List Token :=
  part.lead :: part.tokens

/-- A token that is a value by itself. -/
inductive Literal : Token → Expr → Prop where
  | null {token : Token} (hkind : token.kind = .keyword .null) : Literal token .null
  | true {token : Token} (hkind : token.kind = .keyword .true) : Literal token (.bool true)
  | false {token : Token} (hkind : token.kind = .keyword .false) : Literal token (.bool false)
  | name {token : Token} (hkind : token.kind = .identifier) : Literal token (.name token.textD)
  | string {token : Token} (hkind : token.kind = .string) : Literal token (.string token.textD)
  | number {token : Token} {value : Float} (hkind : token.kind = .number)
      (hvalue : Number.ofText? token.textD = some value) : Literal token (.number value)

/-- Names with commas between them. -/
inductive Names : List Token → List String → Prop where
  | nil : Names [] []
  | cons {ts : List Token} {first : String} (rest : List (Led String)) (hfirst : IsName ts first)
      (hcomma : ∀ part ∈ rest, part.lead.kind = .symbol .comma)
      (hrest : ∀ part ∈ rest, IsName part.tokens part.tree) :
      Names (ts ++ rest.flatMap Led.row) (first :: rest.map (·.tree))

/-- An expression with accesses to its parts, of which there may be none. -/
def Expr.accessed (target : Expr) : List Accessor → Expr
  | [] => target
  | chain => .access target chain

/-- The targets that expressions stand for on the left of an assignment. -/
inductive Denotes : Expr → Target → Prop where
  | name (name : String) : Denotes (.name name) (.name name)
  | index (target : Expr) (chain : List Accessor) (index : Expr) :
      Denotes (.access target (chain ++ [.index index])) (.index (target.accessed chain) index)
  | member (target : Expr) (chain : List Accessor) (name : String) :
      Denotes (.access target (chain ++ [.member name])) (.member (target.accessed chain) name)

/-- A token is on the line of the last one before it. -/
def OnLine (before : List Token) (token : Token) : Prop :=
  before.getLast?.map (·.span.line) = some token.span.line

/-- The phrases of the grammar. -/
inductive Phrase where
  | statements | block | expr | update | or | and | compare | add | mul | unary | primary | access
  | value | elements | entries | entry | control | branch | otherwise

/-- What the phrases mean. -/
abbrev Phrase.Tree : Phrase → Type
  | .statements | .block => Block
  | .expr | .or | .and | .compare | .add | .mul | .unary | .primary | .value => Expr
  | .update => Update
  | .access => Expr × List Accessor
  | .elements => List Expr
  | .entries => List Entry
  | .entry => Entry
  | .control => Control
  | .branch => Expr × Block
  | .otherwise => Option Block

/-- The productions of the grammar. -/
inductive Derives : (phrase : Phrase) → List Token → phrase.Tree → Prop where
  -- statements: expr*
  | statements (parts : List (Part Expr))
      (hparts : ∀ part ∈ parts, Derives .expr part.tokens part.tree) :
      Derives .statements (parts.flatMap (·.tokens)) (parts.map (·.tree))
  -- block: '{' statements '}'
  | block {left right : Token} {ts : List Token} {body : Block}
      (hleft : left.kind = .symbol .leftBrace) (hbody : Derives .statements ts body)
      (hright : right.kind = .symbol .rightBrace) : Derives .block (left :: (ts ++ [right])) body
  -- expr: 'global' name '=' expr | or | or update
  | global {keyword sign : Token} {ns ts : List Token} {name : String} {value : Expr}
      (hkeyword : keyword.kind = .keyword .global) (hname : IsName ns name)
      (hsign : sign.kind = .symbol .assign) (hvalue : Derives .expr ts value) :
      Derives .expr (keyword :: (ns ++ sign :: ts)) (.global name value)
  | plain {ts : List Token} {e : Expr} (he : Derives .or ts e) : Derives .expr ts e
  | assign {ts us : List Token} {left : Expr} {target : Target} {update : Update}
      (hleft : Derives .or ts left) (htarget : Denotes left target)
      (hupdate : Derives .update us update) : Derives .expr (ts ++ us) (.assign target update)
  -- update: '=' expr | '+=' expr | '-=' expr | '++' | '--'
  | set {sign : Token} {ts : List Token} {value : Expr} (hsign : sign.kind = .symbol .assign)
      (hvalue : Derives .expr ts value) : Derives .update (sign :: ts) (.set value)
  | addTo {sign : Token} {ts : List Token} {value : Expr} (hsign : sign.kind = .symbol .addAssign)
      (hvalue : Derives .expr ts value) : Derives .update (sign :: ts) (.addTo value)
  | subFrom {sign : Token} {ts : List Token} {value : Expr} (hsign : sign.kind = .symbol .subAssign)
      (hvalue : Derives .expr ts value) : Derives .update (sign :: ts) (.subFrom value)
  | increment {sign : Token} (hsign : sign.kind = .symbol .increment) :
      Derives .update [sign] .increment
  | decrement {sign : Token} (hsign : sign.kind = .symbol .decrement) :
      Derives .update [sign] .decrement
  -- or: and ('or' and)*
  | orOperand {ts : List Token} {e : Expr} (he : Derives .and ts e) : Derives .or ts e
  | or {ts : List Token} {first : Expr} (rest : List (Led Expr)) (hsome : rest ≠ [])
      (hfirst : Derives .and ts first) (hop : ∀ part ∈ rest, part.lead.kind = .keyword .or)
      (hrest : ∀ part ∈ rest, Derives .and part.tokens part.tree) :
      Derives .or (ts ++ rest.flatMap Led.row) (.or first (rest.map (·.tree)))
  -- and: compare ('and' compare)*
  | andOperand {ts : List Token} {e : Expr} (he : Derives .compare ts e) : Derives .and ts e
  | and {ts : List Token} {first : Expr} (rest : List (Led Expr)) (hsome : rest ≠ [])
      (hfirst : Derives .compare ts first) (hop : ∀ part ∈ rest, part.lead.kind = .keyword .and)
      (hrest : ∀ part ∈ rest, Derives .compare part.tokens part.tree) :
      Derives .and (ts ++ rest.flatMap Led.row) (.and first (rest.map (·.tree)))
  -- compare: add (('==' | '!=' | '<' | '<=' | '>' | '>=') add)*
  | compareOperand {ts : List Token} {e : Expr} (he : Derives .add ts e) : Derives .compare ts e
  | compare {ts : List Token} {first : Expr} (rest : List (Led (CompareOp × Expr)))
      (hsome : rest ≠ []) (hfirst : Derives .add ts first)
      (hop : ∀ part ∈ rest, part.lead.kind = part.tree.1.kind)
      (hrest : ∀ part ∈ rest, Derives .add part.tokens part.tree.2) :
      Derives .compare (ts ++ rest.flatMap Led.row) (.compare first (rest.map (·.tree)))
  -- add: mul (('+' | '-') mul)*
  | addOperand {ts : List Token} {e : Expr} (he : Derives .mul ts e) : Derives .add ts e
  | add {ts : List Token} {first : Expr} (rest : List (Led (AddOp × Expr))) (hsome : rest ≠ [])
      (hfirst : Derives .mul ts first) (hop : ∀ part ∈ rest, part.lead.kind = part.tree.1.kind)
      (hrest : ∀ part ∈ rest, Derives .mul part.tokens part.tree.2) :
      Derives .add (ts ++ rest.flatMap Led.row) (.add first (rest.map (·.tree)))
  -- mul: unary (('*' | '/' | '**' | '//' | '%') unary)*
  | mulOperand {ts : List Token} {e : Expr} (he : Derives .unary ts e) : Derives .mul ts e
  | mul {ts : List Token} {first : Expr} (rest : List (Led (MulOp × Expr))) (hsome : rest ≠ [])
      (hfirst : Derives .unary ts first) (hop : ∀ part ∈ rest, part.lead.kind = part.tree.1.kind)
      (hrest : ∀ part ∈ rest, Derives .unary part.tokens part.tree.2) :
      Derives .mul (ts ++ rest.flatMap Led.row) (.mul first (rest.map (·.tree)))
  -- unary: ('-' | 'not') unary | primary
  | unary {sign : Token} {ts : List Token} {op : UnaryOp} {operand : Expr}
      (hsign : sign.kind = op.kind) (hoperand : Derives .unary ts operand) :
      Derives .unary (sign :: ts) (.unary op operand)
  | unaryOperand {ts : List Token} {e : Expr} (he : Derives .primary ts e) : Derives .unary ts e
  -- primary: control | access
  | process {ts : List Token} {control : Control} (hcontrol : Derives .control ts control) :
      Derives .primary ts (.control control)
  | access {ts : List Token} {target : Expr} {chain : List Accessor}
      (haccess : Derives .access ts (target, chain)) : Derives .primary ts (target.accessed chain)
  -- access: value | access '[' expr ']' | access '.' name | access '(' elements ')'
  | target {ts : List Token} {target : Expr} (htarget : Derives .value ts target) :
      Derives .access ts (target, [])
  | index {left right : Token} {ts us : List Token} {target index : Expr} {chain : List Accessor}
      (haccess : Derives .access ts (target, chain)) (hleft : left.kind = .symbol .leftBracket)
      (hline : OnLine ts left) (hindex : Derives .expr us index)
      (hright : right.kind = .symbol .rightBracket) :
      Derives .access (ts ++ left :: (us ++ [right])) (target, chain ++ [.index index])
  | member {dot : Token} {ts ns : List Token} {target : Expr} {chain : List Accessor} {name : String}
      (haccess : Derives .access ts (target, chain)) (hdot : dot.kind = .symbol .dot)
      (hname : IsName ns name) :
      Derives .access (ts ++ dot :: ns) (target, chain ++ [.member name])
  | call {left right : Token} {ts us : List Token} {target : Expr} {chain : List Accessor}
      {args : List Expr} (haccess : Derives .access ts (target, chain))
      (hleft : left.kind = .symbol .leftParen) (hline : OnLine ts left)
      (hargs : Derives .elements us args) (hright : right.kind = .symbol .rightParen) :
      Derives .access (ts ++ left :: (us ++ [right])) (target, chain ++ [.call args])
  -- value: literal | '[' elements ']' | '{' entries '}' | '(' expr ')' | function
  | literal {token : Token} {e : Expr} (hliteral : Literal token e) : Derives .value [token] e
  | list {left right : Token} {ts : List Token} {elements : List Expr}
      (hleft : left.kind = .symbol .leftBracket) (helements : Derives .elements ts elements)
      (hright : right.kind = .symbol .rightBracket) :
      Derives .value (left :: (ts ++ [right])) (.list elements)
  | table {left right : Token} {ts : List Token} {entries : List Entry}
      (hleft : left.kind = .symbol .leftBrace) (hentries : Derives .entries ts entries)
      (hright : right.kind = .symbol .rightBrace) :
      Derives .value (left :: (ts ++ [right])) (.table entries)
  | quote {left right : Token} {ts : List Token} {inner : Expr}
      (hleft : left.kind = .symbol .leftParen) (hinner : Derives .expr ts inner)
      (hright : right.kind = .symbol .rightParen) : Derives .value (left :: (ts ++ [right])) inner
  -- function: 'func' name? '(' names ')' block
  | function {keyword left right : Token} {ns ps ts : List Token} {name : Option String}
      {params : List String} {body : Block} (hkeyword : keyword.kind = .keyword .func)
      (hname : Optional IsName ns name) (hleft : left.kind = .symbol .leftParen)
      (hparams : Names ps params) (hright : right.kind = .symbol .rightParen)
      (hbody : Derives .block ts body) :
      Derives .value (keyword :: (ns ++ left :: (ps ++ right :: ts))) (.function name params body)
  -- elements: (expr (',' expr)*)?
  | noElements : Derives .elements [] []
  | elements {ts : List Token} {first : Expr} (rest : List (Led Expr))
      (hfirst : Derives .expr ts first) (hcomma : ∀ part ∈ rest, part.lead.kind = .symbol .comma)
      (hrest : ∀ part ∈ rest, Derives .expr part.tokens part.tree) :
      Derives .elements (ts ++ rest.flatMap Led.row) (first :: rest.map (·.tree))
  -- entries: (entry (',' entry)* ','?)?
  | noEntries : Derives .entries [] []
  | entries {ts : List Token} {first : Entry} (rest : List (Led Entry)) (trailing : Option Token)
      (hfirst : Derives .entry ts first) (hcomma : ∀ part ∈ rest, part.lead.kind = .symbol .comma)
      (hrest : ∀ part ∈ rest, Derives .entry part.tokens part.tree)
      (htrailing : ∀ comma ∈ trailing, comma.kind = .symbol .comma) :
      Derives .entries (ts ++ (rest.flatMap Led.row ++ trailing.toList)) (first :: rest.map (·.tree))
  -- entry: (name | string | number | '[' expr ']') ':' expr
  | named {colon : Token} {ns ts : List Token} {name : String} {value : Expr}
      (hname : IsName ns name) (hcolon : colon.kind = .symbol .colon)
      (hvalue : Derives .expr ts value) : Derives .entry (ns ++ colon :: ts) (.named name value)
  | literalKey {key colon : Token} {ts : List Token} {e value : Expr}
      (hkind : key.kind = .string ∨ key.kind = .number) (hkey : Literal key e)
      (hcolon : colon.kind = .symbol .colon) (hvalue : Derives .expr ts value) :
      Derives .entry (key :: colon :: ts) (.computed e value)
  | computed {left right colon : Token} {ks ts : List Token} {key value : Expr}
      (hleft : left.kind = .symbol .leftBracket) (hkey : Derives .expr ks key)
      (hright : right.kind = .symbol .rightBracket) (hcolon : colon.kind = .symbol .colon)
      (hvalue : Derives .expr ts value) :
      Derives .entry (left :: (ks ++ right :: colon :: ts)) (.computed key value)
  -- control: 'if' branch ('elif' branch)* otherwise
  | cond {keyword : Token} {ts us : List Token} {first : Expr × Block} {last : Option Block}
      (rest : List (Led (Expr × Block))) (hkeyword : keyword.kind = .keyword .if)
      (hfirst : Derives .branch ts first) (helif : ∀ part ∈ rest, part.lead.kind = .keyword .elif)
      (hrest : ∀ part ∈ rest, Derives .branch part.tokens part.tree)
      (hlast : Derives .otherwise us last) :
      Derives .control (keyword :: (ts ++ (rest.flatMap Led.row ++ us)))
        (.cond (first :: rest.map (·.tree)) last)
  -- control: 'while' expr block | 'loop' block
  | while {keyword : Token} {ts us : List Token} {condition : Expr} {body : Block}
      (hkeyword : keyword.kind = .keyword .while) (hcondition : Derives .expr ts condition)
      (hbody : Derives .block us body) :
      Derives .control (keyword :: (ts ++ us)) (.while condition body)
  | loop {keyword : Token} {ts : List Token} {body : Block}
      (hkeyword : keyword.kind = .keyword .loop) (hbody : Derives .block ts body) :
      Derives .control (keyword :: ts) (.loop body)
  -- control: 'for' name (',' name)? 'in' expr block
  | forIn {keyword word : Token} {ns ks ts us : List Token} {value : String} {key : Option String}
      {items : Expr} {body : Block} (hkeyword : keyword.kind = .keyword .for)
      (hvalue : IsName ns value)
      (hkey : Optional (LedBy (fun comma _ => comma.kind = .symbol .comma) IsName) ks key)
      (hword : word.kind = .keyword .in) (hitems : Derives .expr ts items)
      (hbody : Derives .block us body) :
      Derives .control (keyword :: (ns ++ (ks ++ word :: (ts ++ us)))) (.forIn value key items body)
  -- control: 'for' name 'of' expr '..' expr block | 'for' name 'of' expr '..' expr '..' expr block
  | forOf {keyword word dots : Token} {ns ts us vs : List Token} {counter : String}
      {start stop : Expr} {body : Block} (hkeyword : keyword.kind = .keyword .for)
      (hcounter : IsName ns counter) (hword : word.kind = .keyword .of)
      (hstart : Derives .expr ts start) (hdots : dots.kind = .symbol .dotDot)
      (hstop : Derives .expr us stop) (hbody : Derives .block vs body) :
      Derives .control (keyword :: (ns ++ word :: (ts ++ dots :: (us ++ vs))))
        (.forOf counter start stop none body)
  | forOfStep {keyword word dots more : Token} {ns ts us vs ws : List Token} {counter : String}
      {start stop step : Expr} {body : Block} (hkeyword : keyword.kind = .keyword .for)
      (hcounter : IsName ns counter) (hword : word.kind = .keyword .of)
      (hstart : Derives .expr ts start) (hdots : dots.kind = .symbol .dotDot)
      (hstop : Derives .expr us stop) (hmore : more.kind = .symbol .dotDot)
      (hstep : Derives .expr vs step) (hbody : Derives .block ws body) :
      Derives .control (keyword :: (ns ++ word :: (ts ++ dots :: (us ++ more :: (vs ++ ws)))))
        (.forOf counter start stop (some step) body)
  -- control: 'return' | 'return' ':' expr | 'continue' | 'break'
  | return {keyword : Token} (hkeyword : keyword.kind = .keyword .return) :
      Derives .control [keyword] (.return none)
  | returnValue {keyword colon : Token} {ts : List Token} {value : Expr}
      (hkeyword : keyword.kind = .keyword .return) (hcolon : colon.kind = .symbol .colon)
      (hvalue : Derives .expr ts value) :
      Derives .control (keyword :: colon :: ts) (.return (some value))
  | continue {keyword : Token} (hkeyword : keyword.kind = .keyword .continue) :
      Derives .control [keyword] .continue
  | break {keyword : Token} (hkeyword : keyword.kind = .keyword .break) :
      Derives .control [keyword] .break
  -- branch: expr block
  | branch {ts us : List Token} {condition : Expr} {body : Block}
      (hcondition : Derives .expr ts condition) (hbody : Derives .block us body) :
      Derives .branch (ts ++ us) (condition, body)
  -- otherwise: ('else' block)?
  | noOtherwise : Derives .otherwise [] none
  | otherwise {keyword : Token} {ts : List Token} {body : Block}
      (hkeyword : keyword.kind = .keyword .else) (hbody : Derives .block ts body) :
      Derives .otherwise (keyword :: ts) (some body)

end TableScript
