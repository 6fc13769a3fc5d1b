import TableScript.Proofs.Derivation
import TableScript.Proofs.Spelling

/-!
How programs are written out with parentheses around every part, so that neither precedence nor what
stands on the next line can change how they read. A layout keeps track of lines and of how deep its
parts are nested.
-/

namespace TableScript

/-- Words and line breaks. What has to be read with one level of nesting more is marked. -/
inductive Layout where
  | empty
  | word (word : Word)
  | newLine
  | append (first rest : Layout)
  | nest (inner : Layout)

namespace Layout

/-- Layouts one after another. -/
def row : List Layout → Layout
  | [] => .empty
  | first :: rest => .append first (row rest)

/-- How many levels the parts of a layout are nested. -/
def levels : Layout → Nat
  | .empty | .word _ | .newLine => 0
  | .append first rest => max first.levels rest.levels
  | .nest inner => inner.levels + 1

/-- How many words a layout has. -/
def size : Layout → Nat
  | .empty | .newLine => 0
  | .word _ => 1
  | .append first rest => first.size + rest.size
  | .nest inner => inner.size

/-- The line on which a layout ends that begins on the given one. -/
def lastLine (line : Nat) : Layout → Nat
  | .empty | .word _ => line
  | .newLine => line + 1
  | .append first rest => rest.lastLine (first.lastLine line)
  | .nest inner => inner.lastLine line

/-- The words of a layout and their lines, from the given line on. -/
def write (line : Nat) : Layout → List (Word × Nat)
  | .empty | .newLine => []
  | .word w => [(w, line)]
  | .append first rest => first.write line ++ rest.write (first.lastLine line)
  | .nest inner => inner.write line

def keyword (word : Keyword) : Layout :=
  .word ⟨.keyword word, none⟩

def symbol (mark : Symbol) : Layout :=
  .word ⟨.symbol mark, none⟩

def identifier (name : String) : Layout :=
  .word ⟨.identifier, some name⟩

/-- An expression in parentheses. -/
def quoted (inner : Layout) : Layout :=
  row [symbol .leftParen, .nest inner, symbol .rightParen]

/-- An expression where any expression may stand, in parentheses or as it is. -/
def slot (wrapped : Bool) (inner : Layout) : Layout :=
  .nest (match wrapped with
    | true => quoted inner
    | false => inner)

/-- A statement, in parentheses on a line of its own. -/
def statement (inner : Layout) : Layout :=
  row [.newLine, slot true inner]

/-- A word that leads to a part. -/
def led (kind : Kind) (part : Layout) : Layout :=
  row [.word ⟨kind, none⟩, part]

/-- Parts with commas between them. -/
def separated : List Layout → Layout
  | [] => .empty
  | first :: rest => row (first :: rest.map (led (.symbol .comma)))

/-- What may stand in a list or between the parentheses of a call. Where nothing does, an expression
is looked for all the same, one level deeper. -/
def elements (wrapped : Bool) : List Layout → Layout
  | [] => .nest .empty
  | first :: rest => separated ((first :: rest).map (slot wrapped))

/-- Statements in braces, which are looked for one level deeper even where there are none. -/
def block : List Layout → Layout
  | [] => row [symbol .leftBrace, .nest .empty, symbol .rightBrace]
  | first :: rest => row [symbol .leftBrace, row ((first :: rest).map statement), symbol .rightBrace]

/-- Branches, each a condition and a block, after the keywords that lead to them. -/
def branches : List Layout → Layout
  | [] => .empty
  | first :: rest => row (led (.keyword .if) first :: rest.map (led (.keyword .elif)))

/-- A part that may be left out. -/
def optional : Option Layout → Layout
  | none => .empty
  | some part => part

variable {levels : Nat}

@[simp]
theorem levels_row_le {parts : List Layout} :
    (row parts).levels ≤ levels ↔ ∀ part ∈ parts, part.levels ≤ levels := by
  induction parts with
  | nil => simp [row, Layout.levels]
  | cons part parts ih => simp only [row, Layout.levels, Nat.max_le, ih, List.forall_mem_cons]

@[simp]
theorem levels_word (w : Word) : (word w).levels = 0 :=
  rfl

@[simp]
theorem levels_symbol (mark : Symbol) : (symbol mark).levels = 0 :=
  rfl

@[simp]
theorem levels_separated_le {parts : List Layout} :
    (separated parts).levels ≤ levels ↔ ∀ part ∈ parts, part.levels ≤ levels := by
  cases parts <;> simp [separated, Layout.levels, led]

@[simp]
theorem levels_led_le {kind : Kind} {part : Layout} :
    (led kind part).levels ≤ levels ↔ part.levels ≤ levels := by
  simp [led]

theorem size_row_pos (w : Word) (parts : List Layout) : 0 < (row (word w :: parts)).size := by
  rw [row, Layout.size, Layout.size]
  omega

theorem size_statement_pos (inner : Layout) : 0 < (statement inner).size := by
  have hquoted : 0 < (quoted inner).size := size_row_pos _ _
  simpa only [statement, slot, row, Layout.size, Nat.zero_add, Nat.add_zero] using hquoted

end Layout

/-- What a layout of a program is free in: how it writes numbers, and whether it puts the elements of
lists, conditions, what loops run over and what functions return in parentheses too. -/
structure Style where
  numeral : Float → String
  wraps : Bool

open Layout

mutual

def Expr.layout (style : Style) : Expr → Layout
  | .null => keyword .null
  | .bool true => keyword .true
  | .bool false => keyword .false
  | .number value => .word ⟨.number, some (style.numeral value)⟩
  | .string text => .word ⟨.string, some text⟩
  | .name name => identifier name
  | .list elements =>
    row [symbol .leftBracket, Layout.elements style.wraps (exprLayouts style elements),
      symbol .rightBracket]
  | .table entries =>
    row [symbol .leftBrace, separated (entryLayouts style entries), symbol .rightBrace]
  | .function name params body =>
    row [keyword .func, Layout.optional (name.map identifier), symbol .leftParen,
      separated (params.map identifier), symbol .rightParen, block (exprLayouts style body)]
  | .unary op operand => row [.word ⟨op.kind, none⟩, .nest (quoted (operand.layout style))]
  | .or first rest =>
    row (quoted (first.layout style) ::
      (exprLayouts style rest).map fun part => led (.keyword .or) (quoted part))
  | .and first rest =>
    row (quoted (first.layout style) ::
      (exprLayouts style rest).map fun part => led (.keyword .and) (quoted part))
  | .compare first rest => row (quoted (first.layout style) :: compareLayouts style rest)
  | .add first rest => row (quoted (first.layout style) :: addLayouts style rest)
  | .mul first rest => row (quoted (first.layout style) :: mulLayouts style rest)
  | .access target chain => row (quoted (target.layout style) :: chainLayouts style chain)
  | .assign target update => row [target.layout style, update.layout style]
  | .global name value =>
    row [keyword .global, identifier name, symbol .assign, slot true (value.layout style)]
  | .control control => control.layout style

def Control.layout (style : Style) : Control → Layout
  | .cond branches otherwise =>
    row [Layout.branches (branchLayouts style branches),
      Layout.optional (otherwiseLayout style otherwise)]
  | .while condition body =>
    row [keyword .while, slot style.wraps (condition.layout style), block (exprLayouts style body)]
  | .loop body => row [keyword .loop, block (exprLayouts style body)]
  | .forIn value key items body =>
    row [keyword .for, identifier value,
      Layout.optional (key.map fun name => led (.symbol .comma) (identifier name)), keyword .in,
      slot style.wraps (items.layout style), block (exprLayouts style body)]
  | .forOf counter start stop step body =>
    row [keyword .for, identifier counter, keyword .of, slot style.wraps (start.layout style),
      symbol .dotDot, slot style.wraps (stop.layout style),
      Layout.optional (optionLayout style (.symbol .dotDot) step), block (exprLayouts style body)]
  | .return value =>
    row [keyword .return, Layout.optional (optionLayout style (.symbol .colon) value)]
  | .continue => keyword .continue
  | .break => keyword .break

def Entry.layout (style : Style) : Entry → Layout
  | .named name value => row [identifier name, symbol .colon, slot true (value.layout style)]
  | .computed key value =>
    row [symbol .leftBracket, slot true (key.layout style), symbol .rightBracket, symbol .colon,
      slot true (value.layout style)]

def Accessor.layout (style : Style) : Accessor → Layout
  | .index index => row [symbol .leftBracket, slot true (index.layout style), symbol .rightBracket]
  | .member name => row [symbol .dot, identifier name]
  | .call args =>
    row [symbol .leftParen, Layout.elements true (exprLayouts style args), symbol .rightParen]

def Target.layout (style : Style) : Target → Layout
  | .name name => identifier name
  | .index container index =>
    row [quoted (container.layout style),
      row [symbol .leftBracket, slot true (index.layout style), symbol .rightBracket]]
  | .member container name =>
    row [quoted (container.layout style), row [symbol .dot, identifier name]]

def Update.layout (style : Style) : Update → Layout
  | .set value => led (.symbol .assign) (slot true (value.layout style))
  | .addTo value => led (.symbol .addAssign) (slot true (value.layout style))
  | .subFrom value => led (.symbol .subAssign) (slot true (value.layout style))
  | .increment => symbol .increment
  | .decrement => symbol .decrement

def exprLayouts (style : Style) : List Expr → List Layout
  | [] => []
  | e :: es => e.layout style :: exprLayouts style es

def entryLayouts (style : Style) : List Entry → List Layout
  | [] => []
  | entry :: entries => entry.layout style :: entryLayouts style entries

def chainLayouts (style : Style) : List Accessor → List Layout
  | [] => []
  | accessor :: chain => accessor.layout style :: chainLayouts style chain

def compareLayouts (style : Style) : List (CompareOp × Expr) → List Layout
  | [] => []
  | (op, e) :: rest => led op.kind (quoted (e.layout style)) :: compareLayouts style rest

def addLayouts (style : Style) : List (AddOp × Expr) → List Layout
  | [] => []
  | (op, e) :: rest => led op.kind (quoted (e.layout style)) :: addLayouts style rest

def mulLayouts (style : Style) : List (MulOp × Expr) → List Layout
  | [] => []
  | (op, e) :: rest => led op.kind (quoted (e.layout style)) :: mulLayouts style rest

def branchLayouts (style : Style) : List (Expr × List Expr) → List Layout
  | [] => []
  | (condition, body) :: rest =>
    row [slot style.wraps (condition.layout style), block (exprLayouts style body)] ::
      branchLayouts style rest

def optionLayout (style : Style) (lead : Kind) : Option Expr → Option Layout
  | none => none
  | some e => some (led lead (slot style.wraps (e.layout style)))

def otherwiseLayout (style : Style) : Option (List Expr) → Option Layout
  | none => none
  | some body => some (led (.keyword .else) (block (exprLayouts style body)))

end

attribute [simp] Expr.layout Control.layout Entry.layout Accessor.layout Target.layout Update.layout

theorem exprLayouts_eq (style : Style) (es : List Expr) :
    exprLayouts style es = es.map (Expr.layout style) := by
  induction es with
  | nil => rfl
  | cons e es ih => rw [exprLayouts, ih, List.map_cons]

theorem entryLayouts_eq (style : Style) (entries : List Entry) :
    entryLayouts style entries = entries.map (Entry.layout style) := by
  induction entries with
  | nil => rfl
  | cons entry entries ih => rw [entryLayouts, ih, List.map_cons]

theorem chainLayouts_eq (style : Style) (chain : List Accessor) :
    chainLayouts style chain = chain.map (Accessor.layout style) := by
  induction chain with
  | nil => rfl
  | cons accessor chain ih => rw [chainLayouts, ih, List.map_cons]

/-- An operator and the operand after it. -/
def operationLayout {ω : Type} (style : Style) (kind : ω → Kind) (pair : ω × Expr) : Layout :=
  led (kind pair.1) (quoted (pair.2.layout style))

theorem compareLayouts_eq (style : Style) (rest : List (CompareOp × Expr)) :
    compareLayouts style rest = rest.map (operationLayout style CompareOp.kind) := by
  induction rest with
  | nil => rfl
  | cons pair rest ih => rw [compareLayouts, ih, List.map_cons, operationLayout]

theorem addLayouts_eq (style : Style) (rest : List (AddOp × Expr)) :
    addLayouts style rest = rest.map (operationLayout style AddOp.kind) := by
  induction rest with
  | nil => rfl
  | cons pair rest ih => rw [addLayouts, ih, List.map_cons, operationLayout]

theorem mulLayouts_eq (style : Style) (rest : List (MulOp × Expr)) :
    mulLayouts style rest = rest.map (operationLayout style MulOp.kind) := by
  induction rest with
  | nil => rfl
  | cons pair rest ih => rw [mulLayouts, ih, List.map_cons, operationLayout]

/-- A condition and the block that it guards. -/
def branchLayout (style : Style) (branch : Expr × Block) : Layout :=
  row [slot style.wraps (branch.1.layout style), block (branch.2.map (Expr.layout style))]

theorem branchLayouts_eq (style : Style) (branches : List (Expr × Block)) :
    branchLayouts style branches = branches.map (branchLayout style) := by
  induction branches with
  | nil => rfl
  | cons branch branches ih => rw [branchLayouts, ih, List.map_cons, branchLayout, exprLayouts_eq]

/-- The layout of a program: its statements. -/
def programLayout (style : Style) (program : Block) : Layout :=
  row (program.map fun e => statement (e.layout style))

/-- The words of a program and their lines. -/
def render (style : Style) (program : Block) : List (Word × Nat) :=
  (programLayout style program).write 0

/-! ### Which programs can be written out -/

def Entry.children : Entry → List Expr
  | .named _ value => [value]
  | .computed key value => [key, value]

def Accessor.children : Accessor → List Expr
  | .index e => [e]
  | .member _ => []
  | .call args => args

def Target.children : Target → List Expr
  | .name _ => []
  | .index container e => [container, e]
  | .member container _ => [container]

def Update.children : Update → List Expr
  | .set value | .addTo value | .subFrom value => [value]
  | .increment | .decrement => []

def Control.children : Control → List Expr
  | .cond branches otherwise =>
    branches.flatMap (fun (condition, body) => condition :: body) ++ otherwise.getD []
  | .while condition body => condition :: body
  | .loop body => body
  | .forIn _ _ items body => items :: body
  | .forOf _ start stop step body => start :: stop :: (step.toList ++ body)
  | .return value => value.toList
  | .continue | .break => []

/-- The expressions that an expression is made of, without the parts of these. -/
def Expr.children : Expr → List Expr
  | .list elements => elements
  | .table entries => entries.flatMap Entry.children
  | .function _ _ body => body
  | .unary _ operand => [operand]
  | .or first rest | .and first rest => first :: rest
  | .compare first rest => first :: rest.map (·.2)
  | .add first rest => first :: rest.map (·.2)
  | .mul first rest => first :: rest.map (·.2)
  | .access target chain => target :: chain.flatMap Accessor.children
  | .assign target update => target.children ++ update.children
  | .global _ value => [value]
  | .control tree => tree.children
  | .null | .bool _ | .number _ | .string _ | .name _ => []

/-- An expression and all its parts satisfy `P`. -/
inductive Expr.Everywhere (P : Expr → Prop) : Expr → Prop where
  | intro {e : Expr} (hnode : P e) (hchildren : ∀ child ∈ e.children, Everywhere P child) :
      Everywhere P e

theorem Expr.everywhere_iff {P : Expr → Prop} {e : Expr} :
    e.Everywhere P ↔ P e ∧ ∀ child ∈ e.children, child.Everywhere P := by
  constructor
  · rintro ⟨hnode, hchildren⟩
    exact ⟨hnode, hchildren⟩
  · rintro ⟨hnode, hchildren⟩
    exact .intro hnode hchildren

namespace Expr.Everywhere

variable {P : Expr → Prop} {e : Expr}

theorem node (h : e.Everywhere P) : P e :=
  (everywhere_iff.1 h).1

theorem child (h : e.Everywhere P) {part : Expr} (hpart : part ∈ e.children) :
    part.Everywhere P :=
  (everywhere_iff.1 h).2 part hpart

end Expr.Everywhere

/-- The nodes that can be written: a joining node joins something, an access reaches for something, a
condition has a branch, and the text of a number reads back. -/
def Expr.Writable (style : Style) : Expr → Prop
  | .number value => Number.ofText? (style.numeral value) = some value
  | .or _ rest | .and _ rest => rest ≠ []
  | .compare _ rest => rest ≠ []
  | .add _ rest => rest ≠ []
  | .mul _ rest => rest ≠ []
  | .access _ chain => chain ≠ []
  | .control (.cond branches _) => branches ≠ []
  | _ => True

end TableScript
