/-!
Places in a source text. Offsets count characters; lines and columns count from zero and are shown
counting from one.
-/

namespace TableScript

/-- The characters `start ≤ i < stop` of a text, and the line and column where they begin. -/
structure Span where
  start : Nat
  stop : Nat
  line : Nat
  column : Nat
deriving DecidableEq, Repr, Inhabited

/-- How messages name a place. -/
def Span.text (span : Span) : String :=
  s!"line {span.line + 1}, column {span.column + 1}"

/-- A point between two characters. -/
structure Position where
  offset : Nat
  line : Nat
  column : Nat
deriving DecidableEq, Repr

namespace Position

/-- Where every text begins. -/
def origin : Position :=
  ⟨0, 0, 0⟩

/-- The point after `c`, when `rest` follows it. A carriage return and the line feed after it end one
line together, so the return alone moves neither line nor column. -/
def advance (p : Position) (c : Char) (rest : List Char) : Position :=
  let next := p.offset + 1
  match c, rest with
  | '\r', '\n' :: _ => ⟨next, p.line, p.column⟩
  | '\r', _ | '\n', _ => ⟨next, p.line + 1, 0⟩
  | _, _ => ⟨next, p.line, p.column + 1⟩

/-- The span of the `length` characters after a point. -/
def span (p : Position) (length : Nat) : Span :=
  ⟨p.offset, p.offset + length, p.line, p.column⟩

end Position

end TableScript
