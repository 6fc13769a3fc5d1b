import TableScript.Proofs.Matching
import TableScript.Proofs.Parsed

/-!
Where expressions end. Tokens bind to what stands before them more or less tightly, and what one level
of precedence has read is read by all looser ones too, up to a token that binds to it on their level.
-/

namespace TableScript

open Rule Layout

/-! ### What ends an expression -/

/-- How tightly a token binds to the expression before it: parts and calls bind tightest, then the
operators by their precedence, then what makes it a target or goes on with control flow. Other tokens
do not continue an expression. -/
def Kind.strength : Kind → Nat
  | .symbol .dot | .symbol .leftBracket | .symbol .leftParen => 7
  | .symbol .star | .symbol .slash | .symbol .power | .symbol .floorSlash | .symbol .percent => 6
  | .symbol .plus | .symbol .minus => 5
  | .symbol .equal | .symbol .notEqual | .symbol .less | .symbol .lessEqual | .symbol .greater
  | .symbol .greaterEqual => 4
  | .keyword .and => 3
  | .keyword .or => 2
  | .symbol .assign | .symbol .addAssign | .symbol .subAssign | .symbol .increment
  | .symbol .decrement | .symbol .colon | .keyword .elif | .keyword .else => 1
  | _ => 0

/-- The next token binds less tightly than the given level, or is a bracket on a new line. -/
def Cursor.Stops (c : Cursor) (level : Nat) : Prop :=
  ∀ token ∈ c.rest.head?, token.kind.strength < level ∨
    (token.kind = .symbol .leftParen ∨ token.kind = .symbol .leftBracket) ∧
      c.line ≠ some token.span.line

namespace Cursor.Stops

variable {n m level : Nat} {c c' : Cursor} {kind : Kind} {text : Option String}

theorem mono {level' : Nat} (h : c.Stops level) (hlevel : level ≤ level') : c.Stops level' := by
  intro token htoken
  rcases h token htoken with hstrength | hbracket
  · exact .inl (Nat.lt_of_lt_of_le hstrength hlevel)
  · exact .inr hbracket

theorem of_word (h : (word ⟨kind, text⟩).Covers n c m c') (hstrength : kind.strength < level) :
    c.Stops level := by
  obtain ⟨token, hhead, rfl, -⟩ := h.head
  intro token' htoken'
  cases hhead.symm.trans htoken'
  exact .inl hstrength

/-- Of the tokens that bind as tightly as that only brackets can be next. -/
theorem seven_le_strength (h : c.Stops level) (hnext : c.rest.head?.map (·.kind) = some kind)
    (hlevel : level ≤ kind.strength) : 7 ≤ kind.strength := by
  obtain ⟨token, hhead, rfl⟩ := Option.map_eq_some_iff.1 hnext
  rcases h token hhead with hstrength | ⟨hkind | hkind, -⟩
  · exact absurd hstrength (Nat.not_lt_of_le hlevel)
  · rw [hkind]; decide
  · rw [hkind]; decide

theorem ne (h : c.Stops level) (hlevel : level ≤ kind.strength) (hoperator : kind.strength < 7) :
    c.rest.head?.map (·.kind) ≠ some kind :=
  fun hnext => Nat.not_lt_of_le (h.seven_le_strength hnext hlevel) hoperator

end Cursor.Stops

namespace Grammar

variable {deeper : Nested} {n m : Nat} {c c' : Cursor} {required : Bool} {e : Expr}

/-! ### Where expressions begin -/

/-- The keywords at which a declaration or control flow begins. -/
def isLeading : Kind → Bool
  | .keyword .global | .keyword .if | .keyword .while | .keyword .loop | .keyword .for
  | .keyword .return | .keyword .continue | .keyword .break | .keyword .require => true
  | _ => false

/-- Neither a declaration nor control flow begins here. -/
def Plain (c : Cursor) : Prop :=
  ∀ kind, c.rest.head?.map (·.kind) = some kind → isLeading kind = false

/-- The next token closes a bracket, or there is none. -/
def Closed (c : Cursor) : Prop :=
  ∀ kind, c.rest.head?.map (·.kind) = some kind →
    kind = .symbol .rightParen ∨ kind = .symbol .rightBracket ∨ kind = .symbol .rightBrace

section Places

variable {kind : Kind} {text : Option String}

theorem plain_of_word (h : (word ⟨kind, text⟩).Covers n c m c') (hkind : isLeading kind = false) :
    Plain c := by
  intro kind' hkind'
  cases h.head_kind.symm.trans hkind'
  exact hkind

theorem closed_of_kind (h : c.rest.head?.map (·.kind) = some kind)
    (hkind : kind = .symbol .rightParen ∨ kind = .symbol .rightBracket ∨
      kind = .symbol .rightBrace) : Closed c := by
  intro kind' hkind'
  cases h.symm.trans hkind'
  exact hkind

theorem closed_of_word (h : (word ⟨kind, text⟩).Covers n c m c')
    (hkind : kind = .symbol .rightParen ∨ kind = .symbol .rightBracket ∨
      kind = .symbol .rightBrace) : Closed c :=
  closed_of_kind h.head_kind hkind

theorem Closed.stops (h : Closed c) : c.Stops 1 := by
  intro token htoken
  left
  rcases h token.kind (by rw [Option.mem_def.1 htoken]; rfl) with hkind | hkind | hkind <;>
    rw [hkind] <;> decide

theorem Plain.control? (h : Plain c) : control? deeper c = .ok (none, c) := by
  rw [Grammar.control?, peekKind_run]
  refine congrFun (g := (pure none : Rule (Option Control))) ?_ c
  split
  iterate 8 next hkind => exact absurd (h _ hkind) (by decide)
  rfl

end Places

/-- A word that is a value by itself. -/
theorem literal?_word {kind : Kind} {text : Option String} (h : (word ⟨kind, text⟩).Covers n c m c')
    (hliteral : ∀ token : Token, token.kind = kind → token.text = text → Literal token e) :
    literal? c = .ok (some e, c') := by
  obtain ⟨token, hhead, hkind, htext, -⟩ := h.head
  rw [literal?, peek_run, hhead, ← h.advance]
  cases hliteral token hkind htext with
  | null hkind => simp only [hkind]; rfl
  | true hkind => simp only [hkind]; rfl
  | false hkind => simp only [hkind]; rfl
  | name hkind => simp only [hkind]; rfl
  | string hkind => simp only [hkind]; rfl
  | number hkind hvalue => simp only [hkind, hvalue]; rfl

theorem value_word {kind : Kind} {text : Option String} (h : (word ⟨kind, text⟩).Covers n c m c')
    (hliteral : ∀ token : Token, token.kind = kind → token.text = text → Literal token e) :
    value deeper required c = .ok (e, c') := by
  rw [value, bind_run (literal?_word h hliteral)]
  rfl

/-- A token that is no value by itself. -/
theorem literal?_other {kind : Kind} {text : Option String} (h : (word ⟨kind, text⟩).Covers n c m c')
    (hkind : kind = .symbol .leftParen ∨ kind = .symbol .leftBracket ∨ kind = .symbol .leftBrace ∨
      kind = .keyword .func) : literal? c = .ok (none, c) := by
  obtain ⟨token, hhead, rfl, -⟩ := h.head
  rw [literal?, peek_run, hhead]
  rcases hkind with hkind | hkind | hkind | hkind <;> simp only [hkind] <;> rfl

/-! ### From operands to expressions -/

theorem accessor?_stops (deeper : Nested) (h : c.Stops 7) :
    accessor? deeper c = .ok (none, c) := by
  rw [accessor?, peekKind_run]
  cases hhead : c.rest.head? with
  | none => rfl
  | some token =>
      rw [Option.map_some]
      rcases h token hhead with hstrength | ⟨hkind | hkind, hline⟩
      · refine congrFun (g := (pure none : Rule (Option Accessor))) ?_ c
        split
        iterate 3 next hkind =>
          rw [Option.some.inj hkind] at hstrength
          exact absurd hstrength (by decide)
        rfl
      · rw [hkind]
        exact (bind_run (onSameLine_run hhead) _).trans (by rw [decide_eq_false hline]; rfl)
      · rw [hkind]
        exact (bind_run (onSameLine_run hhead) _).trans (by rw [decide_eq_false hline]; rfl)

theorem access_of_value (hvalue : value deeper required c = .ok (e, c')) (hstops : c'.Stops 7) :
    access deeper required c = .ok (e, c') := by
  have hchain := (Repeats.nil (accessor?_stops deeper hstops)).many
  rw [access, bind_run hvalue, bind_run hchain]
  rfl

theorem unary_of_access (hplain : Plain c) (hop : (c.rest.head?.map (·.kind)).bind unaryOp? = none)
    (haccess : access deeper required c = .ok (e, c')) :
    unary deeper required c = .ok (e, c') := by
  rw [unary, peekKind_run, hop]
  simp only
  rw [primary, bind_run hplain.control?]
  exact haccess

section Operators

variable {ω : Type} {operator? : Kind → Option ω} {operand : Bool → Rule Expr}
  {complaint : Complaint} {strength : Nat}

theorem operation_stops (hoperator : ∀ {kind op}, operator? kind = some op → kind.strength = strength)
    (hstrength : strength < 7) (hstops : c.Stops strength) :
    operation operator? operand complaint c = .ok (none, c) := by
  have hnone : (c.rest.head?.map (·.kind)).bind operator? = none := by
    cases hop : (c.rest.head?.map (·.kind)).bind operator? with
    | none => rfl
    | some op =>
        obtain ⟨kind, hkind, hop⟩ := Option.bind_eq_some_iff.1 hop
        have hseven := hstops.seven_le_strength hkind (Nat.le_of_eq (hoperator hop).symm)
        rw [hoperator hop] at hseven
        exact absurd hstrength (Nat.not_lt_of_le hseven)
  rw [operation, peekKind_run, hnone]
  rfl

theorem binary_of_operand {node : Expr → List (ω × Expr) → Expr}
    (hoperator : ∀ {kind op}, operator? kind = some op → kind.strength = strength)
    (hstrength : strength < 7) (hoperand : operand required c = .ok (e, c'))
    (hstops : c'.Stops strength) :
    binary operator? operand complaint node required c = .ok (e, c') := by
  have hrest : many (operation operator? operand complaint) c' = .ok ([], c') :=
    (Repeats.nil (operation_stops hoperator hstrength hstops)).many
  rw [binary, bind_run hoperand, bind_run hrest]
  rfl

theorem logical_of_operand {keyword : Keyword} {node : Expr → List Expr → Expr}
    (hoperand : operand required c = .ok (e, c'))
    (hother : c'.rest.head?.map (·.kind) ≠ some (.keyword keyword)) :
    logical keyword operand complaint node required c = .ok (e, c') := by
  have hrest : many (after (.keyword keyword) (because complaint (operand true))) c' = .ok ([], c') :=
    (Repeats.nil (after_other hother)).many
  rw [logical, bind_run hoperand, bind_run hrest]
  rfl

end Operators

theorem unaryOp?_kind (op : UnaryOp) : unaryOp? op.kind = some op := by
  cases op <;> rfl

theorem mulOp?_kind (op : MulOp) : mulOp? op.kind = some op := by
  cases op <;> rfl

theorem addOp?_kind (op : AddOp) : addOp? op.kind = some op := by
  cases op <;> rfl

theorem compareOp?_kind (op : CompareOp) : compareOp? op.kind = some op := by
  cases op <;> rfl

theorem strength_of_mulOp? {kind : Kind} {op : MulOp} (h : mulOp? kind = some op) :
    kind.strength = 6 := by
  rw [kind_of_mulOp? h]
  cases op <;> rfl

theorem strength_of_addOp? {kind : Kind} {op : AddOp} (h : addOp? kind = some op) :
    kind.strength = 5 := by
  rw [kind_of_addOp? h]
  cases op <;> rfl

theorem strength_of_compareOp? {kind : Kind} {op : CompareOp} (h : compareOp? kind = some op) :
    kind.strength = 4 := by
  rw [kind_of_compareOp? h]
  cases op <;> rfl

theorem mul_of_unary (h : unary deeper required c = .ok (e, c')) (hstops : c'.Stops 6) :
    mul deeper required c = .ok (e, c') :=
  binary_of_operand strength_of_mulOp? (by decide) h hstops

theorem add_of_mul (h : mul deeper required c = .ok (e, c')) (hstops : c'.Stops 5) :
    add deeper required c = .ok (e, c') :=
  binary_of_operand strength_of_addOp? (by decide) h hstops

theorem compare_of_add (h : add deeper required c = .ok (e, c')) (hstops : c'.Stops 4) :
    compare deeper required c = .ok (e, c') :=
  binary_of_operand strength_of_compareOp? (by decide) h hstops

theorem and_of_compare (h : compare deeper required c = .ok (e, c')) (hstops : c'.Stops 3) :
    and deeper required c = .ok (e, c') :=
  logical_of_operand h (hstops.ne (by decide) (by decide))

theorem or_of_and (h : and deeper required c = .ok (e, c')) (hstops : c'.Stops 2) :
    or deeper required c = .ok (e, c') :=
  logical_of_operand h (hstops.ne (by decide) (by decide))

theorem add_of_unary (h : unary deeper required c = .ok (e, c')) (hstops : c'.Stops 5) :
    add deeper required c = .ok (e, c') :=
  add_of_mul (mul_of_unary h (hstops.mono (by decide))) hstops

theorem compare_of_unary (h : unary deeper required c = .ok (e, c')) (hstops : c'.Stops 4) :
    compare deeper required c = .ok (e, c') :=
  compare_of_add (add_of_unary h (hstops.mono (by decide))) hstops

theorem and_of_unary (h : unary deeper required c = .ok (e, c')) (hstops : c'.Stops 3) :
    and deeper required c = .ok (e, c') :=
  and_of_compare (compare_of_unary h (hstops.mono (by decide))) hstops

theorem or_of_unary (h : unary deeper required c = .ok (e, c')) (hstops : c'.Stops 2) :
    or deeper required c = .ok (e, c') :=
  or_of_and (and_of_unary h (hstops.mono (by decide))) hstops

theorem update?_stops (h : c.Stops 1) : update? deeper c = .ok (none, c) := by
  rw [update?, peekKind_run]
  refine congrFun (g := (pure none : Rule (Option Update))) ?_ c
  split
  iterate 5 next hkind => exact absurd hkind (h.ne (by decide) (by decide))
  rfl

theorem Plain.ne_global (h : Plain c) :
    c.rest.head?.map (·.kind) ≠ some (.keyword .global) :=
  fun hkind => absurd (h _ hkind) (by decide)

theorem expr_of_or (hplain : Plain c) (hor : or deeper required c = .ok (e, c'))
    (hstops : c'.Stops 1) : expr deeper required c = .ok (e, c') := by
  rw [expr, bind_run (accept_other hplain.ne_global), if_neg (by decide), bind_run hplain.control?]
  simp only
  rw [peekSpan_run, bind_run hor, bind_run (update?_stops hstops)]
  rfl

theorem expr_of_update {left : Expr} {c₁ : Cursor} {target : Target} {update : Update}
    (hplain : Plain c) (hleft : or deeper required c = .ok (left, c₁))
    (hupdate : update? deeper c₁ = .ok (some update, c')) (htarget : target? left = some target) :
    expr deeper required c = .ok (.assign target update, c') := by
  rw [expr, bind_run (accept_other hplain.ne_global), if_neg (by decide), bind_run hplain.control?]
  simp only
  rw [peekSpan_run, bind_run hleft, bind_run hupdate]
  simp only [htarget]
  rfl

theorem expr_of_unary (hplain : Plain c) (hunary : unary deeper required c = .ok (e, c'))
    (hstops : c'.Stops 1) : expr deeper required c = .ok (e, c') :=
  expr_of_or hplain (or_of_unary hunary (hstops.mono (by decide))) hstops

/-- A value that begins with a word of the given kind. -/
theorem expr_of_value {kind : Kind} {text : Option String} {k : Nat} {c₁ : Cursor}
    (hword : (word ⟨kind, text⟩).Covers n c k c₁) (hleading : isLeading kind = false)
    (hop : unaryOp? kind = none) (hvalue : value deeper required c = .ok (e, c'))
    (hstops : c'.Stops 1) : expr deeper required c = .ok (e, c') := by
  have hplain := plain_of_word hword hleading
  have haccess := access_of_value hvalue (hstops.mono (by decide))
  have hunary := unary_of_access hplain (by rw [hword.head_kind]; exact hop) haccess
  exact expr_of_unary hplain hunary hstops

theorem expr_of_control {control : Control} (h : control? deeper c = .ok (some control, c')) :
    expr deeper required c = .ok (.control control, c') := by
  have hglobal : c.rest.head?.map (·.kind) ≠ some (.keyword .global) := by
    intro hkind
    rw [control?, peekKind_run, hkind] at h
    cases h
  rw [expr, bind_run (accept_other hglobal), if_neg (by decide), bind_run h]
  rfl

/-! ### Where there is no expression -/

/-- The tokens at which a value begins. -/
def startsValue : Kind → Bool
  | .identifier | .number | .string | .keyword .null | .keyword .true | .keyword .false
  | .keyword .func | .symbol .leftBracket | .symbol .leftBrace | .symbol .leftParen => true
  | _ => false

/-- The tokens at which an expression begins. -/
def starts (kind : Kind) : Bool :=
  isLeading kind || (unaryOp? kind).isSome || startsValue kind

/-- No expression begins here. -/
def Absent (c : Cursor) : Prop :=
  ∀ kind, c.rest.head?.map (·.kind) = some kind → starts kind = false

theorem Closed.absent (h : Closed c) : Absent c := by
  intro kind hkind
  rcases h kind hkind with rfl | rfl | rfl <;> rfl

theorem literal?_absent (h : ∀ kind, c.rest.head?.map (·.kind) = some kind → startsValue kind = false) :
    literal? c = .ok (none, c) := by
  rw [literal?, peek_run]
  cases hhead : c.rest.head? with
  | none => rfl
  | some token =>
      rw [hhead] at h
      have hstarts := h token.kind rfl
      refine congrFun (g := (pure none : Rule (Option Expr))) ?_ c
      simp only
      split
      iterate 6 next hkind =>
        rw [hkind] at hstarts
        cases hstarts
      rfl

theorem value_absent (h : ∀ kind, c.rest.head?.map (·.kind) = some kind → startsValue kind = false) :
    value deeper required c =
      .error ((Rejection.noMatch (c.rest.head?.map (·.span))).demanded required) := by
  rw [value, bind_run (literal?_absent h)]
  simp only
  rw [peekKind_run]
  refine congrFun (g := (noMatch required : Rule Expr)) ?_ c
  split
  iterate 4 next hkind => exact absurd (h _ hkind) (by decide)
  rfl

theorem Absent.plain (h : Absent c) : Plain c := by
  intro kind hkind
  have hstarts := h kind hkind
  simp only [starts, Bool.or_eq_false_iff] at hstarts
  exact hstarts.1.1

/-- Where a value would have to stand and fails, so does the expression. -/
theorem expr_of_value_error {rejection : Rejection} (hplain : Plain c)
    (hop : (c.rest.head?.map (·.kind)).bind unaryOp? = none)
    (hvalue : value deeper required c = .error rejection) :
    expr deeper required c = .error rejection := by
  have hunary : unary deeper required c = .error rejection := by
    rw [unary, peekKind_run, hop]
    simp only
    rw [primary, bind_run hplain.control?]
    simp only
    rw [access, bind_error hvalue]
  have hor : or deeper required c = .error rejection := by
    rw [or, logical, bind_error]
    rw [and, logical, bind_error]
    rw [compare, binary, bind_error]
    rw [add, binary, bind_error]
    rw [mul, binary, bind_error hunary]
  rw [expr, bind_run (accept_other hplain.ne_global), if_neg (by decide), bind_run hplain.control?]
  simp only
  rw [peekSpan_run, bind_error hor]

theorem expr_absent (h : Absent c) :
    expr deeper required c =
      .error ((Rejection.noMatch (c.rest.head?.map (·.span))).demanded required) := by
  refine expr_of_value_error h.plain ?_ (value_absent fun kind hkind => ?_)
  · cases hhead : c.rest.head?.map (·.kind) with
    | none => rfl
    | some kind =>
        have hstarts := h kind hhead
        simp only [starts, Bool.or_eq_false_iff] at hstarts
        simpa using hstarts.1.2
  · have hstarts := h kind hkind
    simp only [starts, Bool.or_eq_false_iff] at hstarts
    exact hstarts.2

end Grammar

end TableScript
