import TableScript.Proofs.Layout
import TableScript.Syntax.Grammar

/-!
How rules run where the tokens ahead are known. A layout covers the way from one place between tokens
to another; a rule that meets the words of a layout goes on behind them.
-/

namespace TableScript

variable {α β : Type}

/-- A word and the line on which it stands. -/
def Token.placed (token : Token) : Word × Nat :=
  (token.word, token.span.line)

theorem Token.textD_eq {token : Token} {text : String} (h : token.text = some text) :
    token.textD = text := by
  rw [Token.textD, h, Option.getD_some]

namespace Layout

/-- Between two places there are the words of a layout that begins on line `n` and ends on line `m`. -/
def Covers : Layout → (n : Nat) → Cursor → (m : Nat) → Cursor → Prop
  | .empty, n, c, m, c' => m = n ∧ c' = c
  | .word w, n, c, m, c' =>
    m = n ∧ c'.line = some n ∧ ∃ token : Token, token.placed = (w, n) ∧ c.rest = token :: c'.rest
  | .newLine, n, c, m, c' => m = n + 1 ∧ c' = c
  | .append first rest, n, c, m, c' => ∃ k c₁, first.Covers n c k c₁ ∧ rest.Covers k c₁ m c'
  | .nest inner, n, c, m, c' => inner.Covers n c m c'

/-- Tokens that are written as a layout says are covered by it. -/
theorem exists_covers (layout : Layout) {n : Nat} {c : Cursor} {rest : List (Word × Nat)}
    (hwrite : c.rest.map Token.placed = layout.write n ++ rest) :
    ∃ c', layout.Covers n c (layout.lastLine n) c' ∧ c'.rest.map Token.placed = rest := by
  induction layout generalizing n c rest with
  | empty => exact ⟨c, ⟨rfl, rfl⟩, hwrite⟩
  | word w =>
      obtain ⟨token, tokens, htokens, hplaced, hrest⟩ := List.map_eq_cons_iff.1 hwrite
      exact ⟨⟨some n, tokens⟩, ⟨rfl, rfl, token, hplaced, htokens⟩, hrest⟩
  | newLine => exact ⟨c, ⟨rfl, rfl⟩, hwrite⟩
  | append first second ihfirst ihsecond =>
      rw [write, List.append_assoc] at hwrite
      obtain ⟨c₁, hfirst, hrest⟩ := ihfirst hwrite
      obtain ⟨c', hsecond, hrest⟩ := ihsecond hrest
      exact ⟨c', ⟨_, c₁, hfirst, hsecond⟩, hrest⟩
  | nest inner ih => exact ih hwrite

theorem Covers.length {layout : Layout} {n m : Nat} {c c' : Cursor} (h : layout.Covers n c m c') :
    c.rest.length = layout.size + c'.rest.length := by
  induction layout generalizing n m c c' with
  | empty =>
      obtain ⟨-, rfl⟩ := h
      simp [size]
  | word w =>
      obtain ⟨-, -, token, -, hrest⟩ := h
      rw [hrest, size, List.length_cons, Nat.add_comm]
  | newLine =>
      obtain ⟨-, rfl⟩ := h
      simp [size]
  | append first second ihfirst ihsecond =>
      obtain ⟨k, c₁, hfirst, hsecond⟩ := h
      rw [ihfirst hfirst, ihsecond hsecond, size, Nat.add_assoc]
  | nest inner ih => exact ih h

/-! ### The words ahead -/

section Word

variable {n m : Nat} {c c' : Cursor} {kind : Kind} {text : Option String}

theorem Covers.head (h : (word ⟨kind, text⟩).Covers n c m c') :
    ∃ token : Token, c.rest.head? = some token ∧ token.kind = kind ∧ token.text = text ∧
      token.span.line = n := by
  obtain ⟨-, -, token, hplaced, hrest⟩ := h
  cases hplaced
  exact ⟨token, by rw [hrest]; rfl, rfl, rfl, rfl⟩

theorem Covers.head_kind (h : (word ⟨kind, text⟩).Covers n c m c') :
    c.rest.head?.map (·.kind) = some kind := by
  obtain ⟨token, hhead, hkind, -⟩ := h.head
  rw [hhead, Option.map_some, hkind]

theorem Covers.advance (h : (word ⟨kind, text⟩).Covers n c m c') : c.advance = c' := by
  obtain ⟨-, hline, token, hplaced, hrest⟩ := h
  cases hplaced
  rw [Cursor.advance, hrest]
  exact congrArg (Cursor.mk · c'.rest) hline.symm

theorem Covers.line (h : (word ⟨kind, text⟩).Covers n c m c') : c'.line = some m := by
  obtain ⟨rfl, hline, -⟩ := h
  exact hline

end Word

end Layout

open Layout

/-! ### Rules that meet words -/

namespace Rule

variable {n m : Nat} {c c' c'' : Cursor} {kind : Kind} {text : Option String}

theorem bind_run {rule : Rule α} {x : α} (h : rule c = .ok (x, c')) (next : α → Rule β) :
    (rule >>= next) c = next x c' := by
  change (rule c >>= fun found => next found.1 found.2) = _
  rw [h]
  rfl

theorem bind_error {rule : Rule α} {rejection : Rejection} (h : rule c = .error rejection)
    (next : α → Rule β) : (rule >>= next) c = .error rejection := by
  change (rule c >>= fun found => next found.1 found.2) = _
  rw [h]
  rfl

theorem peek_run (next : Option Token → Rule β) : (peek >>= next) c = next c.rest.head? c :=
  rfl

theorem peekKind_run (next : Option Kind → Rule β) :
    (peekKind >>= next) c = next (c.rest.head?.map (·.kind)) c :=
  rfl

theorem peekSpan_run (next : Option Span → Rule β) :
    (peekSpan >>= next) c = next (c.rest.head?.map (·.span)) c :=
  rfl

theorem advance_run (h : (word ⟨kind, text⟩).Covers n c m c') (next : Unit → Rule β) :
    (advance >>= next) c = next () c' := by
  rw [← h.advance]
  rfl

theorem accept_run (h : (word ⟨kind, text⟩).Covers n c m c') : accept kind c = .ok (true, c') := by
  rw [accept, peekKind_run, if_pos h.head_kind, advance_run h]
  rfl

theorem accept_other (h : c.rest.head?.map (·.kind) ≠ some kind) :
    accept kind c = .ok (false, c) := by
  rw [accept, peekKind_run, if_neg h]
  rfl

theorem expect_run (h : (word ⟨kind, text⟩).Covers n c m c') (complaint : Complaint) :
    expect kind complaint c = .ok ((), c') := by
  rw [expect, bind_run (accept_run h)]
  rfl

theorem name?_run {name : String} (h : (identifier name).Covers n c m c') :
    name? c = .ok (some name, c') := by
  obtain ⟨token, hhead, hkind, htext, -⟩ := h.head
  rw [name?, peek_run, hhead]
  simp only [hkind, if_true, Token.textD_eq htext]
  exact advance_run h _

theorem name?_other (h : c.rest.head?.map (·.kind) ≠ some .identifier) :
    name? c = .ok (none, c) := by
  rw [name?, peek_run]
  cases hhead : c.rest.head? with
  | none => rfl
  | some token =>
      rw [hhead] at h
      simp only
      rw [if_neg fun hkind => h (congrArg some hkind)]
      rfl

theorem name_run {name : String} (h : (identifier name).Covers n c m c') (complaint : Complaint) :
    Rule.name complaint c = .ok (name, c') := by
  rw [Rule.name, bind_run (name?_run h)]
  rfl

theorem after_run {rule : Rule α} {x : α} (h : (word ⟨kind, text⟩).Covers n c m c')
    (hrule : rule c' = .ok (x, c'')) : after kind rule c = .ok (some x, c'') := by
  rw [after, bind_run (accept_run h), if_pos rfl, bind_run hrule]
  rfl

theorem after_other {rule : Rule α} (h : c.rest.head?.map (·.kind) ≠ some kind) :
    after kind rule c = .ok (none, c) := by
  rw [after, bind_run (accept_other h)]
  rfl

theorem because_run {rule : Rule α} {x : α} (h : rule c = .ok (x, c')) (complaint : Complaint) :
    because complaint rule c = .ok (x, c') := by
  rw [because, h]

theorem optional_run {rule : Rule α} {x : α} (h : rule c = .ok (x, c')) :
    optional rule c = .ok (some x, c') := by
  rw [optional, h]

theorem optional_absent {rule : Rule α} {rejection : Rejection} (h : rule c = .error rejection)
    (hcommitted : rejection.committed = false) : optional rule c = .ok (none, c) := by
  rw [optional, h]
  simp [hcommitted]

theorem optional_committed {rule : Rule α} {rejection : Rejection} (h : rule c = .error rejection)
    (hcommitted : rejection.committed = true) : optional rule c = .error rejection := by
  rw [optional, h]
  simp [hcommitted]

/-! ### Repetition -/

/-- A rule finds items one after another, each with a token at least, and then nothing. -/
inductive Repeats (item : Rule (Option α)) : Cursor → List α → Cursor → Prop where
  | nil {c : Cursor} (h : item c = .ok (none, c)) : Repeats item c [] c
  | cons {c c₁ c' : Cursor} {x : α} {xs : List α} (h : item c = .ok (some x, c₁))
      (hlength : c₁.rest.length < c.rest.length) (hrest : Repeats item c₁ xs c') :
      Repeats item c (x :: xs) c'

theorem Repeats.manyWithin {item : Rule (Option α)} {xs : List α} (h : Repeats item c xs c')
    (budget : List Token) (hbudget : c.rest.length ≤ budget.length) :
    manyWithin item budget c = .ok (xs, c') := by
  induction h generalizing budget with
  | nil h =>
      cases budget with
      | nil => rw [Rule.manyWithin, bind_run h]; rfl
      | cons token budget => rw [Rule.manyWithin, bind_run h]; rfl
  | cons h hlength _ ih =>
      cases budget with
      | nil => exact absurd hbudget (Nat.not_le_of_gt (Nat.lt_of_le_of_lt (Nat.zero_le _) hlength))
      | cons token budget =>
          rw [Rule.manyWithin, bind_run h]
          have hrest := ih budget (Nat.le_of_lt_succ (Nat.lt_of_lt_of_le hlength hbudget))
          exact (bind_run hrest _).trans rfl

theorem Repeats.many {item : Rule (Option α)} {xs : List α} (h : Repeats item c xs c') :
    many item c = .ok (xs, c') :=
  h.manyWithin c.rest (Nat.le_refl _)

/-- Items that are written one after another. Where an item may begin depends on `Q`, where it ends
on `P`, which is to say that the next item or what follows the last one does not belong to it. -/
theorem many_row {item : Rule (Option α)} {piece : α → Layout} {P Q : Nat → Cursor → Prop}
    {xs : List α}
    (hitem : ∀ x ∈ xs, ∀ n c m c', Q n c → (piece x).Covers n c m c' → P m c' →
      item c = .ok (some x, c') ∧ Q m c')
    (hstart : ∀ x ∈ xs, ∀ n c m c', (piece x).Covers n c m c' → P n c)
    (hsize : ∀ x ∈ xs, 0 < (piece x).size) (hcovers : (row (xs.map piece)).Covers n c m c')
    (hQ : Q n c) (hP : P m c') (hlast : item c' = .ok (none, c')) :
    many item c = .ok (xs, c') := by
  refine Repeats.many ?_
  induction xs generalizing n c with
  | nil =>
      obtain ⟨rfl, rfl⟩ := hcovers
      exact .nil hlast
  | cons x xs ih =>
      simp only [List.forall_mem_cons] at hitem hstart hsize
      obtain ⟨k, c₁, hfirst, hrest⟩ := hcovers
      have hnext : P k c₁ := by
        cases xs with
        | nil =>
            obtain ⟨rfl, rfl⟩ := hrest
            exact hP
        | cons y ys =>
            obtain ⟨k', c₂, hsecond, -⟩ := hrest
            exact hstart.2 y (by simp) k c₁ k' c₂ hsecond
      obtain ⟨hrun, hQ'⟩ := hitem.1 n c k c₁ hQ hfirst hnext
      have hlength : c₁.rest.length < c.rest.length := by
        have := hfirst.length
        have := hsize.1
        omega
      exact .cons hrun hlength (ih hitem.2 hstart.2 hsize.2 hrest hQ')

end Rule

end TableScript
