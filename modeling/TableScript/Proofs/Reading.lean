import TableScript.Syntax.Rule

/-!
What a rule reads when it matches. A rule that matches leaves a later place between two tokens, and
what it returns depends on the tokens that it passed; a statement about these follows the steps of
the rule, one after another.
-/

namespace TableScript

variable {α β : Type}

/-- The line of the last of some tokens, or without tokens the line before. -/
def lineAfter (line : Option Nat) (tokens : List Token) : Option Nat :=
  (tokens.getLast?.map (·.span.line)).or line

theorem lineAfter_append (line : Option Nat) (first rest : List Token) :
    lineAfter line (first ++ rest) = lineAfter (lineAfter line first) rest := by
  cases hrest : rest.getLast? <;> simp [lineAfter, List.getLast?_append, hrest]

/-- From one place to another one past the given tokens. -/
structure Cursor.Passes (c : Cursor) (tokens : List Token) (c' : Cursor) : Prop where
  rest : c.rest = tokens ++ c'.rest
  line : c'.line = lineAfter c.line tokens

namespace Cursor.Passes

variable {c c' c'' : Cursor} {first rest : List Token} {token : Token}

theorem nil (c : Cursor) : c.Passes [] c :=
  ⟨rfl, rfl⟩

theorem eq_of_nil (h : c.Passes [] c') : c' = c := by
  obtain ⟨line, tokens⟩ := c'
  obtain ⟨rfl, rfl⟩ := h
  rfl

theorem append (hfirst : c.Passes first c') (hrest : c'.Passes rest c'') :
    c.Passes (first ++ rest) c'' where
  rest := by rw [hfirst.rest, hrest.rest, List.append_assoc]
  line := by rw [hrest.line, hfirst.line, lineAfter_append]

theorem advance (hrest : c.rest = token :: rest) : c.Passes [token] c.advance := by
  constructor <;> simp [Cursor.advance, hrest, lineAfter]

end Cursor.Passes

namespace Rule

/-- If the rule matches at a place, then what it reads from there and returns satisfies `P`. -/
def Reads (rule : Rule α) (c : Cursor) (P : List Token → α → Prop) : Prop :=
  ∀ result c', rule c = .ok (result, c') → ∃ tokens, c.Passes tokens c' ∧ P tokens result

variable {c : Cursor} {P : List Token → α → Prop} {Q : List Token → β → Prop}

theorem Reads.mono {P' : List Token → α → Prop} {rule : Rule α} (h : rule.Reads c P)
    (himplies : ∀ tokens result, P tokens result → P' tokens result) : rule.Reads c P' := by
  intro result c' hrun
  obtain ⟨tokens, hpasses, hP⟩ := h result c' hrun
  exact ⟨tokens, hpasses, himplies tokens result hP⟩

theorem Reads.pure {result : α} (h : P [] result) : (Pure.pure result : Rule α).Reads c P := by
  intro _ _ hrun
  cases hrun
  exact ⟨[], .nil c, h⟩

theorem Reads.throw (rejection : Rejection) : (MonadExcept.throw rejection : Rule α).Reads c P := by
  intro _ _ hrun
  cases hrun

/-- One rule after another: the second starts where the first ended. -/
theorem Reads.bind {rule : Rule α} {next : α → Rule β} (hrule : rule.Reads c P)
    (hnext : ∀ first result c', c.Passes first c' → P first result →
      (next result).Reads c' fun rest value => Q (first ++ rest) value) :
    (rule >>= next).Reads c Q := by
  intro value c'' hrun
  change (rule c >>= fun found => next found.1 found.2) = .ok (value, c'') at hrun
  cases hfirst : rule c with
  | error rejection =>
      rw [hfirst] at hrun
      cases hrun
  | ok found =>
      obtain ⟨result, c'⟩ := found
      rw [hfirst] at hrun
      obtain ⟨first, hpasses, hP⟩ := hrule result c' hfirst
      obtain ⟨rest, hpasses', hQ⟩ := hnext first result c' hpasses hP value c'' hrun
      exact ⟨first ++ rest, hpasses.append hpasses', hQ⟩

theorem Reads.andReturn {rule : Rule α} {f : α → β}
    (h : rule.Reads c fun tokens result => Q tokens (f result)) :
    (rule >>= fun result => Pure.pure (f result)).Reads c Q :=
  h.bind fun _ _ _ _ hQ => .pure (by rwa [List.append_nil])

theorem Reads.ite {p : Prop} [Decidable p] {yes no : Rule α} (hyes : p → yes.Reads c P)
    (hno : ¬p → no.Reads c P) : (if p then yes else no).Reads c P := by
  by_cases hp : p
  · rw [if_pos hp]
    exact hyes hp
  · rw [if_neg hp]
    exact hno hp

/-- What looks at the next token without passing it. -/
theorem Reads.peek {next : Option Token → Rule β} (h : (next c.rest.head?).Reads c Q) :
    (Rule.peek >>= next).Reads c Q :=
  h

theorem Reads.peekKind {next : Option Kind → Rule β}
    (h : (next (c.rest.head?.map (·.kind))).Reads c Q) : (Rule.peekKind >>= next).Reads c Q :=
  h

theorem Reads.peekSpan {next : Option Span → Rule β}
    (h : (next (c.rest.head?.map (·.span))).Reads c Q) : (Rule.peekSpan >>= next).Reads c Q :=
  h

theorem Reads.advance {token : Token} {next : Unit → Rule β} (hhead : c.rest.head? = some token)
    (h : (next ()).Reads c.advance fun tokens value => Q (token :: tokens) value) :
    (Rule.advance >>= next).Reads c Q := by
  obtain ⟨rest, hrest⟩ := List.head?_eq_some_iff.1 hhead
  intro value c' hrun
  obtain ⟨tokens, hpasses, hQ⟩ := h value c' hrun
  exact ⟨token :: tokens, (Cursor.Passes.advance hrest).append hpasses, hQ⟩

/-- What moves past the next token when only its kind is known. -/
theorem Reads.advanceOf {kind : Kind} {next : Unit → Rule β}
    (hkind : c.rest.head?.map (·.kind) = some kind)
    (h : ∀ token : Token, token.kind = kind →
      (next ()).Reads c.advance fun tokens value => Q (token :: tokens) value) :
    (Rule.advance >>= next).Reads c Q := by
  obtain ⟨token, hhead, htoken⟩ := Option.map_eq_some_iff.1 hkind
  exact .advance hhead (h token htoken)

theorem reads_reject (complaint : Complaint) : (reject complaint : Rule α).Reads c P :=
  .peekSpan (.throw _)

theorem reads_noMatch (required : Bool) : (noMatch required : Rule α).Reads c P :=
  .peekSpan (.throw _)

theorem Reads.because {rule : Rule α} (h : rule.Reads c P) (complaint : Complaint) :
    (because complaint rule).Reads c P := by
  intro result c' hrun
  simp only [Rule.because] at hrun
  split at hrun
  · cases hrun
    exact h _ _ ‹_›
  · cases hrun

/-- What may be there is there and satisfies `P`, or is not and what was passed satisfies `Q`. -/
inductive Found (P : List Token → α → Prop) (Q : List Token → Prop) :
    List Token → Option α → Prop where
  | some {tokens : List Token} {item : α} (hitem : P tokens item) : Found P Q tokens (some item)
  | none {tokens : List Token} (htokens : Q tokens) : Found P Q tokens none

/-- What may be left out: without it there are no tokens. -/
abbrev Optional (P : List Token → α → Prop) : List Token → Option α → Prop :=
  Found P (· = [])

/-- A token that leads to an item, and then the item itself. -/
inductive LedBy (lead : Token → α → Prop) (P : List Token → α → Prop) :
    List Token → α → Prop where
  | intro {token : Token} {tokens : List Token} {item : α} (hlead : lead token item)
      (hitem : P tokens item) : LedBy lead P (token :: tokens) item

theorem Reads.optional {rule : Rule α} (h : rule.Reads c P) :
    (optional rule).Reads c (Optional P) := by
  intro result c' hrun
  simp only [Rule.optional] at hrun
  split at hrun
  next found c'' hfound =>
    cases hrun
    obtain ⟨tokens, hpasses, hP⟩ := h _ _ hfound
    exact ⟨tokens, hpasses, .some hP⟩
  next rejection _ =>
    split at hrun
    · cases hrun
    · cases hrun
      exact ⟨[], .nil c, .none rfl⟩

theorem accept_bind (kind : Kind) (next : Bool → Rule β) :
    (accept kind >>= next) = (Rule.peekKind >>= fun found =>
      if found = some kind then Rule.advance >>= fun _ => next true else next false) := by
  rw [accept, bind_assoc]
  congr 1
  funext found
  split <;> simp

/-- A token of the given kind is there and is passed, or nothing is. -/
theorem Reads.accept {kind : Kind} {next : Bool → Rule β}
    (hyes : ∀ (token : Token) (c' : Cursor), token.kind = kind →
      (next true).Reads c' fun tokens value => Q (token :: tokens) value)
    (hno : (next false).Reads c Q) : (Rule.accept kind >>= next).Reads c Q := by
  rw [accept_bind]
  refine .peekKind (.ite (fun hkind => ?_) fun _ => hno)
  exact .advanceOf hkind fun token htoken => hyes token _ htoken

theorem expect_bind (kind : Kind) (complaint : Complaint) (next : Unit → Rule β) :
    (expect kind complaint >>= next) = (Rule.accept kind >>= fun found =>
      if found then next () else reject complaint >>= next) := by
  rw [expect, bind_assoc]
  congr 1
  funext found
  cases found <;> simp

theorem Reads.expect {kind : Kind} {complaint : Complaint} {next : Unit → Rule β}
    (h : ∀ (token : Token) (c' : Cursor), token.kind = kind →
      (next ()).Reads c' fun tokens value => Q (token :: tokens) value) :
    (Rule.expect kind complaint >>= next).Reads c Q := by
  rw [expect_bind]
  refine .accept h ?_
  exact (reads_reject complaint).bind fun _ _ _ _ (hfalse : False) => hfalse.elim

/-- Some tokens are a name. -/
def IsName (tokens : List Token) (name : String) : Prop :=
  ∃ token, token.kind = .identifier ∧ tokens = [token] ∧ name = token.textD

theorem reads_name? : name?.Reads c (Optional IsName) := by
  refine .peek ?_
  cases hhead : c.rest.head? with
  | none => exact .pure (.none rfl)
  | some token =>
      refine .ite (fun hkind => ?_) fun _ => .pure (.none rfl)
      exact .advance hhead (.pure (.some ⟨token, hkind, rfl, rfl⟩))

theorem reads_name (complaint : Complaint) : (name complaint).Reads c IsName := by
  refine reads_name?.bind fun tokens found c' _ hfound => ?_
  cases hfound with
  | some hname => exact .pure (by simpa using hname)
  | none htokens => exact reads_reject complaint

theorem Reads.after {kind : Kind} {rule : Rule α} (h : ∀ c', rule.Reads c' P) :
    (after kind rule).Reads c (Optional (LedBy (fun token _ => token.kind = kind) P)) := by
  refine .accept (fun token c' hkind => ?_) (.pure (.none rfl))
  exact .andReturn ((h c').mono fun tokens item hitem => .some (.intro hkind hitem))

/-! ### Repetition -/

/-- Items that are read one after another, each knowing the line of the token before it. -/
inductive Items (P : Option Nat → List Token → α → Prop) :
    Option Nat → List Token → List α → Prop where
  | nil (line : Option Nat) : Items P line [] []
  | cons {line : Option Nat} {tokens rest : List Token} {item : α} {items : List α}
      (hitem : P line tokens item) (hrest : Items P (lineAfter line tokens) rest items) :
      Items P line (tokens ++ rest) (item :: items)

/-- A rule repeats an item, and when it finds no more of them it has passed tokens with `Q`. -/
theorem Reads.manyWithin {P : Option Nat → List Token → α → Prop} {Q : List Token → Prop}
    {rule : Rule (Option α)} (h : ∀ c, rule.Reads c (Found (P c.line) Q)) (hnil : Q [])
    (budget : List Token) (c : Cursor) :
    (manyWithin rule budget).Reads c fun tokens items =>
      ∃ front last, tokens = front ++ last ∧ Items P c.line front items ∧ Q last := by
  induction budget generalizing c with
  | nil =>
      refine (h c).bind fun tokens found c' _ hfound => .pure ?_
      cases hfound with
      | some hitem => exact ⟨_, [], rfl, by simpa using Items.cons hitem (.nil _), hnil⟩
      | none htokens => exact ⟨[], tokens, by simp, .nil _, htokens⟩
  | cons token budget ih =>
      refine (h c).bind fun tokens found c' hpasses hfound => ?_
      cases hfound with
      | some hitem =>
          refine (ih c').bind fun rest items _ _ hitems => .pure ?_
          obtain ⟨front, last, rfl, hitems, hlast⟩ := hitems
          rw [hpasses.line] at hitems
          exact ⟨tokens ++ front, last, by simp, .cons hitem hitems, hlast⟩
      | none htokens => exact .pure ⟨[], tokens, by simp, .nil _, htokens⟩

theorem Reads.manyThen {P : Option Nat → List Token → α → Prop} {Q : List Token → Prop}
    {rule : Rule (Option α)} (h : ∀ c, rule.Reads c (Found (P c.line) Q)) (hnil : Q []) (c : Cursor) :
    (many rule).Reads c fun tokens items =>
      ∃ front last, tokens = front ++ last ∧ Items P c.line front items ∧ Q last :=
  Reads.manyWithin h hnil c.rest c

theorem Reads.many {P : Option Nat → List Token → α → Prop} {rule : Rule (Option α)}
    (h : ∀ c, rule.Reads c (Optional (P c.line))) (c : Cursor) :
    (many rule).Reads c (Items P c.line) := by
  refine (Reads.manyThen h rfl c).mono fun tokens items hread => ?_
  obtain ⟨front, last, rfl, hitems, rfl⟩ := hread
  rw [List.append_nil]
  exact hitems

end Rule

end TableScript
