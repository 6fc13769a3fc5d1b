import TableScript.Proofs.Incomplete

/-!
The limit of nesting. The rules for the levels that are allowed stand over a bottom, where every
rule fails. Here they are put over other bottoms: more levels, or rules that find nothing. Either
the bottom is not reached, and then it does not matter which it is; or it is reached at some place,
and what happens there decides.
-/

namespace TableScript

open Rule

/-- Whether a complaint is about the limit of nesting. -/
def Complaint.isDepth : Complaint → Bool
  | nestedTooDeeply _ => true
  | _ => false

namespace Rejection

/-- The limit of nesting is reached at a place. -/
def limit (span : Option Span) (construct : Construct) : Rejection :=
  (noMatch span).final.because (.nestedTooDeeply construct)

/-- A failure that is not about the limit. It wants more tokens where there are none. -/
structure Ordinary (r : Rejection) : Prop where
  wants : r.wantsMore = r.span.isNone
  complaint : ∀ complaint ∈ r.complaint, complaint.isDepth = false

theorem Ordinary.noMatch (span : Option Span) : (noMatch span).Ordinary :=
  ⟨rfl, fun _ hmem => by cases hmem⟩

theorem Ordinary.demanded {r : Rejection} (h : r.Ordinary) (required : Bool) :
    (r.demanded required).Ordinary :=
  ⟨h.wants, h.complaint⟩

theorem Ordinary.because {r : Rejection} (h : r.Ordinary) {complaint : Complaint}
    (hcomplaint : complaint.isDepth = false) : (r.because complaint).Ordinary := by
  refine ⟨h.wants, fun found hfound => ?_⟩
  rcases Option.or_eq_some_iff.1 hfound with hinner | ⟨-, houter⟩
  · exact h.complaint found hinner
  · cases houter
    exact hcomplaint

theorem fatal_limit (span : Option Span) (construct : Construct) : (limit span construct).Fatal :=
  ⟨rfl, rfl⟩

end Rejection

namespace Nested

/-- Each of the rules fails at a place, and in the same way. -/
structure FailsAt (bottom : Nested) (c : Cursor) (r : Rejection) : Prop where
  expr : ∀ required, bottom.expr required c = .error r
  operand : bottom.operand c = .error r

/-- None of the rules finds anything at a place. -/
structure Declines (bottom : Nested) (c : Cursor) : Prop where
  expr : ∀ required, bottom.expr required c =
    .error ((Rejection.noMatch (c.rest.head?.map (·.span))).demanded required)
  operand : bottom.operand c =
    .error ((Rejection.noMatch (c.rest.head?.map (·.span))).demanded true)

end Nested

/-- The brackets in which there may be nothing. -/
def brackets : List (Kind × Kind) :=
  [(.symbol .leftParen, .symbol .rightParen), (.symbol .leftBracket, .symbol .rightBracket),
    (.symbol .leftBrace, .symbol .rightBrace)]

/-- The last of the tokens before a place opens a bracket, and the next one closes it. -/
def Cursor.InEmptyBrackets (before : List Token) (c : Cursor) : Prop :=
  ∃ front opening closing, before = front ++ [opening] ∧ c.rest.head? = some closing ∧
    (opening.kind, closing.kind) ∈ brackets

theorem Cursor.InEmptyBrackets.append {before : List Token} {c : Cursor}
    (h : c.InEmptyBrackets before) (first : List Token) : c.InEmptyBrackets (first ++ before) := by
  obtain ⟨front, opening, closing, rfl, hclosing, hpair⟩ := h
  exact ⟨first ++ front, opening, closing, by rw [List.append_assoc], hclosing, hpair⟩

/-! ### Rules over a bottom -/

namespace Rule

variable {α β : Type}

theorem NextIs.passes {kind : Kind} {c : Cursor} (h : NextIs kind c) :
    ∃ token : Token, token.kind = kind ∧ c.Passes [token] c.advance := by
  obtain ⟨token, hhead, hkind⟩ := Option.map_eq_some_iff.1 h
  obtain ⟨rest, hrest⟩ := List.head?_eq_some_iff.1 hhead
  exact ⟨token, hkind, .advance hrest⟩

/-- From a place on, a rule over a bottom does not get there. -/
structure Avoids (rule : Nested → Rule α) (c : Cursor) : Prop where
  same : ∀ bottom, rule bottom c = rule (Grammar.nested 0) c
  passes : ∀ x c', rule (Grammar.nested 0) c = .ok (x, c') → ∃ used, c.Passes used c'
  ordinary : ∀ r, rule (Grammar.nested 0) c = .error r → r.Ordinary

/-- From a place on, a rule over a bottom gets there after the tokens `used`, at `c'`. If the bottom
finds nothing, then either the rule fails there too or it has come to brackets that are empty. -/
structure Reaches (rule : Nested → Rule α) (c : Cursor) (used : List Token) (c' : Cursor)
    (construct : Construct) : Prop where
  passes : c.Passes used c'
  fails : rule (Grammar.nested 0) c = .error (.limit (c'.rest.head?.map (·.span)) construct)
  asks : ∀ bottom r, r.Fatal → bottom.FailsAt c' r → rule bottom c = .error r
  declined : ∀ bottom, bottom.Declines c' → c'.InEmptyBrackets used ∨
    ∃ r, rule bottom c = .error r ∧ r.span = c'.rest.head?.map (·.span)

/-- What a rule over a bottom does at a place: the bottom is reached or is not. -/
def Levelled (rule : Nested → Rule α) (c : Cursor) : Prop :=
  Avoids rule c ∨ ∃ used c' construct, Reaches rule c used c' construct

namespace Levelled

variable {rule rule' : Nested → Rule α} {next : Nested → α → Rule β} {c d : Cursor}
  {used : List Token}

/-- A rule that goes on as another one behind some tokens. -/
theorem shift (h : Levelled rule' d) (hpasses : c.Passes used d)
    (heq : ∀ bottom, rule bottom c = rule' bottom d) : Levelled rule c := by
  rcases h with h | ⟨more, c', construct, h⟩
  · refine .inl ⟨fun bottom => ?_, fun x c' hrun => ?_, fun r hrun => ?_⟩
    · rw [heq, heq, h.same]
    · rw [heq] at hrun
      obtain ⟨more, hmore⟩ := h.passes x c' hrun
      exact ⟨_, hpasses.append hmore⟩
    · rw [heq] at hrun
      exact h.ordinary r hrun
  · refine .inr ⟨used ++ more, c', construct, hpasses.append h.passes, ?_, ?_, ?_⟩
    · rw [heq, h.fails]
    · intro bottom r hfatal hfails
      rw [heq, h.asks bottom r hfatal hfails]
    · intro bottom hdeclines
      rw [heq]
      exact (h.declined bottom hdeclines).imp_left fun hempty => hempty.append used

theorem congr (h : Levelled rule' c) (heq : ∀ bottom, rule bottom c = rule' bottom c) :
    Levelled rule c :=
  h.shift (.nil c) heq

/-- A rule that has no levels in it. -/
theorem const {rule : Rule α} (hpasses : ∀ x c', rule c = .ok (x, c') → ∃ used, c.Passes used c')
    (hordinary : ∀ r, rule c = .error r → r.Ordinary) : Levelled (fun _ => rule) c :=
  .inl ⟨fun _ => rfl, hpasses, hordinary⟩

theorem pure (x : α) : Levelled (fun _ => (Pure.pure x : Rule α)) c := by
  refine const (fun y c' hrun => ?_) fun r hrun => ?_
  · cases hrun
    exact ⟨[], .nil c⟩
  · cases hrun

theorem reject {complaint : Complaint} (hcomplaint : complaint.isDepth = false) :
    Levelled (fun _ => (Rule.reject complaint : Rule α)) c := by
  refine const (fun x c' hrun => ?_) fun r hrun => ?_
  · cases hrun
  · cases hrun
    exact (Rejection.Ordinary.noMatch _).because hcomplaint

theorem noMatch (required : Bool) : Levelled (fun _ => (Rule.noMatch required : Rule α)) c := by
  refine const (fun x c' hrun => ?_) fun r hrun => ?_
  · cases hrun
  · cases hrun
    exact (Rejection.Ordinary.noMatch _).demanded required

theorem bind (hrule : Levelled rule c)
    (hnext : ∀ x c', rule (Grammar.nested 0) c = .ok (x, c') →
      Levelled (fun bottom => next bottom x) c') :
    Levelled (fun bottom => rule bottom >>= next bottom) c := by
  rcases hrule with h | ⟨used, c', construct, h⟩
  · cases hrun : rule (Grammar.nested 0) c with
    | error r =>
        have hall : ∀ bottom, (rule bottom >>= next bottom) c = .error r :=
          fun bottom => bind_error ((h.same bottom).trans hrun) _
        refine .inl ⟨fun bottom => (hall bottom).trans (hall _).symm, fun x c' hok => ?_,
          fun r' hfail => ?_⟩
        · cases (hall _).symm.trans hok
        · cases (hall _).symm.trans hfail
          exact h.ordinary r hrun
    | ok found =>
        obtain ⟨x, d⟩ := found
        obtain ⟨used, hpasses⟩ := h.passes x d hrun
        exact (hnext x d hrun).shift hpasses fun bottom => bind_run ((h.same bottom).trans hrun) _
  · refine .inr ⟨used, c', construct, h.passes, bind_error h.fails _, ?_, ?_⟩
    · exact fun bottom r hfatal hfails => bind_error (h.asks bottom r hfatal hfails) _
    · intro bottom hdeclines
      refine (h.declined bottom hdeclines).imp_right ?_
      rintro ⟨r, hrun, hspan⟩
      exact ⟨r, bind_error hrun _, hspan⟩

theorem map (hrule : Levelled rule c) (f : α → β) :
    Levelled (fun bottom => rule bottom >>= fun x => Pure.pure (f x)) c :=
  hrule.bind fun _ _ _ => pure _

theorem ite {p : Prop} [Decidable p] {yes no : Nested → Rule α} (hyes : p → Levelled yes c)
    (hno : ¬p → Levelled no c) :
    Levelled (fun bottom => if p then yes bottom else no bottom) c := by
  by_cases hp : p
  · simp only [if_pos hp]
    exact hyes hp
  · simp only [if_neg hp]
    exact hno hp

theorem peek {next : Nested → Option Token → Rule β}
    (h : Levelled (fun bottom => next bottom c.rest.head?) c) :
    Levelled (fun bottom => Rule.peek >>= next bottom) c :=
  h.congr fun _ => rfl

theorem peekKind {next : Nested → Option Kind → Rule β}
    (h : Levelled (fun bottom => next bottom (c.rest.head?.map (·.kind))) c) :
    Levelled (fun bottom => Rule.peekKind >>= next bottom) c :=
  h.congr fun _ => rfl

theorem peekSpan {next : Nested → Option Span → Rule β}
    (h : Levelled (fun bottom => next bottom (c.rest.head?.map (·.span))) c) :
    Levelled (fun bottom => Rule.peekSpan >>= next bottom) c :=
  h.congr fun _ => rfl

theorem advance {kind : Kind} {next : Nested → Unit → Rule β} (hnext : NextIs kind c)
    (h : Levelled (fun bottom => next bottom ()) c.advance) :
    Levelled (fun bottom => Rule.advance >>= next bottom) c := by
  obtain ⟨token, -, hpasses⟩ := hnext.passes
  exact h.shift hpasses fun _ => rfl

theorem accept {kind : Kind} {next : Nested → Bool → Rule β}
    (hyes : NextIs kind c → Levelled (fun bottom => next bottom true) c.advance)
    (hno : ¬NextIs kind c → Levelled (fun bottom => next bottom false) c) :
    Levelled (fun bottom => Rule.accept kind >>= next bottom) c := by
  by_cases hnext : NextIs kind c
  · obtain ⟨token, -, hpasses⟩ := hnext.passes
    exact (hyes hnext).shift hpasses fun _ => bind_run hnext.accept _
  · exact (hno hnext).congr fun _ => bind_run (accept_other hnext) _

theorem expect {kind : Kind} {complaint : Complaint} {next : Nested → Unit → Rule β}
    (hcomplaint : complaint.isDepth = false)
    (h : NextIs kind c → Levelled (fun bottom => next bottom ()) c.advance) :
    Levelled (fun bottom => Rule.expect kind complaint >>= next bottom) c := by
  by_cases hnext : NextIs kind c
  · obtain ⟨token, -, hpasses⟩ := hnext.passes
    exact (h hnext).shift hpasses fun _ => bind_run (hnext.expect _) _
  · exact (reject hcomplaint).congr fun _ => bind_error (expect_other hnext _) _

theorem because (h : Levelled rule c) {complaint : Complaint}
    (hcomplaint : complaint.isDepth = false) :
    Levelled (fun bottom => Rule.because complaint (rule bottom)) c := by
  have hfails : ∀ {bottom : Nested} {r : Rejection}, rule bottom c = .error r →
      Rule.because complaint (rule bottom) c = .error (r.because complaint) := by
    intro bottom r hrun
    rw [Rule.because, hrun]
  rcases h with h | ⟨used, c', construct, h⟩
  · refine .inl ⟨fun bottom => by rw [Rule.because, h.same]; rfl, fun x c' hok => ?_,
      fun r hfail => ?_⟩
    · cases hrun : rule (Grammar.nested 0) c with
      | error r => cases (hfails hrun).symm.trans hok
      | ok found =>
          cases (because_run hrun complaint).symm.trans hok
          exact h.passes _ _ hrun
    · cases hrun : rule (Grammar.nested 0) c with
      | error r =>
          cases (hfails hrun).symm.trans hfail
          exact (h.ordinary r hrun).because hcomplaint
      | ok found => cases (because_run hrun complaint).symm.trans hfail
  · refine .inr ⟨used, c', construct, h.passes, ?_, ?_, ?_⟩
    · rw [hfails h.fails, (Rejection.fatal_limit _ _).because]
    · intro bottom r hfatal hat
      rw [hfails (h.asks bottom r hfatal hat), hfatal.because]
    · intro bottom hdeclines
      refine (h.declined bottom hdeclines).imp_right ?_
      rintro ⟨r, hrun, hspan⟩
      exact ⟨_, hfails hrun, hspan⟩

/-- Something that need not be there. Over no bottom may it be missed if it is not missed over the
limit. -/
theorem optional (h : Levelled rule c)
    (hmissed : ∀ bottom r, rule bottom c = .error r → r.committed = false →
      ∃ r', rule (Grammar.nested 0) c = .error r' ∧ r'.committed = false) :
    Levelled (fun bottom => Rule.optional (rule bottom)) c := by
  rcases h with h | ⟨used, c', construct, h⟩
  · refine .inl ⟨fun bottom => by rw [Rule.optional, h.same]; rfl, fun found c' hok => ?_,
      fun r hfail => ?_⟩
    · cases hrun : rule (Grammar.nested 0) c with
      | ok found =>
          cases (optional_run hrun).symm.trans hok
          exact h.passes _ _ hrun
      | error r =>
          cases hcommitted : r.committed with
          | true => cases (optional_committed hrun hcommitted).symm.trans hok
          | false =>
              cases (optional_absent hrun hcommitted).symm.trans hok
              exact ⟨[], .nil c⟩
    · cases hrun : rule (Grammar.nested 0) c with
      | ok found => cases (optional_run hrun).symm.trans hfail
      | error r =>
          cases hcommitted : r.committed with
          | true =>
              cases (optional_committed hrun hcommitted).symm.trans hfail
              exact h.ordinary r hrun
          | false => cases (optional_absent hrun hcommitted).symm.trans hfail
  · refine .inr ⟨used, c', construct, h.passes, optional_committed h.fails rfl, ?_, ?_⟩
    · exact fun bottom r hfatal hat => optional_committed (h.asks bottom r hfatal hat) hfatal.1
    · intro bottom hdeclines
      refine (h.declined bottom hdeclines).imp_right ?_
      rintro ⟨r, hrun, hspan⟩
      cases hcommitted : r.committed with
      | true => exact ⟨r, optional_committed hrun hcommitted, hspan⟩
      | false =>
          obtain ⟨r', hrun', hcommitted'⟩ := hmissed bottom r hrun hcommitted
          cases hrun'.symm.trans h.fails
          cases hcommitted'

theorem after {kind : Kind} (h : ∀ c, Levelled rule c) :
    Levelled (fun bottom => Rule.after kind (rule bottom)) c := by
  refine accept (fun _ => ?_) fun _ => ?_
  · simpa using (h _).map some
  · simpa using pure none

theorem manyWithin {item : Nested → Rule (Option α)} (h : ∀ c, Levelled item c)
    (budget : List Token) (c : Cursor) :
    Levelled (fun bottom => Rule.manyWithin (item bottom) budget) c := by
  induction budget generalizing c with
  | nil => exact (h c).map _
  | cons token budget ih =>
      refine (h c).bind fun found c' _ => ?_
      cases found with
      | none => exact pure []
      | some x => exact (ih c').map _

theorem many {item : Nested → Rule (Option α)} (h : ∀ c, Levelled item c) (c : Cursor) :
    Levelled (fun bottom => Rule.many (item bottom)) c :=
  (manyWithin h c.rest c).congr fun _ => rfl

theorem name? : Levelled (fun _ => Rule.name?) c := by
  refine peek ?_
  cases hhead : c.rest.head? with
  | none => exact pure none
  | some token =>
      refine ite (fun _ => ?_) fun _ => pure none
      have hnext : NextIs token.kind c := by rw [NextIs, hhead]; rfl
      exact advance hnext (pure _)

theorem name {complaint : Complaint} (hcomplaint : complaint.isDepth = false) :
    Levelled (fun _ => Rule.name complaint) c := by
  refine name?.bind fun found c' _ => ?_
  cases found with
  | none => exact reject hcomplaint
  | some name => exact pure name

end Levelled

end Rule

namespace Grammar

/-- The rules for a number of levels over a bottom. -/
def nestedOver (bottom : Nested) : Nat → Nested
  | 0 => bottom
  | levels + 1 =>
    { expr := expr (nestedOver bottom levels), operand := unary (nestedOver bottom levels) true }

theorem nested_add (levels more : Nat) :
    nested (levels + more) = nestedOver (nested levels) more := by
  induction more with
  | zero => rfl
  | succ more ih => rw [← Nat.add_assoc, nested, nestedOver, ih]

variable {deeper : Nested → Nested} {c : Cursor}

/-! ### Rules that are given their operands -/

theorem levelled_binary {ω : Type} {operator? : Kind → Option ω}
    {operand : Nested → Bool → Rule Expr} {complaint : Complaint}
    {node : Expr → List (ω × Expr) → Expr} (hcomplaint : complaint.isDepth = false)
    (h : ∀ required c, Levelled (fun bottom => operand bottom required) c) (required : Bool)
    (c : Cursor) :
    Levelled (fun bottom => binary operator? (operand bottom) complaint node required) c := by
  refine (h required c).bind fun first c' _ => (Levelled.many (fun c => .peekKind ?_) c').map _
  generalize hop : (c.rest.head?.map (·.kind)).bind operator? = op
  cases op with
  | none => exact .pure none
  | some op =>
      obtain ⟨kind, hkind, -⟩ := Option.bind_eq_some_iff.1 hop
      exact .advance hkind (((h true _).because hcomplaint).map _)

theorem levelled_logical {keyword : Keyword} {operand : Nested → Bool → Rule Expr}
    {complaint : Complaint} {node : Expr → List Expr → Expr}
    (hcomplaint : complaint.isDepth = false)
    (h : ∀ required c, Levelled (fun bottom => operand bottom required) c) (required : Bool)
    (c : Cursor) :
    Levelled (fun bottom => logical keyword (operand bottom) complaint node required) c :=
  (h required c).bind fun _ c' _ =>
    (Levelled.many (fun _ => .after fun c => (h true c).because hcomplaint) c').map _

/-! ### Rules without levels -/

theorem levelled_literal? : Levelled (fun _ => literal?) c := by
  refine .peek ?_
  cases hhead : c.rest.head? with
  | none => exact .pure none
  | some token =>
      have hnext : NextIs token.kind c := by rw [NextIs, hhead]; rfl
      simp only
      generalize token.kind = kind at hnext ⊢
      cases kind with
      | identifier => exact .advance hnext (.pure _)
      | string => exact .advance hnext (.pure _)
      | number =>
          generalize Number.ofText? token.textD = value
          cases value with
          | none => exact .reject rfl
          | some value => exact .advance hnext (.pure _)
      | keyword word =>
          cases word with
          | null => exact .advance hnext (.pure _)
          | true => exact .advance hnext (.pure _)
          | false => exact .advance hnext (.pure _)
          | _ => exact .pure none
      | symbol mark => exact .pure none

/-- That an expression is no target is said of the place where it began, which is not the end. -/
theorem levelled_assigned (span : Span) (left : Expr) (found : Option Update) :
    Levelled (fun _ => assigned (some span) left found) c := by
  cases found with
  | none => exact .pure left
  | some update =>
      simp only [assigned]
      cases target? left with
      | some target => exact .pure _
      | none =>
          refine .const (fun x c' hrun => ?_) fun r hrun => ?_
          · cases hrun
          · cases hrun
            exact ⟨rfl, fun complaint hmem => by cases hmem; rfl⟩

/-! ### Constructs that may be empty -/

/-- A rule that looks at the bottom first, and finds nothing where the bottom does. -/
structure AtBottom {α : Type} (rule : Nested → Rule α) : Prop where
  fails : ∀ c, rule (nested 0) c = .error (.limit (c.rest.head?.map (·.span)) .expression)
  asks : ∀ bottom c r, r.Fatal → bottom.FailsAt c r → rule bottom c = .error r
  declined : ∀ bottom c, bottom.Declines c → ∃ x, rule bottom c = .ok (x, c)

/-- What may stand in brackets: on the last level it looks at the bottom first. -/
def Offered {α : Type} (rule : Nested → Rule α) : Prop :=
  (∀ c, Levelled rule c) ∨ AtBottom rule

/-- The rules for what stands one level deeper, over a bottom. An expression that need not be there
is looked for at the bottom itself if that is the next level. -/
structure Laid (deeper : Nested → Nested) : Prop where
  expr : ∀ c, Levelled (fun bottom => (deeper bottom).expr true) c
  operand : ∀ c, Levelled (fun bottom => (deeper bottom).operand) c
  offered : (∀ c, Levelled (fun bottom => optional ((deeper bottom).expr false)) c) ∨ deeper = id

theorem offered_statements (h : Laid deeper) :
    Offered fun bottom => statements (deeper bottom) := by
  rcases h.offered with hoffered | rfl
  · exact .inl fun c => .many hoffered c
  · refine .inr ⟨fun c => ?_, fun bottom c r hfatal hfails => ?_, fun bottom c hdeclines => ?_⟩
    · exact manyWithin_error rfl c.rest
    · exact manyWithin_error (optional_committed (hfails.expr false) hfatal.1) c.rest
    · exact ⟨[], manyWithin_none (optional_absent (hdeclines.expr false) rfl) c.rest⟩

theorem offered_elements? (h : Laid deeper) (construct : Construct) :
    Offered fun bottom => elements? (deeper bottom) construct := by
  rcases h.offered with hoffered | rfl
  · refine .inl fun c => (hoffered c).bind fun first c' _ => ?_
    cases first with
    | none => exact .pure none
    | some first => exact (Levelled.many (fun c => .after fun c => (h.expr c).because rfl) c').map _
  · refine .inr ⟨fun c => rfl, fun bottom c r hfatal hfails => ?_, fun bottom c hdeclines => ?_⟩
    · exact bind_error (optional_committed (hfails.expr false) hfatal.1) _
    · exact ⟨none, (bind_run (optional_absent (hdeclines.expr false) rfl) _).trans rfl⟩

/-- What may be empty, in brackets. -/
theorem levelled_enclosed {α β : Type} {inner : Nested → Rule α} (hinner : Offered inner)
    {opening closing : Kind} (hnext : NextIs opening c) (hpair : (opening, closing) ∈ brackets)
    (complaint : α → Complaint) (hcomplaint : ∀ x, (complaint x).isDepth = false) (f : α → β) :
    Levelled (fun bottom => advance >>= fun _ => inner bottom >>= fun x =>
      expect closing (complaint x) >>= fun _ => pure (f x)) c := by
  rcases hinner with hinner | hinner
  · exact .advance hnext <| (hinner _).bind fun x _ _ => .expect (hcomplaint x) fun _ => .pure _
  · obtain ⟨token, rfl, hpasses⟩ := hnext.passes
    have hinside : ∀ bottom, (advance >>= fun _ => inner bottom >>= fun x =>
        expect closing (complaint x) >>= fun _ => pure (f x)) c =
        (inner bottom >>= fun x => expect closing (complaint x) >>= fun _ => pure (f x))
          c.advance := fun _ => rfl
    refine .inr ⟨[token], c.advance, .expression, hpasses, ?_, ?_, ?_⟩
    · exact (hinside _).trans (bind_error (hinner.fails c.advance) _)
    · intro bottom r hfatal hfails
      exact (hinside bottom).trans (bind_error (hinner.asks bottom c.advance r hfatal hfails) _)
    · intro bottom hdeclines
      by_cases hclosing : NextIs closing c.advance
      · obtain ⟨close, hhead, rfl⟩ := Option.map_eq_some_iff.1 hclosing
        exact .inl ⟨[], token, close, rfl, hhead, hpair⟩
      · obtain ⟨x, hrun⟩ := hinner.declined bottom c.advance hdeclines
        have hclose := expect_other hclosing (complaint x)
        exact .inr ⟨_, ((hinside bottom).trans (bind_run hrun _)).trans (bind_error hclose _), rfl⟩

theorem levelled_block (h : Laid deeper) (construct : Construct) :
    Levelled (fun bottom => block (deeper bottom) construct) c := by
  by_cases hnext : NextIs (.symbol .leftBrace) c
  · have hpair : (Kind.symbol .leftBrace, Kind.symbol .rightBrace) ∈ brackets := by decide
    refine (levelled_enclosed (offered_statements h) hnext hpair (fun _ => .blockClose construct)
      (fun _ => rfl) id).congr fun bottom => ?_
    exact bind_run (hnext.expect _) _
  · have hopen : (Complaint.blockOpen construct).isDepth = false := rfl
    exact (Levelled.reject hopen).congr fun bottom => bind_error (expect_other hnext _) _

/-! ### Control flow -/

section Rules

variable (h : Laid deeper)

include h

theorem levelled_branch (keyword : String) :
    Levelled (fun bottom => branch (deeper bottom) keyword) c :=
  ((h.expr c).because rfl).bind fun _ _ _ => (levelled_block h _).map _

theorem levelled_cond : Levelled (fun bottom => cond (deeper bottom)) c := by
  refine (levelled_branch h _).bind fun first c' _ => ?_
  refine (Levelled.many (fun c => .after fun c => levelled_branch h _) c').bind fun rest _ _ => ?_
  exact (Levelled.after fun c => levelled_block h _).map _

theorem levelled_whileLoop : Levelled (fun bottom => whileLoop (deeper bottom)) c :=
  ((h.expr c).because rfl).bind fun _ _ _ => (levelled_block h _).map _

theorem levelled_forLoop : Levelled (fun bottom => forLoop (deeper bottom)) c := by
  refine (Levelled.name rfl).bind fun value c' _ => ?_
  refine (Levelled.after fun _ => .name rfl).bind fun key c' _ => .accept (fun _ => ?_) fun _ => ?_
  · exact ((h.expr _).because rfl).bind fun items _ _ => (levelled_block h _).map _
  · refine .expect rfl fun _ => .ite (fun _ => ?_) fun _ => ?_
    · exact (Levelled.reject rfl).bind fun _ _ hrun => by cases hrun
    · refine ((h.expr _).because rfl).bind fun start _ _ => .expect rfl fun _ => ?_
      refine ((h.expr _).because rfl).bind fun stop _ _ => ?_
      refine (Levelled.after fun c => (h.expr c).because rfl).bind fun step _ _ => ?_
      exact (levelled_block h _).map _

theorem levelled_returnValue : Levelled (fun bottom => returnValue (deeper bottom)) c :=
  (Levelled.after fun c => (h.expr c).because rfl).map _

theorem levelled_control? : Levelled (fun bottom => control? (deeper bottom)) c := by
  refine .peekKind ?_
  generalize hkind : c.rest.head?.map (·.kind) = kind
  cases kind with
  | none => exact .pure none
  | some kind =>
      cases kind with
      | keyword word =>
          cases word with
          | «if» => exact .advance hkind ((levelled_cond h).map _)
          | «while» => exact .advance hkind ((levelled_whileLoop h).map _)
          | loop => exact .advance hkind ((levelled_block h _).map _)
          | «for» => exact .advance hkind ((levelled_forLoop h).map _)
          | «return» => exact .advance hkind ((levelled_returnValue h).map _)
          | «continue» => exact .advance hkind (.pure _)
          | «break» => exact .advance hkind (.pure _)
          | require => exact .reject rfl
          | _ => exact .pure none
      | _ => exact .pure none

/-! ### Values -/

theorem levelled_function : Levelled (fun bottom => function (deeper bottom)) c := by
  refine Levelled.name?.bind fun name c' _ => .expect rfl fun _ => ?_
  -- the rest of the rule, once the parameters are known
  have hbody : ∀ params c', Levelled (fun bottom =>
      expect (.symbol .rightParen) .funcClose >>= fun _ =>
      block (deeper bottom) .func >>= fun body => pure (Expr.function name params body)) c' :=
    fun params c' => .expect rfl fun _ => (levelled_block h _).map _
  refine Levelled.name?.bind fun first c' _ => ?_
  cases first with
  | none => exact hbody [] c'
  | some first =>
      refine (Levelled.many (fun c => .after fun c => .name rfl) c').bind fun rest c' _ => ?_
      exact hbody (first :: rest) c'

theorem levelled_list (hnext : NextIs (.symbol .leftBracket) c) :
    Levelled (fun bottom => advance >>= fun _ => list (deeper bottom)) c := by
  have hpair : (Kind.symbol .leftBracket, Kind.symbol .rightBracket) ∈ brackets := by decide
  refine levelled_enclosed (offered_elements? h .list) hnext hpair _ (fun elements => ?_) _
  cases elements <;> rfl

theorem levelled_entryValue : Levelled (fun bottom => entryValue (deeper bottom)) c :=
  .expect rfl fun _ => (h.expr _).because rfl

theorem levelled_entry : Levelled (fun bottom => entry (deeper bottom)) c := by
  refine .peek ?_
  cases hhead : c.rest.head? with
  | none => exact .reject rfl
  | some token =>
      have hnext : NextIs token.kind c := by rw [NextIs, hhead]; rfl
      simp only
      generalize token.kind = kind at hnext ⊢
      cases kind with
      | identifier => exact .advance hnext ((levelled_entryValue h).map _)
      | string | number =>
          refine levelled_literal?.bind fun found c' _ => ?_
          cases found with
          | none => exact .reject rfl
          | some key => exact (levelled_entryValue h).map _
      | symbol mark =>
          cases mark with
          | leftBracket =>
              refine .advance hnext (((h.expr _).because rfl).bind fun key _ _ => ?_)
              exact .expect rfl fun _ => (levelled_entryValue h).map _
          | _ => exact .reject rfl
      | keyword word => exact .reject rfl

theorem levelled_entryAfterComma : Levelled (fun bottom => entryAfterComma (deeper bottom)) c := by
  refine .accept (fun _ => .ite (fun _ => .peekKind (.ite (fun _ => .pure none) fun _ => ?_))
    fun _ => .pure none) fun _ => .ite (fun hfalse => ?_) fun _ => .pure none
  · exact (levelled_entry h).map _
  · cases hfalse

theorem levelled_table : Levelled (fun bottom => table (deeper bottom)) c := by
  refine .accept (fun _ => .ite (fun _ => .pure _) fun hfalse => ?_) fun _ =>
    .ite (fun hfalse => ?_) fun _ => ?_
  · cases hfalse rfl
  · cases hfalse
  · refine (levelled_entry h).bind fun first c' _ => ?_
    refine (Levelled.many (fun _ => levelled_entryAfterComma h) c').bind fun rest c' _ => ?_
    exact .expect rfl fun _ => .pure _

theorem levelled_quote : Levelled (fun bottom => quote (deeper bottom)) c :=
  ((h.expr c).because rfl).bind fun _ _ _ => .expect rfl fun _ => .pure _

theorem levelled_value (required : Bool) :
    Levelled (fun bottom => value (deeper bottom) required) c := by
  refine levelled_literal?.bind fun found c' _ => ?_
  cases found with
  | some e => exact .pure e
  | none =>
      refine .peekKind ?_
      generalize hkind : c'.rest.head?.map (·.kind) = kind
      cases kind with
      | none => exact .noMatch required
      | some kind =>
          cases kind with
          | symbol mark =>
              cases mark with
              | leftBracket => exact levelled_list h hkind
              | leftBrace => exact .advance hkind (levelled_table h)
              | leftParen => exact .advance hkind (levelled_quote h)
              | _ => exact .noMatch required
          | keyword word =>
              cases word with
              | func => exact .advance hkind (levelled_function h)
              | _ => exact .noMatch required
          | _ => exact .noMatch required

theorem levelled_accessor? : Levelled (fun bottom => accessor? (deeper bottom)) c := by
  by_cases hstops : c.Stops 7
  · exact (Levelled.pure none).congr fun bottom => accessor?_stops (deeper bottom) hstops
  · obtain ⟨token, hhead, hkind | ⟨hkind | hkind, hline⟩⟩ := exists_of_not_stops hstops
    · refine .congr ?_ fun bottom => accessor?_member hhead hkind
      exact .advance (by rw [NextIs, hhead]; rfl) ((Levelled.name rfl).map _)
    · refine .congr ?_ fun bottom => accessor?_call hhead hkind hline
      have hnext : NextIs (.symbol .leftParen) c := by rw [NextIs, hhead, Option.map_some, hkind]
      have hpair : (Kind.symbol .leftParen, Kind.symbol .rightParen) ∈ brackets := by decide
      exact levelled_enclosed (offered_elements? h .call) hnext hpair _ (fun _ => rfl) _
    · refine .congr ?_ fun bottom => accessor?_index hhead hkind hline
      refine .advance (by rw [NextIs, hhead]; rfl) (((h.expr _).because rfl).bind fun _ _ _ => ?_)
      exact .expect rfl fun _ => .pure _

theorem levelled_access (required : Bool) :
    Levelled (fun bottom => access (deeper bottom) required) c :=
  (levelled_value h required).bind fun _ c' _ =>
    (Levelled.many (fun _ => levelled_accessor? h) c').map _

theorem levelled_primary (required : Bool) :
    Levelled (fun bottom => primary (deeper bottom) required) c := by
  refine (levelled_control? h).bind fun found c' _ => ?_
  cases found with
  | some control => exact .pure _
  | none => exact levelled_access h required

/-! ### Operators -/

theorem levelled_unary (required : Bool) (c : Cursor) :
    Levelled (fun bottom => unary (deeper bottom) required) c := by
  refine .peekKind ?_
  generalize hop : (c.rest.head?.map (·.kind)).bind unaryOp? = op
  cases op with
  | none => exact levelled_primary h required
  | some op =>
      obtain ⟨kind, hkind, -⟩ := Option.bind_eq_some_iff.1 hop
      exact .advance hkind (((h.operand _).because rfl).map _)

theorem levelled_or (required : Bool) (c : Cursor) :
    Levelled (fun bottom => or (deeper bottom) required) c := by
  have hmul : ∀ required c, Levelled (fun bottom => mul (deeper bottom) required) c :=
    levelled_binary rfl (levelled_unary h)
  have hadd : ∀ required c, Levelled (fun bottom => add (deeper bottom) required) c :=
    levelled_binary rfl hmul
  have hcompare : ∀ required c, Levelled (fun bottom => compare (deeper bottom) required) c :=
    levelled_binary rfl hadd
  have hand : ∀ required c, Levelled (fun bottom => and (deeper bottom) required) c :=
    levelled_logical rfl hcompare
  exact levelled_logical rfl hand required c

theorem levelled_global : Levelled (fun bottom => global (deeper bottom)) c :=
  (Levelled.name rfl).bind fun _ _ _ => .expect rfl fun _ => ((h.expr _).because rfl).map _

theorem levelled_update? : Levelled (fun bottom => update? (deeper bottom)) c := by
  have hvalue : ∀ (f : Expr → Update) c, Levelled (fun bottom =>
      because .assignValue ((deeper bottom).expr true) >>= fun value => pure (some (f value))) c :=
    fun f c => ((h.expr c).because rfl).map _
  refine .peekKind ?_
  generalize hkind : c.rest.head?.map (·.kind) = kind
  cases kind with
  | none => exact .pure none
  | some kind =>
      cases kind with
      | symbol mark =>
          cases mark with
          | assign => exact .advance hkind (hvalue _ _)
          | addAssign => exact .advance hkind (hvalue _ _)
          | subAssign => exact .advance hkind (hvalue _ _)
          | increment => exact .advance hkind (.pure _)
          | decrement => exact .advance hkind (.pure _)
          | _ => exact .pure none
      | _ => exact .pure none

theorem levelled_expr (required : Bool) (c : Cursor) :
    Levelled (fun bottom => expr (deeper bottom) required) c := by
  cases hhead : c.rest.head? with
  | none =>
      have habsent : Absent c := fun kind hkind => by rw [hhead] at hkind; cases hkind
      exact (Levelled.noMatch required).congr fun bottom => expr_absent habsent
  | some token =>
      simp only [expr_eq]
      refine .accept (fun _ => levelled_global h) fun hglobal => ?_
      refine (levelled_control? h).bind fun found c' hfound => ?_
      cases found with
      | some control => exact .pure _
      | none =>
          cases hfound.symm.trans (plain_of_control? hfound hglobal).control?
          refine .peekSpan ((levelled_or h required c).bind fun left c' _ => ?_)
          rw [hhead]
          exact (levelled_update? h).bind fun found c'' _ => levelled_assigned _ left found

/-- An expression that is missed over one bottom is missed over each, because none begins there. -/
theorem levelled_offer (c : Cursor) :
    Levelled (fun bottom => optional (expr (deeper bottom) false)) c :=
  (levelled_expr h false c).optional fun _ _ hrun hcommitted =>
    ⟨_, expr_absent (absent_of_expr hrun hcommitted), rfl⟩

end Rules

/-- At every number of levels the rules reach the bottom or do not. -/
theorem laid_nestedOver (levels : Nat) : Laid fun bottom => nestedOver bottom levels := by
  induction levels with
  | zero =>
      refine ⟨fun c => .inr ⟨[], c, .expression, .nil c, rfl, ?_, ?_⟩,
        fun c => .inr ⟨[], c, .unary, .nil c, rfl, ?_, ?_⟩, .inr rfl⟩
      · exact fun _ _ _ hfails => hfails.expr true
      · exact fun _ hdeclines => .inr ⟨_, hdeclines.expr true, rfl⟩
      · exact fun _ _ _ hfails => hfails.operand
      · exact fun _ hdeclines => .inr ⟨_, hdeclines.operand, rfl⟩
  | succ levels ih =>
      exact ⟨levelled_expr ih true, levelled_unary ih true, .inl (levelled_offer ih)⟩

/-- Programs with the levels that are allowed, over a bottom. -/
def programOver (bottom : Nested) : Rule Block :=
  statements (nestedOver bottom maxDepth)

theorem program_eq : Rule.program = programOver (nested 0) := by
  rw [Rule.program, programOver, ← nested_add, Nat.zero_add]

theorem levelled_program (c : Cursor) : Levelled programOver c :=
  .many (levelled_offer (laid_nestedOver 63)) c

end Grammar

end TableScript
