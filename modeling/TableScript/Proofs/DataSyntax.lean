import TableScript.Proofs.DataText
import TableScript.Proofs.Precedence
import TableScript.Syntax.Program

/-!
The text of data, as an expression. The words of data are those of literals, and the parser finds
these literals: after each there is a comma or a closing bracket, so nothing binds to it. A list or
table takes one level of nesting and a minus sign one more.
-/

namespace TableScript

open Rule Layout

/-! ### Literals -/

/-- The literal that a value without parts is written as. -/
def Value.literal : Value → Expr
  | null => .null
  | bool value => .bool value
  | number x =>
    if Number.isSigned x then .unary .negate (.number (Number.size x)) else .number (Number.size x)
  | string text => .string text
  | list _ | table _ | function _ | native _ => .null

/-- The literal that data is written as. -/
def Store.literal (s : Store) : Nat → Value → Expr
  | depth + 1, .list ref => .list ((s.list ref).toList.map (s.literal depth))
  | depth + 1, .table ref =>
    .table ((s.table ref).toList.map fun e => .computed e.1.toValue.literal (s.literal depth e.2))
  | _, value => value.literal

theorem Store.literal_scalar {s : Store} {value : Value} (h : value.IsScalar) (depth : Nat) :
    s.literal depth value = value.literal := by
  cases value with
  | list | table | function | native => cases h
  | null | bool | number | string => cases depth <;> rfl

theorem literal_numeral {digits : List Char} {size : Float}
    (hread : Number.ofText? (String.ofList digits) = some size) (token : Token)
    (hkind : token.kind = .number) (htext : token.text = some (String.ofList digits)) :
    Literal token (.number size) :=
  .number hkind (by rw [Token.textD_eq htext, hread])

theorem literal_string {text : String} (token : Token) (hkind : token.kind = .string)
    (htext : token.text = some text) : Literal token (.string text) := by
  have hliteral := Literal.string hkind
  rwa [Token.textD_eq htext] at hliteral

/-- A key is one word. -/
theorem Key.Legible.exists_word {key : Key} (h : key.Legible) :
    ∃ found : Word, key.toValue.words = [found] ∧ (found.kind = .string ∨ found.kind = .number) ∧
      ∀ token : Token, token.kind = found.kind → token.text = found.text →
        Literal token key.toValue.literal := by
  cases h with
  | string => exact ⟨_, rfl, .inl rfl, literal_string⟩
  | number hfinite hnonneg =>
      obtain ⟨shown, digits, size, hvalue, -, hreads, -⟩ := Key.exists_reads hfinite hnonneg
      obtain ⟨hsigned, rfl, rfl⟩ := hreads.eq
      rw [hvalue, Value.words, Value.literal, hsigned]
      exact ⟨_, rfl, .inr rfl, literal_numeral hreads.read⟩

/-! ### Rules on words -/

/-- The words ahead. -/
def Cursor.words (c : Cursor) : List Word :=
  c.rest.map Token.word

theorem Cursor.exists_word {c : Cursor} {found : Word} {rest : List Word}
    (h : c.words = found :: rest) :
    ∃ n c', (word found).Covers n c n c' ∧ c'.words = rest := by
  obtain ⟨token, tokens, htokens, rfl, hrest⟩ := List.map_eq_cons_iff.1 h
  exact ⟨token.span.line, ⟨some token.span.line, tokens⟩, ⟨rfl, rfl, token, rfl, htokens⟩, hrest⟩

theorem Cursor.head_kind {c : Cursor} {found : Word} {rest : List Word}
    (h : c.words = found :: rest) : c.rest.head?.map (·.kind) = some found.kind := by
  obtain ⟨n, c', hword, -⟩ := exists_word h
  exact hword.head_kind

/-- What may follow a part of a list or table: a comma, a closing bracket, or nothing. -/
def EndsPart (rest : List Word) : Prop :=
  ∀ next ∈ rest.head?, next.kind ∈ [.symbol .comma, .symbol .rightBracket, .symbol .rightBrace]

/-- A rule finds `x` where the given words are ahead as a part, and goes on behind them. -/
def Rule.Finds {α : Type} (rule : Rule α) (words : List Word) (x : α) : Prop :=
  ∀ c rest, c.words = words ++ rest → EndsPart rest → ∃ c', rule c = .ok (x, c') ∧ c'.words = rest

theorem Rule.Finds.because {α : Type} {rule : Rule α} {words : List Word} {x : α}
    (h : Finds rule words x) (complaint : Complaint) : Finds (because complaint rule) words x := by
  intro c rest hc hends
  obtain ⟨c', hrun, hrest⟩ := h c rest hc hends
  exact ⟨c', because_run hrun complaint, hrest⟩

theorem EndsPart.stops {c : Cursor} (h : EndsPart c.words) : c.Stops 1 := by
  intro token htoken
  left
  have hnext : c.words.head? = some token.word := by
    rw [Cursor.words, List.head?_map, Option.mem_def.1 htoken]
    rfl
  have hkind := h token.word hnext
  simp only [List.mem_cons, List.not_mem_nil, or_false] at hkind
  have hword : token.kind = token.word.kind := rfl
  rw [hword]
  rcases hkind with hkind | hkind | hkind <;> rw [hkind] <;> decide

theorem endsPart_cons {next : Word} (rest : List Word)
    (h : next.kind ∈ [.symbol .comma, .symbol .rightBracket, .symbol .rightBrace]) :
    EndsPart (next :: rest) := by
  intro found hfound
  cases hfound
  exact h

/-- Before more parts with commas, or before the bracket that closes them, a part ends. -/
theorem EndsPart.later {rest : List Word} (h : EndsPart rest) (parts : List (List Word)) :
    EndsPart (parts.flatMap ([.symbol .comma] ++ ·) ++ rest) := by
  cases parts with
  | nil => exact h
  | cons part parts => exact endsPart_cons _ (by decide)

namespace Grammar

variable {deeper : Nested} {required : Bool} {e : Expr}

theorem finds_word {found : Word} (hleading : isLeading found.kind = false)
    (hop : unaryOp? found.kind = none)
    (hliteral : ∀ token : Token, token.kind = found.kind → token.text = found.text → Literal token e) :
    Finds (expr deeper required) [found] e := by
  intro c rest hc hends
  obtain ⟨n, c', hword, hrest⟩ := Cursor.exists_word hc
  have hstops : c'.Stops 1 := by
    apply EndsPart.stops
    rwa [hrest]
  exact ⟨c', expr_of_value hword hleading hop (value_word hword hliteral) hstops, hrest⟩

/-- A number with a minus sign. -/
theorem finds_negative {levels : Nat} {digits : List Char} {size : Float}
    (hread : Number.ofText? (String.ofList digits) = some size) :
    Finds (expr (nested (levels + 1)) required) [.symbol .minus, .numeral digits]
      (.unary .negate (.number size)) := by
  intro c rest hc hends
  obtain ⟨n, c₁, hminus, hnext⟩ := Cursor.exists_word hc
  obtain ⟨n', c', hnumeral, hrest⟩ := Cursor.exists_word hnext
  have hstops : c'.Stops 1 := by
    apply EndsPart.stops
    rwa [hrest]
  have hoperand : (nested (levels + 1)).operand c₁ = .ok (.number size, c') := by
    have hvalue : value (nested levels) true c₁ = .ok (.number size, c') :=
      value_word hnumeral (literal_numeral hread)
    have haccess := access_of_value hvalue (hstops.mono (by decide))
    exact unary_of_access (plain_of_word hnumeral rfl) (by rw [hnumeral.head_kind]; rfl) haccess
  have hunary : unary (nested (levels + 1)) required c =
      .ok (.unary .negate (.number size), c') := by
    rw [unary, peekKind_run, hminus.head_kind]
    simp only [Option.bind_some, unaryOp?]
    rw [advance_run hminus, bind_run (because_run hoperand _)]
    rfl
  exact ⟨c', expr_of_unary (plain_of_word hminus rfl) hunary hstops, hrest⟩

theorem finds_scalar {value : Value} (h : value.IsScalar) (levels : Nat) :
    Finds (expr (nested (levels + 1)) required) value.words value.literal := by
  cases value with
  | list | table | function | native => cases h
  | null => exact finds_word rfl rfl fun token hkind _ => .null hkind
  | bool value =>
      cases value with
      | false => exact finds_word rfl rfl fun token hkind _ => .false hkind
      | true => exact finds_word rfl rfl fun token hkind _ => .true hkind
  | number x =>
      have hread := (Number.reads h).read
      rw [Value.words, Value.literal]
      cases Number.isSigned x with
      | false => exact finds_word rfl rfl (literal_numeral hread)
      | true => exact finds_negative hread
  | string text => exact finds_word rfl rfl literal_string

/-! ### Parts with commas between them -/

section Parts

variable {α β : Type} {words : α → List Word} {f : α → β} {xs : List α}

/-- Parts that each follow a comma, up to a closing bracket. -/
theorem many_later {item : Rule (Option β)} {closing : Word} {rest : List Word}
    (hitem : ∀ x ∈ xs, ∀ c rest, c.words = .symbol .comma :: (words x ++ rest) → EndsPart rest →
      ∃ c', item c = .ok (some (f x), c') ∧ c'.words = rest)
    (hlast : ∀ c, c.words = closing :: rest → item c = .ok (none, c))
    (hclosing : EndsPart (closing :: rest)) {c : Cursor}
    (hc : c.words = (xs.map words).flatMap ([.symbol .comma] ++ ·) ++ closing :: rest) :
    ∃ c', many item c = .ok (xs.map f, c') ∧ c'.words = closing :: rest := by
  suffices hrepeats : ∃ c', Repeats item c (xs.map f) c' ∧ c'.words = closing :: rest by
    obtain ⟨c', hrepeats, hrest⟩ := hrepeats
    exact ⟨c', hrepeats.many, hrest⟩
  induction xs generalizing c with
  | nil => exact ⟨c, .nil (hlast c hc), hc⟩
  | cons x xs ih =>
      rw [List.forall_mem_cons] at hitem
      simp only [List.map_cons, List.flatMap_cons, List.append_assoc] at hc
      obtain ⟨c₁, hrun, hwords⟩ := hitem.1 c _ hc (hclosing.later _)
      obtain ⟨c', hrepeats, hrest⟩ := ih hitem.2 hwords
      refine ⟨c', .cons hrun ?_ hrepeats, hrest⟩
      have hlength := congrArg List.length hc
      have hlength₁ := congrArg List.length hwords
      simp only [Cursor.words, List.length_map, List.length_append, List.length_cons,
        List.length_nil] at hlength hlength₁
      omega

end Parts

/-- What follows a comma, if anything does. -/
theorem after_later {rule : Rule Expr} {words rest : List Word} {c : Cursor} (h : Finds rule words e)
    (hc : c.words = .symbol .comma :: (words ++ rest)) (hends : EndsPart rest) :
    ∃ c', after (.symbol .comma) rule c = .ok (some e, c') ∧ c'.words = rest := by
  obtain ⟨n, c₁, hcomma, hnext⟩ := Cursor.exists_word hc
  obtain ⟨c', hrun, hrest⟩ := h c₁ rest hnext hends
  exact ⟨c', after_run hcomma hrun, hrest⟩

section Containers

variable {α : Type} {levels : Nat} {words : α → List Word} {xs : List α}

theorem elements?_finds {f : α → Expr}
    (h : ∀ x ∈ xs, ∀ required, Finds ((nested (levels + 1)).expr required) (words x) (f x))
    {c : Cursor} {rest : List Word}
    (hc : c.words = Word.separated (xs.map words) ++ .symbol .rightBracket :: rest)
    (construct : Construct) :
    ∃ found c', elements? (nested (levels + 1)) construct c = .ok (found, c') ∧
      found.getD [] = xs.map f ∧ c'.words = .symbol .rightBracket :: rest := by
  cases xs with
  | nil =>
      have hclosed : Closed c := closed_of_kind (Cursor.head_kind hc) (.inr (.inl rfl))
      have habsent : optional ((nested (levels + 1)).expr false) c = .ok (none, c) :=
        optional_absent (expr_absent hclosed.absent) rfl
      exact ⟨none, c, by rw [elements?, bind_run habsent]; rfl, rfl, hc⟩
  | cons x xs =>
      rw [List.forall_mem_cons] at h
      rw [List.map_cons, Word.separated, intercalate_cons, List.append_assoc] at hc
      have hclosing : EndsPart (.symbol .rightBracket :: rest) := endsPart_cons rest (by decide)
      obtain ⟨c₁, hfirst, hlater⟩ := h.1 false c _ hc (hclosing.later _)
      have hcomma : ∀ c, c.words = .symbol .rightBracket :: rest →
          after (.symbol .comma) (because (.nextElement construct)
            ((nested (levels + 1)).expr true)) c = .ok (none, c) := by
        intro c hc
        apply after_other
        rw [Cursor.head_kind hc]
        decide
      obtain ⟨c', hrest, hwords⟩ := many_later (f := f)
        (fun x hx c rest hc hends => after_later ((h.2 x hx true).because _) hc hends) hcomma
        hclosing hlater
      refine ⟨some (f x :: xs.map f), c', ?_, rfl, hwords⟩
      rw [elements?, bind_run (optional_run hfirst)]
      exact (bind_run hrest _).trans rfl

/-- Expressions in brackets. -/
theorem finds_list {f : α → Expr}
    (h : ∀ x ∈ xs, ∀ required, Finds ((nested (levels + 1)).expr required) (words x) (f x)) :
    Finds (expr (nested (levels + 1)) required)
      (.symbol .leftBracket :: (Word.separated (xs.map words) ++ [.symbol .rightBracket]))
      (.list (xs.map f)) := by
  intro c rest hc hends
  rw [List.cons_append, List.append_assoc] at hc
  obtain ⟨n, c₁, hleft, hinner⟩ := Cursor.exists_word hc
  obtain ⟨found, c₂, helements, hfound, hclosing⟩ := elements?_finds h hinner .list
  obtain ⟨n', c', hright, hrest⟩ := Cursor.exists_word hclosing
  have hstops : c'.Stops 1 := by
    apply EndsPart.stops
    rwa [hrest]
  have hrun : list (nested (levels + 1)) c₁ = .ok (.list (xs.map f), c') := by
    rw [list, bind_run helements, bind_run (expect_run hright _), hfound]
    rfl
  have hvalue : value (nested (levels + 1)) required c = .ok (.list (xs.map f), c') := by
    rw [value, bind_run (literal?_other hleft (.inr (.inl rfl)))]
    simp only
    rw [peekKind_run, hleft.head_kind]
    simp only
    rw [advance_run hleft, hrun]
  exact ⟨c', expr_of_value hleft rfl rfl hvalue hstops, hrest⟩

theorem finds_entry {key : Key} (hkey : key.Legible) {words : List Word}
    (hvalue : Finds (deeper.expr true) words e) :
    Finds (entry deeper) (key.toValue.words ++ .symbol .colon :: words)
      (.computed key.toValue.literal e) := by
  intro c rest hc hends
  obtain ⟨found, hwords, hkind, hliteral⟩ := hkey.exists_word
  rw [hwords] at hc
  obtain ⟨n, c₁, hword, hnext⟩ := Cursor.exists_word hc
  obtain ⟨n', c₂, hcolon, hinner⟩ := Cursor.exists_word hnext
  obtain ⟨c', hrun, hrest⟩ := hvalue.because .tableValue c₂ rest hinner hends
  have hentry : entryValue deeper c₁ = .ok (e, c') := by
    rw [entryValue, bind_run (expect_run hcolon _), hrun]
  have hkeyRun : literal? c = .ok (some key.toValue.literal, c₁) := literal?_word hword hliteral
  refine ⟨c', ?_, hrest⟩
  obtain ⟨token, hhead, hsame, -⟩ := hword.head
  rw [Grammar.entry, peek_run, hhead]
  rw [← hsame] at hkind
  rcases hkind with hkind | hkind
  · simp only [hkind]
    rw [bind_run hkeyRun]
    exact (bind_run hentry _).trans rfl
  · simp only [hkind]
    rw [bind_run hkeyRun]
    exact (bind_run hentry _).trans rfl

/-- No entry begins with a closing brace. -/
theorem keyed_head {key : Key} (hkey : key.Legible) {more : List Word} {c : Cursor}
    (hc : c.words = key.toValue.words ++ more) :
    c.rest.head?.map (·.kind) ≠ some (.symbol .rightBrace) := by
  obtain ⟨found, hwords, hkind, -⟩ := hkey.exists_word
  rw [hwords] at hc
  rw [Cursor.head_kind hc]
  rcases hkind with hkind | hkind <;> rw [hkind] <;> decide

theorem table_finds {key : α → Key} {f : α → Expr} (hkey : ∀ x ∈ xs, (key x).Legible)
    (h : ∀ x ∈ xs, Finds (deeper.expr true) (words x) (f x)) {c : Cursor} {rest : List Word}
    (hc : c.words = Word.separated (xs.map fun x =>
      (key x).toValue.words ++ .symbol .colon :: words x) ++ .symbol .rightBrace :: rest) :
    ∃ c', table deeper c =
      .ok (.table (xs.map fun x => .computed (key x).toValue.literal (f x)), c') ∧
        c'.words = rest := by
  cases xs with
  | nil =>
      obtain ⟨n, c', hright, hrest⟩ := Cursor.exists_word hc
      refine ⟨c', ?_, hrest⟩
      rw [table, bind_run (accept_run hright)]
      rfl
  | cons x xs =>
      rw [List.forall_mem_cons] at h hkey
      rw [List.map_cons, Word.separated, intercalate_cons, List.append_assoc] at hc
      have hclosing : EndsPart (.symbol .rightBrace :: rest) := endsPart_cons rest (by decide)
      obtain ⟨c₁, hfirst, hlater⟩ := finds_entry hkey.1 h.1 c _ hc (hclosing.later _)
      have hlast : ∀ c, c.words = .symbol .rightBrace :: rest →
          entryAfterComma deeper c = .ok (none, c) := by
        intro c hc
        have hcomma : c.rest.head?.map (·.kind) ≠ some (.symbol .comma) := by
          rw [Cursor.head_kind hc]
          decide
        rw [entryAfterComma, bind_run (accept_other hcomma)]
        rfl
      have hitem : ∀ y ∈ xs, ∀ c rest,
          c.words = .symbol .comma ::
            (((key y).toValue.words ++ .symbol .colon :: words y) ++ rest) → EndsPart rest →
          ∃ c', entryAfterComma deeper c =
            .ok (some (.computed (key y).toValue.literal (f y)), c') ∧ c'.words = rest := by
        intro y hy c rest hc hends
        obtain ⟨n, c₂, hcomma, hnext⟩ := Cursor.exists_word hc
        obtain ⟨c', hrun, hrest⟩ := finds_entry (hkey.2 y hy) (h.2 y hy) c₂ rest hnext hends
        rw [List.append_assoc] at hnext
        refine ⟨c', ?_, hrest⟩
        rw [entryAfterComma, bind_run (accept_run hcomma), if_pos rfl, peekKind_run,
          if_neg (keyed_head (hkey.2 y hy) hnext), bind_run hrun]
        rfl
      obtain ⟨c₂, hrest, hwords⟩ := many_later hitem hlast hclosing hlater
      obtain ⟨n, c', hright, hend⟩ := Cursor.exists_word hwords
      rw [List.append_assoc] at hc
      refine ⟨c', ?_, hend⟩
      rw [table, bind_run (accept_other (keyed_head hkey.1 hc)), if_neg (by decide),
        bind_run hfirst, bind_run hrest, bind_run (expect_run hright _)]
      rfl

theorem finds_table {key : α → Key} {f : α → Expr} (hkey : ∀ x ∈ xs, (key x).Legible)
    (h : ∀ x ∈ xs, Finds (deeper.expr true) (words x) (f x)) :
    Finds (expr deeper required)
      (.symbol .leftBrace :: (Word.separated (xs.map fun x =>
        (key x).toValue.words ++ .symbol .colon :: words x) ++ [.symbol .rightBrace]))
      (.table (xs.map fun x => .computed (key x).toValue.literal (f x))) := by
  intro c rest hc hends
  rw [List.cons_append, List.append_assoc] at hc
  obtain ⟨n, c₁, hleft, hinner⟩ := Cursor.exists_word hc
  obtain ⟨c', hrun, hrest⟩ := table_finds hkey h hinner
  have hstops : c'.Stops 1 := by
    apply EndsPart.stops
    rwa [hrest]
  have hvalue : value deeper required c =
      .ok (.table (xs.map fun x => .computed (key x).toValue.literal (f x)), c') := by
    rw [value, bind_run (literal?_other hleft (.inr (.inr (.inl rfl))))]
    simp only
    rw [peekKind_run, hleft.head_kind]
    simp only
    rw [advance_run hleft, hrun]
  exact ⟨c', expr_of_value hleft rfl rfl hvalue hstops, hrest⟩

end Containers

end Grammar

namespace Store.IsData

variable {s : Store} {depth : Nat} {value : Value}

/-- Data is found as its literal, if there are two levels of nesting more than the data has. -/
theorem finds (h : s.IsData depth value) {levels : Nat} (hlevels : depth + 2 ≤ levels)
    (required : Bool) :
    Finds ((Grammar.nested levels).expr required) (s.words depth value) (s.literal depth value) := by
  induction h using IsData.induction generalizing levels required with
  | scalar hdata hscalar =>
      obtain ⟨levels, rfl⟩ := Nat.exists_eq_add_of_le' (Nat.le_trans (Nat.le_add_left 2 _) hlevels)
      rw [words_scalar hscalar, literal_scalar hscalar]
      exact Grammar.finds_scalar hscalar levels
  | list hdata ih =>
      obtain ⟨levels, rfl⟩ := Nat.exists_eq_add_of_le' (Nat.le_trans (Nat.le_add_left 2 _) hlevels)
      apply Grammar.finds_list
      intro value hvalue required
      exact ih value hvalue (by omega) required
  | table hdata ih =>
      obtain ⟨levels, rfl⟩ := Nat.exists_eq_add_of_le' (Nat.le_trans (Nat.le_add_left 2 _) hlevels)
      apply Grammar.finds_table
      · intro entry hentry
        exact (hdata.2 entry hentry).1
      · intro entry hentry
        exact ih entry hentry (by omega) true

/-- The words of data are a program that consists of its literal. -/
theorem parse_words (h : s.IsData depth value) (hdepth : depth + 2 ≤ Grammar.maxDepth)
    {tokens : List Token} (htokens : tokens.map Token.word = s.words depth value) :
    parse tokens = .ok [s.literal depth value] := by
  have habsent : ∀ c : Cursor, c.rest = [] →
      ∃ rejection, rejection.committed = false ∧ Rule.expr false c = .error rejection := by
    intro c hc
    have hclosed : Grammar.Closed c := by
      intro kind hkind
      rw [hc] at hkind
      cases hkind
    exact ⟨_, rfl, Grammar.expr_absent hclosed.absent⟩
  have hwords : (Cursor.start tokens).words = s.words depth value ++ [] := by
    rw [List.append_nil]
    exact htokens
  obtain ⟨c', hrun, hrest⟩ :=
    h.finds hdepth false (.start tokens) [] hwords (fun next hnext => by cases hnext)
  have hend : c'.rest = [] := List.map_eq_nil_iff.1 hrest
  have hlength : c'.rest.length < (Cursor.start tokens).rest.length := by
    rw [hend]
    apply List.length_pos_of_ne_nil
    intro hnone
    obtain ⟨rejection, -, herror⟩ := habsent _ hnone
    cases hrun.symm.trans herror
  obtain ⟨rejection, hcommitted, herror⟩ := habsent c' hend
  have hrepeats : Repeats (optional (Rule.expr false)) (.start tokens) [s.literal depth value] c' :=
    .cons (optional_run hrun) hlength (.nil (optional_absent herror hcommitted))
  refine parse_eq_ok_iff.2 ⟨c'.line, ?_⟩
  rw [← hend]
  exact hrepeats.many

end Store.IsData

end TableScript
