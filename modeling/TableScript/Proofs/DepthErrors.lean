import TableScript.Proofs.Demand
import TableScript.Proofs.Limit

/-!
Errors about the limit of nesting. The limit is tested before the next token is looked at. So a
program is refused at the limit also where no expression begins: in empty brackets on the last
level, where nothing is nested, and at the end of the input, where the error is reported as
incomplete.
-/

namespace TableScript

open Rule Grammar

/-! ### Incomplete errors -/

namespace SyntaxError

theorem isIncomplete_ofRejection (r : Rejection) :
    (ofRejection r).isIncomplete = (r.span.isNone || r.wantsMore) := by
  obtain ⟨wantsMore, committed, complaint, span⟩ := r
  cases span with
  | none => rfl
  | some span => cases wantsMore <;> rfl

end SyntaxError

/-- An error is incomplete exactly if the failure behind it wants more tokens, unless the limit of
nesting is reached at the end of the input. -/
theorem isIncomplete_eq_wantsMore_iff {tokens : List Token} {r : Rejection}
    (h : Rule.program (.start tokens) = .error r) :
    ∃ e, parse tokens = .error e ∧ (e.isIncomplete = r.wantsMore ↔
      ¬(r.span = none ∧ ∃ construct, r.complaint = some (.nestedTooDeeply construct))) := by
  refine ⟨_, parse_of_program_error h, ?_⟩
  rw [SyntaxError.isIncomplete_ofRejection]
  rw [program_eq] at h
  rcases levelled_program (.start tokens) with havoids | ⟨used, c, construct, hreaches⟩
  · have hordinary := havoids.ordinary r h
    refine iff_of_true ?_ ?_
    · rw [hordinary.wants, Bool.or_self]
    · rintro ⟨-, construct, hcomplaint⟩
      cases hordinary.complaint _ hcomplaint
  · cases h.symm.trans hreaches.fails
    cases hspan : c.rest.head?.map (·.span) with
    | none =>
        have hdiffer : ¬true = false := by decide
        exact iff_of_false hdiffer fun hnot => hnot ⟨rfl, construct, rfl⟩
    | some span => exact iff_of_true rfl fun hnone => by cases hnone.1

theorem program_deepParens :
    Rule.program (.start deepParens) = .error (.limit none .expression) := by
  have hend : ∀ required line, (nested 0).expr required ⟨line, []⟩ =
      .error (.limit none .expression) := fun _ _ => rfl
  have hexpr : (nested (0 + maxDepth)).expr false ⟨none, deepParens ++ []⟩ = _ :=
    expr_parens 0 hend (Rejection.fatal_limit none .expression) maxDepth false none
  rw [List.append_nil, Nat.zero_add] at hexpr
  exact program_of_expr_error hexpr rfl

theorem isIncomplete_eq_wantsMore_iff_deepParens :
    (∃ e, parse deepParens = .error e ∧ e.isIncomplete ≠ false) ∧
      ∃ e, parse [.ofKind (.symbol .leftParen)] = .error e ∧ e.isIncomplete = true := by
  obtain ⟨e, herror, hiff⟩ := isIncomplete_eq_wantsMore_iff program_deepParens
  have hopen : Rule.program (.start [.ofKind (.symbol .leftParen)]) =
      .error ((Rejection.noMatch none).because .quoteValue) := rfl
  obtain ⟨e', herror', hiff'⟩ := isIncomplete_eq_wantsMore_iff hopen
  refine ⟨⟨e, herror, fun hfalse => hiff.1 hfalse ⟨rfl, .expression, rfl⟩⟩, e', herror', hiff'.2 ?_⟩
  rintro ⟨-, construct, hcomplaint⟩
  cases hcomplaint

/-- Behind the parentheses the failure wants no more tokens, and is reported as incomplete. -/
theorem incomplete_without_wantsMore :
    ∃ r e, Rule.program (.start deepParens) = .error r ∧ parse deepParens = .error e ∧
      r.wantsMore = false ∧ e.isIncomplete = true :=
  ⟨_, _, program_deepParens, parse_of_program_error program_deepParens, rfl, rfl⟩

/-! ### Where the limit is reached -/

/-- The program of some tokens over a bottom. Over `nested more` there are so many levels more. -/
def parseOver (bottom : Nested) (tokens : List Token) : Except SyntaxError Block :=
  match programOver bottom (.start tokens) with
  | .error rejection => .error (.ofRejection rejection)
  | .ok (program, cursor) =>
    match cursor.rest with
    | [] => .ok program
    | token :: _ => .error (.unexpectedToken token)

theorem parseOver_zero (tokens : List Token) : parseOver (nested 0) tokens = parse tokens := by
  rw [parse, program_eq]
  rfl

/-- Rules that find nothing anywhere. Over them there are no expressions below the limit. -/
def barren : Nested :=
  { expr := fun required => noMatch required, operand := noMatch true }

/-- An expression one level below the limit is asked for at a place: what goes wrong with it there
goes wrong with the program. -/
def AskedBelow (tokens : List Token) (c : Cursor) : Prop :=
  ∀ bottom r, r.Fatal → bottom.FailsAt c r → parseOver bottom tokens = .error (.ofRejection r)

namespace SyntaxError

def complaint? : SyntaxError → Option Complaint
  | invalid complaint _ | incomplete complaint => complaint
  | unexpectedToken _ => none

/-- Whether an error is about the limit of nesting. -/
def isDepth (e : SyntaxError) : Bool :=
  e.complaint?.any Complaint.isDepth

theorem complaint?_ofRejection (r : Rejection) : (ofRejection r).complaint? = r.complaint := by
  obtain ⟨wantsMore, committed, complaint, span⟩ := r
  cases span with
  | none => rfl
  | some span => cases wantsMore <;> rfl

theorem span?_ofRejection {r : Rejection} (h : r.span ≠ none → r.wantsMore = false) :
    (ofRejection r).span? = r.span := by
  obtain ⟨wantsMore, committed, complaint, span⟩ := r
  cases span with
  | none => rfl
  | some span =>
      obtain rfl : wantsMore = false := h (by simp)
      rfl

end SyntaxError

section Places

variable {tokens : List Token} {bottom : Nested} {r : Rejection}

theorem parseOver_error (h : programOver bottom (.start tokens) = .error r) :
    parseOver bottom tokens = .error (.ofRejection r) := by
  rw [parseOver, h]

theorem parseOver_congr {bottom' : Nested}
    (h : programOver bottom (.start tokens) = programOver bottom' (.start tokens)) :
    parseOver bottom tokens = parseOver bottom' tokens := by
  rw [parseOver, h]
  rfl

/-- Where the bottom is not reached, no bottom changes anything. -/
theorem parse_avoids (h : Avoids programOver (.start tokens)) :
    (∀ e, parse tokens = .error e → e.isDepth = false) ∧
      ∀ bottom, parseOver bottom tokens = parse tokens := by
  refine ⟨fun e herror => ?_, fun bottom =>
    (parseOver_congr (h.same bottom)).trans (parseOver_zero tokens)⟩
  rw [← parseOver_zero] at herror
  cases hrun : programOver (nested 0) (.start tokens) with
  | error r =>
      cases (parseOver_error hrun).symm.trans herror
      rw [SyntaxError.isDepth, SyntaxError.complaint?_ofRejection, Option.any_eq_false_iff_get]
      exact fun hsome => (h.ordinary r hrun).complaint _ (Option.get_mem hsome)
  | ok found =>
      obtain ⟨program, line, rest⟩ := found
      rw [parseOver, hrun] at herror
      cases rest with
      | nil => cases herror
      | cons token rest =>
          cases herror
          rfl

theorem unary_absent {deeper : Nested} {required : Bool} {c : Cursor} (h : Absent c) :
    unary deeper required c =
      .error ((Rejection.noMatch (c.rest.head?.map (·.span))).demanded required) := by
  have hop : (c.rest.head?.map (·.kind)).bind unaryOp? = none := by
    cases hhead : c.rest.head?.map (·.kind) with
    | none => rfl
    | some kind =>
        have hstarts := h kind hhead
        simp only [starts, Bool.or_eq_false_iff] at hstarts
        simpa using hstarts.1.2
  have hvalue : value deeper required c = _ := value_absent fun kind hkind => by
    have hstarts := h kind hkind
    simp only [starts, Bool.or_eq_false_iff] at hstarts
    exact hstarts.2
  rw [unary, peekKind_run, hop]
  simp only
  rw [primary, bind_run h.plain.control?]
  simp only
  rw [access, bind_error hvalue]

theorem declines_nested {c : Cursor} (h : Absent c) (levels : Nat) :
    (nested (levels + 1)).Declines c :=
  ⟨fun _ => expr_absent h, unary_absent h⟩

theorem declines_barren (c : Cursor) : barren.Declines c :=
  ⟨fun _ => rfl, rfl⟩

/-- A failure with more levels is shown where it is. -/
theorem span?_of_nested {levels : Nat}
    (h : programOver (nested levels) (.start tokens) = .error r) :
    (SyntaxError.ofRejection r).span? = r.span := by
  refine SyntaxError.span?_ofRejection fun hspan => ?_
  rw [programOver, ← nested_add] at h
  exact ((foresees_statements (foreseen_nested _)).failed r h hspan).2.1

section Reaches

variable {used : List Token} {c : Cursor} {construct : Construct}
  (h : Reaches programOver (.start tokens) used c construct)

include h

/-- Where the bottom is reached, the program is refused for its depth. -/
theorem parse_reaches : ∃ e, parse tokens = .error e ∧ e.isDepth = true ∧
    e.span? = c.rest.head?.map (·.span) := by
  refine ⟨_, (parseOver_zero tokens).symm.trans (parseOver_error h.fails), ?_, ?_⟩
  · rw [SyntaxError.isDepth, SyntaxError.complaint?_ofRejection]
    rfl
  · exact SyntaxError.span?_ofRejection fun _ => rfl

theorem askedBelow : AskedBelow tokens c :=
  fun bottom r hfatal hfails => parseOver_error (h.asks bottom r hfatal hfails)

/-- Where no expression begins, the brackets are empty or the input fails there with any number of
levels. -/
theorem inEmptyBrackets_or_fails (habsent : Absent c) : c.InEmptyBrackets used ∨
    ∀ more, ∃ e, parseOver (nested (more + 1)) tokens = .error e ∧
      e.span? = c.rest.head?.map (·.span) := by
  by_cases hempty : c.InEmptyBrackets used
  · exact .inl hempty
  · refine .inr fun more => ?_
    obtain ⟨r, hrun, hspan⟩ := (h.declined _ (declines_nested habsent more)).resolve_left hempty
    exact ⟨_, parseOver_error hrun, (span?_of_nested hrun).trans hspan⟩

/-- With no expression below the limit there is nothing in the brackets. -/
theorem inEmptyBrackets_of_barren {program : Block}
    (hprogram : parseOver barren tokens = .ok program) : c.InEmptyBrackets used := by
  refine (h.declined barren (declines_barren c)).resolve_right ?_
  rintro ⟨r, hrun, -⟩
  cases (parseOver_error hrun).symm.trans hprogram

end Reaches

end Places

/-- Tokens are refused for their depth at a place where an expression below the limit is asked for.
There one begins, or brackets are empty, or the tokens are refused with any number of levels. A
program with no expression below the limit is refused only for empty brackets. What is not refused
for its depth does not depend on the limit. -/
theorem depth_error_place (tokens : List Token) :
    (∀ e, parse tokens = .error e → e.isDepth = true →
      ∃ before c, (Cursor.start tokens).Passes before c ∧ e.span? = c.rest.head?.map (·.span) ∧
        AskedBelow tokens c ∧
        ((∃ token, c.rest.head? = some token ∧ token.kind ∈ openers) ∨ c.InEmptyBrackets before ∨
          ∀ more, ∃ e', parseOver (nested (more + 1)) tokens = .error e' ∧ e'.span? = e.span?) ∧
        ∀ program, parseOver barren tokens = .ok program → c.InEmptyBrackets before) ∧
    (∀ program, parseOver barren tokens = .ok program →
      parse tokens = .ok program ∨ ∃ e, parse tokens = .error e ∧ e.isDepth = true) ∧
    ((∀ e, parse tokens = .error e → e.isDepth = false) →
      ∀ bottom, parseOver bottom tokens = parse tokens) := by
  rcases levelled_program (.start tokens) with havoids | ⟨before, c, construct, hreaches⟩
  · obtain ⟨hnever, hall⟩ := parse_avoids havoids
    refine ⟨fun e herror hdepth => ?_, fun program hprogram => ?_, fun _ => hall⟩
    · rw [hnever e herror] at hdepth
      cases hdepth
    · exact .inl ((hall barren).symm.trans hprogram)
  · obtain ⟨e, herror, hdepth, hspan⟩ := parse_reaches hreaches
    refine ⟨fun e' herror' _ => ?_, fun _ _ => .inr ⟨e, herror, hdepth⟩, fun hnever => ?_⟩
    · cases herror.symm.trans herror'
      refine ⟨before, c, hreaches.passes, hspan, askedBelow hreaches, ?_,
        fun _ => inEmptyBrackets_of_barren hreaches⟩
      rw [hspan]
      by_cases habsent : Absent c
      · exact .inr (inEmptyBrackets_or_fails hreaches habsent)
      · rw [absent_iff] at habsent
        simp only [Classical.not_forall, Classical.not_not] at habsent
        obtain ⟨token, hhead, hopener⟩ := habsent
        exact .inl ⟨token, hhead, hopener⟩
    · rw [hnever e herror] at hdepth
      cases hdepth

/-! ### An empty list on the last level -/

section Parens

variable {bottom : Nested} {levels : Nat} {e : Expr}

theorem expr_of_plain {deeper : Nested} {required : Bool} {c c' : Cursor} (hplain : Plain c)
    (hop : (c.rest.head?.map (·.kind)).bind unaryOp? = none)
    (h : value deeper required c = .ok (e, c')) (hstops : c'.Stops 1) :
    expr deeper required c = .ok (e, c') := by
  have haccess := access_of_value h (hstops.mono (by decide))
  exact expr_of_unary hplain (unary_of_access hplain hop haccess) hstops

theorem expr_of_quote {deeper : Nested} {required : Bool} {line : Option Nat} {rest : List Token}
    {c' : Cursor} (h : quote deeper ⟨some 0, rest⟩ = .ok (e, c')) (hstops : c'.Stops 1) :
    expr deeper required ⟨line, .ofKind (.symbol .leftParen) :: rest⟩ = .ok (e, c') :=
  expr_of_plain (fun kind hkind => by cases hkind; rfl) rfl h hstops

/-- Parentheses around an expression take a level each and leave the expression. -/
theorem expr_in_parens {inner : List Token}
    (h : ∀ required line rest, Cursor.Stops ⟨some 0, rest⟩ 1 →
      (nestedOver bottom levels).expr required ⟨line, inner ++ rest⟩ = .ok (e, ⟨some 0, rest⟩))
    (count : Nat) (required : Bool) (line : Option Nat) {rest : List Token}
    (hstops : Cursor.Stops ⟨some 0, rest⟩ 1) :
    (nestedOver bottom (levels + count)).expr required
      ⟨line, List.replicate count (.ofKind (.symbol .leftParen)) ++
        (inner ++ (List.replicate count (.ofKind (.symbol .rightParen)) ++ rest))⟩ =
      .ok (e, ⟨some 0, rest⟩) := by
  induction count generalizing required line rest with
  | zero => exact h required line rest hstops
  | succ count ih =>
      have hclosed : Closed ⟨some 0, .ofKind (.symbol .rightParen) :: rest⟩ :=
        closed_of_kind rfl (.inl rfl)
      have hinner := because_run (ih true (some 0) hclosed.stops) .quoteValue
      rw [List.replicate_succ' (n := count) (a := Token.ofKind (.symbol .rightParen)),
        List.append_assoc]
      exact expr_of_quote (bind_run hinner _) hstops

/-- A program that is one expression. -/
theorem parseOver_of_expr {tokens : List Token} {line : Option Nat} (hne : tokens ≠ [])
    (h : (nestedOver bottom maxDepth).expr false (.start tokens) = .ok (e, ⟨line, []⟩)) :
    parseOver bottom tokens = .ok [e] := by
  have hend : Absent ⟨line, []⟩ := fun kind hkind => by cases hkind
  have hnothing : optional ((nestedOver bottom maxDepth).expr false) ⟨line, []⟩ =
      .ok (none, ⟨line, []⟩) := optional_absent (expr_absent hend) rfl
  have hrun : programOver bottom (.start tokens) = .ok ([e], ⟨line, []⟩) :=
    (Repeats.cons (optional_run h) (List.length_pos_iff.2 hne) (.nil hnothing)).many
  rw [parseOver, hrun]

end Parens

/-- An empty list in parentheses, on the last level that is allowed. Only the place of the bracket
that closes the list is given. -/
def hollowList : List Token :=
  List.replicate 63 (.ofKind (.symbol .leftParen)) ++
    ([.ofKind (.symbol .leftBracket), ⟨.symbol .rightBracket, none, ⟨64, 65, 0, 64⟩⟩] ++
      (List.replicate 63 (.ofKind (.symbol .rightParen)) ++ []))

theorem parse_hollowList : parse hollowList =
    .error (.invalid (some (.nestedTooDeeply .expression)) ⟨64, 65, 0, 64⟩) :=
  parse_of_expr_error (expr_parens 1 (fun _ _ => rfl)
    (Rejection.fatal_limit (some ⟨64, 65, 0, 64⟩) .expression) 63 false none) rfl

theorem parseOver_hollowList : parseOver barren hollowList = .ok [.list []] := by
  have hne : hollowList ≠ [] := by simp [hollowList]
  refine parseOver_of_expr hne (expr_in_parens ?_ 63 false none (stops_of_nil rfl 1))
  exact fun _ _ _ hstops => expr_of_plain (fun kind hkind => by cases hkind; rfl) rfl rfl hstops

/-- The list is refused for its depth, at a bracket, where no expression can begin; and no
expression is below the limit. -/
theorem hollow_list_refused :
    (∃ e, parse hollowList = .error e ∧ e.isDepth = true ∧ ∀ token ∈ hollowList,
      e.span? = some token.span → token.kind ∉ openers) ∧
      ∃ program, parseOver barren hollowList = .ok program := by
  refine ⟨⟨_, parse_hollowList, rfl, fun token hmem hspan => ?_⟩, _, parseOver_hollowList⟩
  simp only [hollowList, List.mem_append, List.mem_cons, List.not_mem_nil, or_false] at hmem
  rcases hmem with hmem | (rfl | rfl) | hmem
  · cases List.eq_of_mem_replicate hmem
    exact absurd hspan (by decide)
  · exact absurd hspan (by decide)
  · decide
  · cases List.eq_of_mem_replicate hmem
    exact absurd hspan (by decide)

theorem depth_error_place_hollowList :
    (∃ before c, (Cursor.start hollowList).Passes before c ∧ c.InEmptyBrackets before) ∧
      (∃ e, parse hollowList = .error e ∧ e.isDepth = true) ∧
      ∀ bottom, parseOver bottom [] = parse [] := by
  obtain ⟨hplace, hfits, -⟩ := depth_error_place hollowList
  obtain ⟨before, c, hpasses, -, -, -, hempty⟩ := hplace _ parse_hollowList rfl
  refine ⟨⟨before, c, hpasses, hempty _ parseOver_hollowList⟩, ?_, ?_⟩
  · refine (hfits _ parseOver_hollowList).resolve_left fun hok => ?_
    cases parse_hollowList.symm.trans hok
  · exact (depth_error_place []).2.2 fun e herror => by cases herror

end TableScript
