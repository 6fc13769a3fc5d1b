import Mathlib.Data.List.Infix
import TableScript.Proofs.Completion

/-!
Incomplete programs. An input that ends inside a construct can be completed, with three exceptions: an
assignment before its end has no target, what is missing is nested too deeply, or a loop over numbers
has two names. Inputs with each of these are reported as incomplete although nothing completes them.
-/

namespace TableScript

open Rule Grammar

variable {tokens : List Token} {rejection : Rejection}

theorem parse_of_program_error (h : Rule.program (.start tokens) = .error rejection) :
    parse tokens = .error (.ofRejection rejection) := by
  rw [parse, h]

/-- What is incomplete fails at the end of the input. -/
theorem program_of_incomplete {complaint : Option Complaint}
    (h : parse tokens = .error (.incomplete complaint)) :
    ∃ rejection, Rule.program (.start tokens) = .error rejection ∧ rejection.span = none ∧
      rejection.complaint = complaint := by
  cases hrun : Rule.program (.start tokens) with
  | ok found =>
      obtain ⟨program, line, rest⟩ := found
      rw [parse, hrun] at h
      cases rest <;> cases h
  | error rejection =>
      rw [parse_of_program_error hrun, SyntaxError.ofRejection] at h
      cases hspan : rejection.span with
      | none =>
          rw [hspan] at h
          cases h
          exact ⟨rejection, rfl, hspan, rfl⟩
      | some span =>
          have hsome : rejection.span ≠ none := by rw [hspan]; exact Option.some_ne_none span
          have hwants := ((foresees_program (.start tokens)).failed _ hrun hsome).2.1
          rw [hspan, hwants] at h
          cases h

/-- An input that is incomplete can be completed, if each assignment has a target that would take
`null`, if what is asked for is not nested too deeply, and if it is not the names of a loop that are
at fault. -/
theorem incomplete_completable {complaint : Option Complaint}
    (hincomplete : parse tokens = .error (.incomplete complaint))
    (htargets : ∀ before sign, before ++ [sign] <+: tokens → sign.kind.assigns = true →
      ∀ span, parse (before ++ [sign, .ofKind (.keyword .null)]) ≠
        .error (.invalid (some .assignTarget) span))
    (hroom : ∀ construct, parse (tokens ++ (complaint.map Complaint.asks).getD []) ≠
      .error (.incomplete (some (.nestedTooDeeply construct))))
    (hnames : complaint ≠ some .forSingle) :
    ∃ more program, parse (tokens ++ more) = .ok program := by
  obtain ⟨rejection, hrun, hspan, rfl⟩ := program_of_incomplete hincomplete
  have hcompletes : Rule.program.Completes (fun _ => True) (fun _ d => d.Stops 1 ∧ Absent d)
      (fun _ => True) (.start tokens) := completes_statements (completing_nested maxDepth)
  rcases hcompletes rejection hrun hspan with ⟨more, program, line, -, hresumes⟩ | hstuck
  · have hend : Absent ⟨line, []⟩ := fun kind hkind => by cases hkind
    obtain ⟨hmatch, -⟩ := hresumes [] ⟨stops_of_nil rfl 1, hend⟩
    rw [List.append_nil] at hmatch
    exact ⟨more, program, parse_eq_ok_iff.2 ⟨line, hmatch⟩⟩
  · exfalso
    cases hstuck with
    | target before after sign span hrest hsign hfails =>
        refine htargets before sign ⟨after, ?_⟩ hsign span (parse_of_program_error hfails)
        rw [List.append_assoc]
        exact hrest.symm
    | nesting complaint construct hcomplaint _ hfails =>
        refine hroom construct ?_
        rw [hcomplaint]
        exact parse_of_program_error hfails
    | names hcomplaint => exact hnames hcomplaint

/-- A loop with a block, in the block an assignment, and in its value a call that is open. -/
def openCall : List Token :=
  wordsOn 0 [(.keyword .for, none), (.identifier, some "v"), (.symbol .comma, none),
    (.identifier, some "k"), (.keyword .in, none), (.identifier, some "t"), (.symbol .leftBrace, none),
    (.identifier, some "s"), (.symbol .addAssign, none), (.identifier, some "f"),
    (.symbol .leftParen, none), (.identifier, some "v")]

theorem incomplete_completable_openCall :
    parse openCall = .error (.incomplete (some .callClose)) ∧
      ∃ more program, parse (openCall ++ more) = .ok program := by
  have hincomplete : parse openCall = .error (.incomplete (some .callClose)) := rfl
  have hsign : ∀ row ∈ openCall.inits, ∀ sign ∈ row.getLast?, sign.kind.assigns = true →
      row = openCall.take 9 := by decide
  have hnull : parse (openCall.take 9 ++ [.ofKind (.keyword .null)]) =
      .error (.incomplete (some (.blockClose .for))) := rfl
  refine ⟨hincomplete, incomplete_completable hincomplete ?_ ?_ ?_⟩
  · intro before sign hprefix hassigns span hinvalid
    have hrow := hsign _ ((List.mem_inits _ _).2 hprefix) sign (by simp) hassigns
    rw [List.append_cons, hrow, hnull] at hinvalid
    cases hinvalid
  · intro construct hdeep
    have hsame : openCall ++ (((some Complaint.callClose).map Complaint.asks).getD []) = openCall :=
      List.append_nil _
    rw [hsame, hincomplete] at hdeep
    cases hdeep
  · exact fun h => by cases h

/-! ### What cannot be completed -/

/-- An input that is reported as incomplete although no further tokens make a program of it. -/
def Hopeless (tokens : List Token) : Prop :=
  (∃ complaint, parse tokens = .error (.incomplete complaint)) ∧
    ∀ more program, parse (tokens ++ more) ≠ .ok program

/-- Parentheses pass on the failure of what is nested in them. -/
theorem expr_parens (levels : Nat) {rest : List Token}
    (h : ∀ required line, (nested levels).expr required ⟨line, rest⟩ = .error rejection)
    (hfatal : rejection.Fatal) (count : Nat) (required : Bool) (line : Option Nat) :
    (nested (levels + count)).expr required
      ⟨line, List.replicate count (.ofKind (.symbol .leftParen)) ++ rest⟩ = .error rejection := by
  induction count generalizing required line with
  | zero => exact h required line
  | succ count ih =>
      refine expr_of_value_error (fun kind hkind => by cases hkind; rfl) rfl ?_
      have hinner : because .quoteValue ((nested (levels + count)).expr true)
          ⟨some 0, List.replicate count (.ofKind (.symbol .leftParen)) ++ rest⟩ =
        .error rejection := by
        rw [because, ih true (some 0)]
        simp only [hfatal.because]
      have hquote : quote (nested (levels + count))
          ⟨some 0, List.replicate count (.ofKind (.symbol .leftParen)) ++ rest⟩ = .error rejection :=
        bind_error hinner _
      exact hquote

theorem program_of_expr_error (h : (nested maxDepth).expr false (.start tokens) = .error rejection)
    (hcommitted : rejection.committed = true) : Rule.program (.start tokens) = .error rejection :=
  manyWithin_error (optional_committed h hcommitted) tokens

theorem parse_of_expr_error (h : (nested maxDepth).expr false (.start tokens) = .error rejection)
    (hcommitted : rejection.committed = true) : parse tokens = .error (.ofRejection rejection) :=
  parse_of_program_error (program_of_expr_error h hcommitted)

section Untargeted

variable {deeper : Nested} {required : Bool} {c c' : Cursor} {left : Expr} {kind : Kind}

/-- What is no target fails at the sign after it, whatever it is assigned. -/
theorem expr_untargeted (hplain : Plain c) (hleft : or deeper required c = .ok (left, c'))
    (htarget : target? left = none) (hkind : c'.rest.head?.map (·.kind) = some kind)
    (hupdates : updates kind = true) : ∃ rejection, expr deeper required c = .error rejection := by
  rw [expr_eq, bind_run (accept_other hplain.ne_global), if_neg (by decide), bind_run hplain.control?]
  simp only
  rw [peekSpan_run, bind_run hleft]
  cases hupdate : update? deeper c' with
  | error rejection => exact ⟨rejection, bind_error hupdate _⟩
  | ok found =>
      obtain ⟨found, d⟩ := found
      have hfound : found ≠ none := by
        rintro rfl
        exact update?_ne_none hkind hupdates hupdate
      exact ⟨_, (bind_run hupdate _).trans (assigned_error hfound htarget)⟩

end Untargeted

/-- `null =` -/
def nullTarget : List Token :=
  [.ofKind (.keyword .null), .ofKind (.symbol .assign)]

theorem parse_nullTarget (more : List Token) : ∃ e, parse (nullTarget ++ more) = .error e := by
  have hstops : Cursor.Stops ⟨some 0, .ofKind (.symbol .assign) :: more⟩ 2 := by
    intro token htoken
    cases htoken
    exact .inl (by decide)
  have hvalue : value (nested 63) false (.start (nullTarget ++ more)) =
      .ok (.null, ⟨some 0, .ofKind (.symbol .assign) :: more⟩) := rfl
  have hunary := unary_of_access plain_null rfl (access_of_value hvalue (hstops.mono (by decide)))
  obtain ⟨rejection, hrun⟩ :=
    expr_untargeted plain_null (or_of_unary hunary hstops) rfl rfl (by decide)
  refine ⟨_, parse_of_expr_error hrun ?_⟩
  cases hcommitted : rejection.committed with
  | true => rfl
  | false => cases absent_of_expr hrun hcommitted (.keyword .null) rfl

/-- `for a, b of` -/
def twoNames : List Token :=
  wordsOn 0 [(.keyword .for, none), (.identifier, some "a"), (.symbol .comma, none),
    (.identifier, some "b"), (.keyword .of, none)]

theorem parse_twoNames (more : List Token) : parse (twoNames ++ more) =
    .error (.ofRejection ((Rejection.noMatch (more.head?.map (·.span))).because .forSingle)) :=
  parse_of_expr_error rfl rfl

/-- As many parentheses as there are levels of nesting. -/
def deepParens : List Token :=
  List.replicate maxDepth (.ofKind (.symbol .leftParen))

theorem parse_deepParens (more : List Token) : parse (deepParens ++ more) =
    .error (.ofRejection ((Rejection.noMatch (more.head?.map (·.span))).final.because
      (.nestedTooDeeply .expression))) :=
  parse_of_expr_error (expr_parens 0 (fun _ _ => rfl) ⟨rfl, rfl⟩ maxDepth false none) rfl

/-- A loop on the last level of nesting, where its block has no room. -/
def deepLoop : List Token :=
  List.replicate 63 (.ofKind (.symbol .leftParen)) ++ [.ofKind (.keyword .loop)]

theorem parse_deepLoop {more : List Token}
    (h : block (nested 0) .loop ⟨some 0, more⟩ = .error rejection) (hfatal : rejection.Fatal) :
    parse (deepLoop ++ more) = .error (.ofRejection rejection) := by
  have hloop : ∀ required line, (nested 1).expr required ⟨line, .ofKind (.keyword .loop) :: more⟩ =
      .error rejection := by
    intro required line
    have hbody : (block (nested 0) .loop >>= fun body => pure (some (Control.loop body)))
        ⟨some 0, more⟩ = .error rejection := bind_error h _
    have hcontrol : control? (nested 0) ⟨line, .ofKind (.keyword .loop) :: more⟩ = .error rejection :=
      hbody
    have hnext : NextIs (.keyword .loop) ⟨line, .ofKind (.keyword .loop) :: more⟩ := rfl
    change expr (nested 0) required _ = _
    rw [expr_eq, bind_run (accept_other (hnext.ne (by decide))), if_neg (by decide),
      bind_error hcontrol]
  have hparens := expr_parens 1 hloop hfatal 63 false none
  refine parse_of_expr_error ?_ hfatal.1
  rw [deepLoop, List.append_assoc]
  exact hparens

/-- A block fails where no level of nesting is left. -/
theorem block_full (construct : Construct) (c : Cursor) :
    ∃ rejection, block (nested 0) construct c = .error rejection ∧ rejection.Fatal := by
  by_cases hnext : NextIs (.symbol .leftBrace) c
  · have hitem : optional ((nested 0).expr false) c.advance = .error ((Rejection.noMatch
        (c.advance.rest.head?.map (·.span))).final.because (.nestedTooDeeply .expression)) := rfl
    have hbody : statements (nested 0) c.advance = _ := manyWithin_error hitem c.advance.rest
    have hblock : block (nested 0) construct c = _ :=
      (bind_run (hnext.expect _) _).trans (bind_error hbody _)
    exact ⟨_, hblock, rfl, rfl⟩
  · have hblock : block (nested 0) construct c = _ := bind_error (expect_other hnext _) _
    exact ⟨_, hblock, rfl, rfl⟩

theorem hopeless_nullTarget : Hopeless nullTarget := by
  refine ⟨⟨some .assignValue, rfl⟩, fun more program hok => ?_⟩
  obtain ⟨e, herror⟩ := parse_nullTarget more
  cases herror.symm.trans hok

theorem hopeless_twoNames : Hopeless twoNames := by
  refine ⟨⟨some .forSingle, rfl⟩, fun more program hok => ?_⟩
  cases (parse_twoNames more).symm.trans hok

theorem hopeless_deepParens : Hopeless deepParens := by
  refine ⟨⟨some (.nestedTooDeeply .expression), ?_⟩, fun more program hok => ?_⟩
  · have hend := parse_deepParens []
    rw [List.append_nil] at hend
    exact hend
  · cases (parse_deepParens more).symm.trans hok

theorem hopeless_deepLoop : Hopeless deepLoop := by
  refine ⟨⟨some (.blockOpen .loop), ?_⟩, fun more program hok => ?_⟩
  · have hend : parse (deepLoop ++ []) = _ := parse_deepLoop rfl ⟨rfl, rfl⟩
    rw [List.append_nil] at hend
    exact hend
  · obtain ⟨rejection, hblock, hfatal⟩ := block_full .loop ⟨some 0, more⟩
    cases (parse_deepLoop hblock hfatal).symm.trans hok

/-- Without a target, with two names, or without a level of nesting left, nothing completes the
input. -/
theorem incomplete_without_completion : Hopeless nullTarget ∧ Hopeless twoNames ∧
    Hopeless deepParens ∧ Hopeless deepLoop :=
  ⟨hopeless_nullTarget, hopeless_twoNames, hopeless_deepParens, hopeless_deepLoop⟩

end TableScript
