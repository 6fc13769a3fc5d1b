import TableScript.Proofs.Foresight

/-!
What becomes of a rule that fails at the end of the input. More tokens let it match, unless what is
missing would be nested too deeply, an assignment before the end has no target, or a loop over numbers
has two names.
-/

namespace TableScript

/-- A token of the given kind, as an example. -/
def Token.ofKind (kind : Kind) : Token :=
  { kind, text := if kind = .identifier then some "x" else none, span := default }

/-- The tokens that a complaint asks for, up to where an expression or a block's statements begin.
Where these have begun already it asks for none. -/
def Complaint.asks : Complaint → List Token
  | .globalName => [.ofKind .identifier, .ofKind (.symbol .assign)]
  | .globalAssign => [.ofKind (.symbol .assign)]
  | .forName | .forKey => [.ofKind .identifier, .ofKind (.keyword .in)]
  | .forKeyword => [.ofKind (.keyword .in)]
  | .funcOpen =>
    [.ofKind (.symbol .leftParen), .ofKind (.symbol .rightParen), .ofKind (.symbol .leftBrace)]
  | .funcParam =>
    [.ofKind .identifier, .ofKind (.symbol .rightParen), .ofKind (.symbol .leftBrace)]
  | .funcClose => [.ofKind (.symbol .rightParen), .ofKind (.symbol .leftBrace)]
  | .blockOpen _ => [.ofKind (.symbol .leftBrace)]
  | .tableColon => [.ofKind (.symbol .colon)]
  | _ => []

/-- The signs that assign a value to the expression before them. -/
def Kind.assigns : Kind → Bool
  | .symbol .assign | .symbol .addAssign | .symbol .subAssign => true
  | _ => false

namespace Rejection

/-- The limit of nesting is reached at the end of the input. -/
def deep (construct : Construct) : Rejection :=
  (noMatch none).final.because (.nestedTooDeeply construct)

/-- The expression at a place is no target. -/
def untargeted (span : Span) : Rejection :=
  (noMatch (some span)).final.because .assignTarget

/-- A failure for good whose reason is settled. -/
def Fatal (r : Rejection) : Prop :=
  r.committed = true ∧ r.complaint.isSome = true

theorem Fatal.because {r : Rejection} (h : r.Fatal) (complaint : Complaint) :
    r.because complaint = r := by
  obtain ⟨inner, hinner⟩ := Option.isSome_iff_exists.1 h.2
  rw [Rejection.because, hinner, Option.some_or, ← hinner, ← h.1]

end Rejection

namespace Rule

variable {α β : Type}

/-- The next token is of the given kind. -/
abbrev NextIs (kind : Kind) (c : Cursor) : Prop :=
  c.rest.head?.map (·.kind) = some kind

theorem NextIs.accept {kind : Kind} {c : Cursor} (h : NextIs kind c) :
    Rule.accept kind c = .ok (true, c.advance) := by
  rw [Rule.accept, peekKind_run, if_pos h]
  rfl

theorem NextIs.ne {kind kind' : Kind} {c : Cursor} (h : NextIs kind c) (hne : kind ≠ kind') :
    ¬NextIs kind' c :=
  fun h' => hne (Option.some.inj (h.symm.trans h'))

theorem NextIs.ne_nil {kind : Kind} {c : Cursor} (h : NextIs kind c) : c.rest ≠ [] := by
  intro hnil
  rw [NextIs, hnil] at h
  cases h

theorem NextIs.expect {kind : Kind} {c : Cursor} (h : NextIs kind c) (complaint : Complaint) :
    Rule.expect kind complaint c = .ok ((), c.advance) := by
  rw [Rule.expect, bind_run h.accept]
  rfl

theorem expect_other {kind : Kind} {c : Cursor} (h : ¬NextIs kind c) (complaint : Complaint) :
    Rule.expect kind complaint c =
      .error ((Rejection.noMatch (c.rest.head?.map (·.span))).because complaint) := by
  rw [Rule.expect, bind_run (accept_other h)]
  rfl

/-- More tokens let a rule match. `Good` holds of its result, `Ends` says where it ends then, and where
no tokens are left `Opens` holds of those that come. -/
def Resumes (rule : Rule α) (Good : α → Prop) (Ends : α → Cursor → Prop) (Opens : Cursor → Prop)
    (c : Cursor) : Prop :=
  ∃ more x line, Good x ∧ ∀ rest, Ends x ⟨line, rest⟩ →
    rule ⟨c.line, c.rest ++ (more ++ rest)⟩ = .ok (x, ⟨line, rest⟩) ∧
      (c.rest = [] → Opens ⟨c.line, more ++ rest⟩)

/-- What keeps a rule from matching once it has failed at the end of the input: an assignment whose
target is none even if `null` is assigned, the limit of nesting behind the tokens that are asked for,
or the second name of a loop over numbers. -/
inductive Stuck (rule : Rule α) (Opens : Cursor → Prop) (c : Cursor) (rejection : Rejection) :
    Prop where
  | target (before after : List Token) (sign : Token) (span : Span)
      (hrest : c.rest = before ++ sign :: after) (hsign : sign.kind.assigns = true)
      (hrun : rule ⟨c.line, before ++ [sign, .ofKind (.keyword .null)]⟩ =
        .error (.untargeted span)) : Stuck rule Opens c rejection
  | nesting (complaint : Complaint) (construct : Construct)
      (hcomplaint : rejection.complaint = some complaint)
      (hopens : c.rest = [] → complaint.asks ≠ [] → Opens ⟨c.line, complaint.asks⟩)
      (hrun : rule ⟨c.line, c.rest ++ complaint.asks⟩ = .error (.deep construct)) :
      Stuck rule Opens c rejection
  | names (hcomplaint : rejection.complaint = some .forSingle) : Stuck rule Opens c rejection

/-- After a failure at the end of the input a rule resumes or is stuck. -/
def Completes (rule : Rule α) (Good : α → Prop) (Ends : α → Cursor → Prop) (Opens : Cursor → Prop)
    (c : Cursor) : Prop :=
  ∀ rejection, rule c = .error rejection → rejection.span = none →
    rule.Resumes Good Ends Opens c ∨ rule.Stuck Opens c rejection

/-- A rule that some tokens let match where none are left. -/
def Begins (rule : Rule α) (Good : α → Prop) (Ends : α → Cursor → Prop) (Opens : Cursor → Prop) :
    Prop :=
  ∀ line, rule.Resumes Good Ends Opens ⟨line, []⟩

variable {rule : Rule α} {next : α → Rule β} {c c' : Cursor} {x : α} {Moves Good Good' : α → Prop}
  {Ends Ends' : α → Cursor → Prop} {Opens Opens' : Cursor → Prop} {G : β → Prop}
  {E : β → Cursor → Prop} {rejection : Rejection}

theorem head?_cut {before after : List Token} {sign : Token} (h : c.rest = before ++ sign :: after)
    (more : List Token) :
    (before ++ sign :: more).head? = c.rest.head? := by
  rw [h]
  cases before <;> rfl

/-! ### One rule after another -/

theorem Settles.run_append (h : rule.Settles Moves Ends c) (hrun : rule c = .ok (x, c'))
    {tokens : List Token} (hends : c'.rest = [] → tokens ≠ [] → Ends x ⟨c'.line, tokens⟩) :
    rule ⟨c.line, c.rest ++ tokens⟩ = .ok (x, ⟨c'.line, c'.rest ++ tokens⟩) := by
  obtain ⟨used, hpasses, -, hrest⟩ := h x c' hrun
  rw [hpasses.rest, List.append_assoc]
  refine hrest _ ?_
  by_cases hnil : c'.rest = []
  · by_cases htokens : tokens = []
    · rw [htokens, List.append_nil]
      exact .inl rfl
    · rw [hnil]
      exact .inr (hends hnil htokens)
  · exact .inl (List.head?_append_of_ne_nil _ hnil)

theorem Resumes.bind (h : rule.Resumes Good Ends Opens c)
    (hnext : ∀ x, Good x → (next x).Begins G E (Ends x)) : (rule >>= next).Resumes G E Opens c := by
  obtain ⟨more, x, line, hgood, hrun⟩ := h
  obtain ⟨more', y, line', hy, hrun'⟩ := hnext x hgood line
  refine ⟨more ++ more', y, line', hy, fun rest hends => ?_⟩
  obtain ⟨hlast, hseam⟩ := hrun' rest hends
  obtain ⟨hfirst, hopens⟩ := hrun (more' ++ rest) (hseam rfl)
  rw [List.append_assoc more]
  exact ⟨(bind_run hfirst next).trans hlast, hopens⟩

/-- What holds of a rule that is stuck holds of another one that fails for good wherever it does, at
the next token that is here. -/
theorem Stuck.imp {rule' : Rule β} {rejection' : Rejection} (h : rule.Stuck Opens c rejection)
    (hcomplaint : ∀ complaint, rejection.complaint = some complaint →
      rejection'.complaint = some complaint)
    (hrun : ∀ rest r, (c.rest ≠ [] → rest.head? = c.rest.head?) → r.Fatal →
      rule ⟨c.line, rest⟩ = .error r → rule' ⟨c.line, rest⟩ = .error r)
    (hopens : c.rest = [] → ∀ d, Opens d → Opens' d) : rule'.Stuck Opens' c rejection' := by
  cases h with
  | target before after sign span hrest hsign hfails =>
      refine .target before after sign span hrest hsign (hrun _ _ ?_ ⟨rfl, rfl⟩ hfails)
      exact fun _ => head?_cut hrest _
  | nesting complaint construct hthis hthese hfails =>
      refine .nesting complaint construct (hcomplaint _ hthis) ?_ (hrun _ _ ?_ ⟨rfl, rfl⟩ hfails)
      · exact fun hnil hasks => hopens hnil _ (hthese hnil hasks)
      · exact fun hne => List.head?_append_of_ne_nil _ hne
  | names hthis => exact .names (hcomplaint _ hthis)

theorem Stuck.bind (h : rule.Stuck Opens c rejection) : (rule >>= next).Stuck Opens c rejection :=
  h.imp (fun _ => id) (fun _ _ _ _ hrun => bind_error hrun next) fun _ _ => id

/-- What has matched before stays as it is. -/
theorem Resumes.behind (hrule : rule.Settles Moves Ends c) (hrun : rule c = .ok (x, c'))
    (h : (next x).Resumes G E (Ends x) c') (hopens : c.rest = [] → ∀ d, Ends x d → Opens d) :
    (rule >>= next).Resumes G E Opens c := by
  obtain ⟨more, y, line, hy, hnext⟩ := h
  refine ⟨more, y, line, hy, fun rest hends => ?_⟩
  obtain ⟨hlast, hseam⟩ := hnext rest hends
  have hfirst := hrule.run_append hrun fun hnil _ => hseam hnil
  refine ⟨(bind_run hfirst next).trans hlast, fun hnil => hopens hnil _ ?_⟩
  obtain ⟨used, hpasses, -, -⟩ := hrule x c' hrun
  obtain ⟨rfl, hnil'⟩ := List.append_eq_nil_iff.1 (hpasses.rest.symm.trans hnil)
  cases hpasses.eq_of_nil
  exact hseam hnil'

theorem Stuck.behind (hrule : rule.Settles Moves Ends c) (hrun : rule c = .ok (x, c'))
    (h : (next x).Stuck (Ends x) c' rejection) (hopens : c.rest = [] → ∀ d, Ends x d → Opens d) :
    (rule >>= next).Stuck Opens c rejection := by
  obtain ⟨used, hpasses, -, hrest'⟩ := hrule x c' hrun
  cases h with
  | target before after sign span hrest hsign hlast =>
      have hfirst := hrest' _ (.inl (head?_cut hrest [.ofKind (.keyword .null)]))
      refine .target (used ++ before) after sign span ?_ hsign ?_
      · rw [hpasses.rest, hrest, List.append_assoc]
      · rw [List.append_assoc]
        exact (bind_run hfirst next).trans hlast
  | nesting complaint construct hcomplaint hseam hlast =>
      have hfirst := hrule.run_append hrun hseam
      refine .nesting complaint construct hcomplaint (fun hnil hasks => hopens hnil _ ?_)
        ((bind_run hfirst next).trans hlast)
      obtain ⟨rfl, hnil'⟩ := List.append_eq_nil_iff.1 (hpasses.rest.symm.trans hnil)
      cases hpasses.eq_of_nil
      exact hseam hnil' hasks
  | names hcomplaint => exact .names hcomplaint

/-- Where a rule has failed already, and where the rule after it fails. -/
theorem Completes.of_parts (hrule : rule.Settles Moves Ends c)
    (hfails : ∀ rejection, rule c = .error rejection → rejection.span = none →
      (rule >>= next).Resumes G E Opens c ∨ (rule >>= next).Stuck Opens c rejection)
    (hnext : ∀ x c', rule c = .ok (x, c') → (next x).Completes G E (Ends x) c')
    (hopens : ∀ x c', rule c = .ok (x, c') → c.rest = [] → ∀ d, Ends x d → Opens d) :
    (rule >>= next).Completes G E Opens c := by
  intro rejection hrun hspan
  cases hfirst : rule c with
  | error found =>
      rw [bind_error hfirst] at hrun
      cases hrun
      exact hfails _ hfirst hspan
  | ok found =>
      obtain ⟨x, c'⟩ := found
      rw [bind_run hfirst] at hrun
      rcases hnext x c' hfirst rejection hrun hspan with hresumes | hstuck
      · exact .inl (.behind hrule hfirst hresumes (hopens x c' hfirst))
      · exact .inr (.behind hrule hfirst hstuck (hopens x c' hfirst))

theorem Completes.bind_opens (hsettles : rule.Settles Moves Ends c)
    (hrule : rule.Completes Good Ends Opens c)
    (hnext : ∀ x c', rule c = .ok (x, c') → (next x).Completes G E (Ends x) c')
    (hbegins : ∀ x, Good x → (next x).Begins G E (Ends x))
    (hopens : ∀ x c', rule c = .ok (x, c') → c.rest = [] → ∀ d, Ends x d → Opens d) :
    (rule >>= next).Completes G E Opens c := by
  refine .of_parts hsettles (fun rejection hrun hspan => ?_) hnext hopens
  rcases hrule rejection hrun hspan with hresumes | hstuck
  · exact .inl (hresumes.bind hbegins)
  · exact .inr hstuck.bind

theorem Completes.bind (hsettles : rule.Settles Moves Ends c)
    (hrule : rule.Completes Good Ends (fun _ => True) c)
    (hnext : ∀ x c', rule c = .ok (x, c') → (next x).Completes G E (Ends x) c')
    (hbegins : ∀ x, Good x → (next x).Begins G E (Ends x)) :
    (rule >>= next).Completes G E (fun _ => True) c :=
  .bind_opens hsettles hrule hnext hbegins fun _ _ _ _ _ _ => trivial

namespace Completes

/-- A rule that does, at the next token that is here, what another one does, up to its result. -/
theorem imp {rule' : Rule β} {f : α → β} {O : Cursor → Prop} (h : rule.Completes Good Ends Opens c)
    (hfails : ∀ r', rule' c = .error r' → ∃ r, rule c = .error r ∧ r.span = r'.span ∧
      ∀ complaint, r.complaint = some complaint → r'.complaint = some complaint)
    (hok : ∀ rest x d, (c.rest ≠ [] → rest.head? = c.rest.head?) →
      rule ⟨c.line, rest⟩ = .ok (x, d) → rule' ⟨c.line, rest⟩ = .ok (f x, d))
    (hfatal : ∀ rest r, (c.rest ≠ [] → rest.head? = c.rest.head?) → r.Fatal →
      rule ⟨c.line, rest⟩ = .error r → rule' ⟨c.line, rest⟩ = .error r)
    (hgood : ∀ x, Good x → G (f x)) (hends : ∀ x d, E (f x) d → Ends x d)
    (hopens : c.rest = [] → ∀ d, Opens d → O d) : rule'.Completes G E O c := by
  intro r' hrun' hspan
  obtain ⟨r, hrun, hsame, hcomplaint⟩ := hfails r' hrun'
  rcases h r hrun (hsame.trans hspan) with ⟨more, x, line, hx, hresumes⟩ | hstuck
  · refine .inl ⟨more, f x, line, hgood x hx, fun rest hrest => ?_⟩
    obtain ⟨hmatch, hthese⟩ := hresumes rest (hends x _ hrest)
    refine ⟨hok _ _ _ (fun hne => List.head?_append_of_ne_nil _ hne) hmatch, ?_⟩
    exact fun hnil => hopens hnil _ (hthese hnil)
  · exact .inr (hstuck.imp hcomplaint hfatal hopens)

theorem mono (h : rule.Completes Good Ends Opens c) (hgood : ∀ x, Good x → Good' x)
    (hends : ∀ x d, Ends' x d → Ends x d) (hopens : c.rest = [] → ∀ d, Opens d → Opens' d) :
    rule.Completes Good' Ends' Opens' c :=
  h.imp (f := id) (fun r hrun => ⟨r, hrun, rfl, fun _ => id⟩) (fun _ _ _ _ => id) (fun _ _ _ _ => id)
    hgood hends hopens

theorem opens (h : rule.Completes Good Ends Opens c) (hopens : ∀ d, Opens d → Opens' d) :
    rule.Completes Good Ends Opens' c :=
  h.mono (fun _ => id) (fun _ _ => id) fun _ => hopens

theorem anywhere (h : rule.Completes Good Ends Opens c) : rule.Completes Good Ends (fun _ => True) c :=
  h.opens fun _ _ => trivial

/-- Where tokens are left, nothing is asked of those that come. -/
theorem of_ne_nil (hne : c.rest ≠ []) (h : rule.Completes Good Ends Opens c) :
    rule.Completes Good Ends Opens' c :=
  h.mono (fun _ => id) (fun _ _ => id) fun hnil => absurd hnil hne

theorem of_span (h : ∀ rejection, rule c = .error rejection → rejection.span ≠ none) :
    rule.Completes Good Ends Opens c :=
  fun rejection hrun hspan => absurd hspan (h rejection hrun)

theorem of_begins (hnil : c.rest = []) (h : rule.Begins Good Ends Opens) :
    rule.Completes Good Ends Opens c := by
  intro rejection _ _
  have hresumes := h c.line
  rw [← hnil] at hresumes
  exact .inl hresumes

theorem of_ok (h : rule c = .ok (x, c')) : rule.Completes Good Ends Opens c :=
  of_span fun _ hrun => by cases h.symm.trans hrun

theorem pure (x : α) : (Pure.pure x : Rule α).Completes Good Ends Opens c :=
  of_ok rfl

theorem reject (hne : c.rest ≠ []) {complaint : Complaint} :
    (Rule.reject complaint : Rule α).Completes Good Ends Opens c := by
  refine of_span fun rejection hrun hspan => hne ?_
  cases hrun
  exact List.head?_eq_none_iff.1 (Option.map_eq_none_iff.1 hspan)

theorem noMatch (hne : c.rest ≠ []) {required : Bool} :
    (Rule.noMatch required : Rule α).Completes Good Ends Opens c := by
  refine of_span fun rejection hrun hspan => hne ?_
  cases hrun
  exact List.head?_eq_none_iff.1 (Option.map_eq_none_iff.1 hspan)

/-- The limit of nesting asks for nothing. -/
theorem of_tooDeep {construct : Construct}
    (h : rule c = .error ((Rejection.noMatch (c.rest.head?.map (·.span))).final.because
      (.nestedTooDeeply construct))) : rule.Completes Good Ends Opens c := by
  intro rejection hrun hspan
  cases h.symm.trans hrun
  have hspan : c.rest.head?.map (·.span) = none := hspan
  refine .inr (.nesting (.nestedTooDeeply construct) construct rfl
    (fun _ hasks => absurd rfl hasks) ?_)
  have hasks : (Complaint.nestedTooDeeply construct).asks = [] := rfl
  rw [hasks, List.append_nil]
  rw [hspan] at h
  exact h

/-- A rule that is another one wherever the next token is the one here. -/
theorem congr {rule' : Rule α} (hne : c.rest ≠ []) (h : rule'.Completes Good Ends Opens c)
    (heq : ∀ rest, rest.head? = c.rest.head? → rule ⟨c.line, rest⟩ = rule' ⟨c.line, rest⟩) :
    rule.Completes Good Ends Opens c := by
  refine h.imp (f := id) (fun r hrun => ⟨r, ?_, rfl, fun _ => id⟩) (fun rest _ _ hhead hrun => ?_)
    (fun rest _ hhead _ hrun => ?_) (fun _ => id) (fun _ _ => id) fun hnil => absurd hnil hne
  · exact (heq c.rest rfl).symm.trans hrun
  · exact (heq rest (hhead hne)).trans hrun
  · exact (heq rest (hhead hne)).trans hrun

theorem peek {next : Option Token → Rule β} (hne : c.rest ≠ [])
    (h : (next c.rest.head?).Completes G E Opens c) : (Rule.peek >>= next).Completes G E Opens c :=
  h.congr hne fun rest hhead => by rw [peek_run, hhead]

theorem peekKind {next : Option Kind → Rule β} (hne : c.rest ≠ [])
    (h : (next (c.rest.head?.map (·.kind))).Completes G E Opens c) :
    (Rule.peekKind >>= next).Completes G E Opens c :=
  h.congr hne fun rest hhead => by rw [peekKind_run, hhead]

theorem peekSpan {next : Option Span → Rule β} (hne : c.rest ≠ [])
    (h : (next (c.rest.head?.map (·.span))).Completes G E Opens c) :
    (Rule.peekSpan >>= next).Completes G E Opens c :=
  h.congr hne fun rest hhead => by rw [peekSpan_run, hhead]

theorem andReturn {f : α → β} (h : rule.Completes Good Ends Opens c) (hgood : ∀ x, Good x → G (f x))
    (hends : ∀ x d, E (f x) d → Ends x d) :
    (rule >>= fun x => Pure.pure (f x)).Completes G E Opens c := by
  refine h.imp (fun r hrun => ?_) (fun _ _ _ _ hrun => bind_run hrun _)
    (fun _ _ _ _ hrun => bind_error hrun _) hgood hends fun _ _ => id
  cases hfirst : rule c with
  | ok found =>
      rw [bind_run hfirst] at hrun
      cases hrun
  | error found =>
      rw [bind_error hfirst] at hrun
      cases hrun
      exact ⟨r, rfl, rfl, fun _ => id⟩

theorem map {S : Cursor → Prop} (h : rule.Completes (fun _ => True) (fun _ => S) Opens c) (f : α → β) :
    (rule >>= fun x => Pure.pure (f x)).Completes (fun _ => True) (fun _ => S) Opens c :=
  h.andReturn (fun _ _ => trivial) fun _ _ => id

theorem advanceOf {kind : Kind} {next : Unit → Rule β}
    (hkind : c.rest.head?.map (·.kind) = some kind)
    (hnext : (next ()).Completes G E (fun _ => True) c.advance) :
    (Rule.advance >>= next).Completes G E Opens c := by
  obtain ⟨token, hhead, -⟩ := Option.map_eq_some_iff.1 hkind
  have hadvance : (Rule.advance >>= next).Completes G E (fun _ => True) c := by
    refine .of_parts (Foresees.advance hhead).matched (fun _ hrun => by cases hrun) ?_
      fun _ _ _ _ _ _ => trivial
    intro _ c' hrun
    cases hrun
    exact hnext
  exact of_ne_nil (NextIs.ne_nil hkind) hadvance

theorem ite {p : Prop} [Decidable p] {yes no : Rule α} (hyes : p → yes.Completes Good Ends Opens c)
    (hno : ¬p → no.Completes Good Ends Opens c) :
    (if p then yes else no).Completes Good Ends Opens c := by
  by_cases hp : p
  · rw [if_pos hp]
    exact hyes hp
  · rw [if_neg hp]
    exact hno hp

theorem because (h : rule.Completes Good Ends Opens c) (complaint : Complaint) :
    (Rule.because complaint rule).Completes Good Ends Opens c := by
  have herror : ∀ {d r}, rule d = .error r →
      Rule.because complaint rule d = .error (r.because complaint) := by
    intro d r hd
    rw [Rule.because, hd]
  refine h.imp (f := id) (fun r hrun => ?_) (fun _ _ _ _ hrun => because_run hrun complaint)
    (fun _ r _ hr hrun => by rw [herror hrun, hr.because]) (fun _ => id) (fun _ _ => id) fun _ _ => id
  cases hfirst : rule c with
  | ok found =>
      rw [because_run hfirst] at hrun
      cases hrun
  | error found =>
      rw [herror hfirst] at hrun
      cases hrun
      refine ⟨found, rfl, rfl, fun inner hinner => ?_⟩
      rw [Rejection.because, hinner, Option.some_or]

theorem optional {Nothing : Cursor → Prop} (h : rule.Completes Good Ends Opens c) :
    (Rule.optional rule).Completes (fun found => ∃ x, found = some x ∧ Good x)
      (EndsWith Ends Nothing) Opens c := by
  refine h.imp (fun r hrun => ?_) (fun _ _ _ _ hrun => optional_run hrun)
    (fun _ _ _ hr hrun => optional_committed hrun hr.1) (fun x hx => ⟨x, rfl, hx⟩) (fun _ _ => id)
    fun _ _ => id
  cases hfirst : rule c with
  | ok found =>
      rw [optional_run hfirst] at hrun
      cases hrun
  | error found =>
      cases hcommitted : found.committed with
      | false =>
          rw [optional_absent hfirst hcommitted] at hrun
          cases hrun
      | true =>
          rw [optional_committed hfirst hcommitted] at hrun
          cases hrun
          exact ⟨r, rfl, rfl, fun _ => id⟩

theorem accept_bind {kind : Kind} {next : Bool → Rule β} (hne : c.rest ≠ [])
    (htrue : NextIs kind c → (next true).Completes G E (fun _ => True) c.advance)
    (hfalse : ¬NextIs kind c → (next false).Completes G E Opens c) :
    (Rule.accept kind >>= next).Completes G E Opens c := by
  by_cases hnext : NextIs kind c
  · have hadvance : (Rule.advance >>= fun _ => next true).Completes G E Opens c :=
      advanceOf hnext (htrue hnext)
    refine hadvance.congr hne fun rest hhead => ?_
    have hsame : NextIs kind ⟨c.line, rest⟩ := by
      rw [NextIs, hhead]
      exact hnext
    rw [bind_run hsame.accept]
    rfl
  · refine (hfalse hnext).congr hne fun rest hhead => ?_
    have hsame : ¬NextIs kind ⟨c.line, rest⟩ := by
      rw [NextIs, hhead]
      exact hnext
    rw [bind_run (accept_other hsame)]

theorem after_bind {kind : Kind} {next : Option α → Rule β}
    (hforesees : ∀ c, rule.Foresees Moves Ends c)
    (hthere : NextIs kind c →
      (rule >>= fun x => next (some x)).Completes G E (fun _ => True) c.advance)
    (hopens : ∀ d, Opens d → ¬NextIs kind d) (hnone : (next none).Completes G E Opens c) :
    (Rule.after kind rule >>= next).Completes G E Opens c := by
  by_cases hnext : NextIs kind c
  · have hadvance : (Rule.advance >>= fun _ => rule >>= fun x => next (some x)).Completes G E
        Opens c := advanceOf hnext (hthere hnext)
    refine hadvance.congr hnext.ne_nil fun rest hhead => ?_
    have hsame : NextIs kind ⟨c.line, rest⟩ := by
      rw [NextIs, hhead]
      exact hnext
    rw [Rule.after, bind_assoc, bind_run hsame.accept, if_pos rfl, bind_assoc]
    simp only [pure_bind]
    rfl
  · have hafter : (Rule.after kind rule).Foresees (·.isSome)
        (EndsWith (fun _ _ => False) Opens) c := by
      refine (Foresees.after hforesees).mono (fun _ => id) fun found d hd => ?_
      cases found with
      | some x => exact hd.elim
      | none => exact hopens d hd
    have hrun : Rule.after kind rule c = .ok (none, c) := after_other hnext
    refine .of_parts hafter.matched (fun _ hfails => ?_) (fun found c' hfound => ?_)
      fun found c' hfound _ => ?_
    · cases hrun.symm.trans hfails
    · cases hrun.symm.trans hfound
      exact hnone
    · cases hrun.symm.trans hfound
      exact fun _ => id

theorem after {kind : Kind} (hforesees : ∀ c, rule.Foresees Moves Ends c)
    (h : ∀ c, rule.Completes Good Ends (fun _ => True) c) :
    (Rule.after kind rule).Completes (fun found => ∃ x, found = some x ∧ Good x)
      (EndsWith Ends fun d => ¬NextIs kind d) Opens c := by
  by_cases hnil : c.rest = []
  · refine of_ok (after_other ?_)
    rw [hnil]
    exact (Option.some_ne_none kind).symm
  · have hafter : (Rule.after kind rule >>= Pure.pure).Completes (fun found => ∃ x, found = some x ∧ Good x)
        (EndsWith Ends fun d => ¬NextIs kind d) (fun _ => True) c := by
      refine of_ne_nil hnil (after_bind hforesees (fun _ => (h _).andReturn ?_ fun _ _ => id)
        (fun _ => id) (.pure none))
      exact fun x hx => ⟨x, rfl, hx⟩
    rw [bind_pure] at hafter
    exact of_ne_nil hnil hafter

end Completes

/-! ### Rules from nothing -/

namespace Begins

/-- Where the rule stops that finds nothing, the next one may begin. -/
theorem skip (hrun : ∀ d, Opens d → rule d = .ok (x, d)) (h : (next x).Begins G E Opens) :
    (rule >>= next).Begins G E Opens := by
  intro line
  obtain ⟨more, y, line', hy, hresumes⟩ := h line
  refine ⟨more, y, line', hy, fun rest hrest => ?_⟩
  obtain ⟨hlast, hopens⟩ := hresumes rest hrest
  exact ⟨(bind_run (hrun _ (hopens rfl)) next).trans hlast, hopens⟩

theorem step {token : Token} (hrun : ∀ line rest, rule ⟨line, token :: rest⟩ = .ok (x, ⟨some 0, rest⟩))
    (h : (next x).Begins G E fun _ => True) (hopens : ∀ line rest, Opens ⟨line, token :: rest⟩) :
    (rule >>= next).Begins G E Opens := by
  intro line
  obtain ⟨more, y, line', hy, hresumes⟩ := h (some 0)
  refine ⟨token :: more, y, line', hy, fun rest hrest => ⟨?_, fun _ => hopens line _⟩⟩
  exact (bind_run (hrun line _) next).trans (hresumes rest hrest).1

theorem bind (h : rule.Begins Good Ends Opens) (hnext : ∀ x, Good x → (next x).Begins G E (Ends x)) :
    (rule >>= next).Begins G E Opens :=
  fun line => (h line).bind hnext

theorem pure {x : α} (h : Good x) : (Pure.pure x : Rule α).Begins Good Ends (Ends x) :=
  fun line => ⟨[], x, line, h, fun _ hrest => ⟨rfl, fun _ => hrest⟩⟩

theorem because (h : rule.Begins Good Ends Opens) (complaint : Complaint) :
    (Rule.because complaint rule).Begins Good Ends Opens := by
  intro line
  obtain ⟨more, x, line', hx, hresumes⟩ := h line
  refine ⟨more, x, line', hx, fun rest hrest => ?_⟩
  exact (hresumes rest hrest).imp_left fun h => because_run h complaint

theorem mono (h : rule.Begins Good Ends Opens) (hopens : ∀ d, Opens d → Opens' d) :
    rule.Begins Good Ends Opens' := by
  intro line
  obtain ⟨more, x, line', hx, hresumes⟩ := h line
  refine ⟨more, x, line', hx, fun rest hrest => ?_⟩
  exact (hresumes rest hrest).imp_right fun h hnil => hopens _ (h hnil)

end Begins

/-- Some tokens let a rule match where none are left, or else it is nested too deeply behind `ask`. -/
def Heads (rule : Rule α) (ask : List Token) (Good : α → Prop) (Ends : α → Cursor → Prop)
    (Opens : Cursor → Prop) : Prop :=
  rule.Begins Good Ends Opens ∨ ∀ line, (ask ≠ [] → Opens ⟨line, ask⟩) ∧
    ∃ construct, rule ⟨line, ask⟩ = .error (.deep construct)

namespace Heads

variable {ask : List Token}

theorem skip (hrun : ∀ d, Opens d → rule d = .ok (x, d)) (h : (next x).Heads ask G E Opens)
    (hask : ask ≠ []) : (rule >>= next).Heads ask G E Opens := by
  refine h.imp (Begins.skip hrun) fun hdeep line => ?_
  obtain ⟨hopens, construct, hfails⟩ := hdeep line
  exact ⟨hopens, construct, (bind_run (hrun _ (hopens hask)) next).trans hfails⟩

theorem step {token : Token} (hrun : ∀ line rest, rule ⟨line, token :: rest⟩ = .ok (x, ⟨some 0, rest⟩))
    (h : (next x).Heads ask G E fun _ => True) (hopens : ∀ line rest, Opens ⟨line, token :: rest⟩) :
    (rule >>= next).Heads (token :: ask) G E Opens := by
  refine h.imp (fun hbegins => hbegins.step hrun hopens) fun hdeep line =>
    ⟨fun _ => hopens line ask, ?_⟩
  obtain ⟨-, construct, hfails⟩ := hdeep (some 0)
  exact ⟨construct, (bind_run (hrun line ask) next).trans hfails⟩

theorem bind (h : rule.Heads ask Good Ends Opens)
    (hnext : ∀ x, Good x → (next x).Begins G E (Ends x)) : (rule >>= next).Heads ask G E Opens := by
  refine h.imp (fun hbegins => hbegins.bind hnext) fun hdeep line => ?_
  obtain ⟨hopens, construct, hfails⟩ := hdeep line
  exact ⟨hopens, construct, bind_error hfails next⟩

theorem mono (h : rule.Heads ask Good Ends Opens) (hopens : ∀ d, Opens d → Opens' d) :
    rule.Heads ask Good Ends Opens' := by
  refine h.imp (fun hbegins => hbegins.mono hopens) fun hdeep line => ?_
  exact (hdeep line).imp_left fun h hask => hopens _ (h hask)

end Heads

/-! ### Tokens that have to be there -/

section Tokens

variable {kind : Kind} {complaint : Complaint} {ask : List Token}

theorem accept_ofKind (line : Option Nat) (rest : List Token) :
    Rule.accept kind ⟨line, .ofKind kind :: rest⟩ = .ok (true, ⟨some 0, rest⟩) :=
  NextIs.accept rfl

theorem expect_ofKind (line : Option Nat) (rest : List Token) :
    Rule.expect kind complaint ⟨line, .ofKind kind :: rest⟩ = .ok ((), ⟨some 0, rest⟩) := by
  rw [Rule.expect, bind_run (accept_ofKind line rest)]
  rfl

theorem name_ofKind (line : Option Nat) (rest : List Token) :
    Rule.name complaint ⟨line, .ofKind .identifier :: rest⟩ = .ok ("x", ⟨some 0, rest⟩) :=
  rfl

theorem Completes.of_token {token : Token}
    (hfails : ∀ rejection, rule c = .error rejection → rejection.span = none →
      c.rest = [] ∧ rejection.complaint = some complaint)
    (hrun : ∀ line rest, rule ⟨line, token :: rest⟩ = .ok (x, ⟨some 0, rest⟩)) :
    rule.Completes (fun _ => True) (fun _ _ => True) (NextIs token.kind) c := by
  intro rejection hrule hspan
  obtain ⟨hnil, -⟩ := hfails rejection hrule hspan
  refine .inl ⟨[token], x, some 0, trivial, fun rest _ => ⟨?_, fun _ => rfl⟩⟩
  rw [hnil]
  exact hrun c.line rest

theorem expect_error (h : Rule.expect kind complaint c = .error rejection)
    (hspan : rejection.span = none) : c.rest = [] ∧ rejection.complaint = some complaint := by
  by_cases hnext : NextIs kind c
  · cases (hnext.expect complaint).symm.trans h
  · cases (expect_other hnext complaint).symm.trans h
    exact ⟨List.head?_eq_none_iff.1 (Option.map_eq_none_iff.1 hspan), rfl⟩

theorem NextIs.name? (h : NextIs .identifier c) :
    ∃ name, Rule.name? c = .ok (some name, c.advance) := by
  obtain ⟨token, hhead, hkind⟩ := Option.map_eq_some_iff.1 h
  refine ⟨token.textD, ?_⟩
  rw [Rule.name?, peek_run, hhead]
  simp only [hkind, if_true]
  rfl

theorem name_error (h : Rule.name complaint c = .error rejection) (hspan : rejection.span = none) :
    c.rest = [] ∧ rejection.complaint = some complaint := by
  by_cases hnext : NextIs .identifier c
  · obtain ⟨name, hrun⟩ := hnext.name?
    rw [Rule.name, bind_run hrun] at h
    cases h
  · rw [Rule.name, bind_run (name?_other hnext)] at h
    cases h
    exact ⟨List.head?_eq_none_iff.1 (Option.map_eq_none_iff.1 hspan), rfl⟩

/-- A name that need not be there, and what follows it. -/
theorem Completes.name?_bind {next : Option String → Rule β}
    (hsome : ∀ name c', (next (some name)).Completes G E (fun _ => True) c')
    (hopens : ∀ d, Opens d → ¬NextIs .identifier d) (hnone : (next none).Completes G E Opens c) :
    (Rule.name? >>= next).Completes G E Opens c := by
  have hname? : Rule.name?.Foresees (·.isSome) (EndsWith (fun _ _ => True) Opens) c := by
    refine Foresees.name?.mono (fun _ => id) fun found d hd => ?_
    cases found with
    | some name => exact hd
    | none => exact hopens d hd
  by_cases hnext : NextIs .identifier c
  · obtain ⟨name, hrun⟩ := hnext.name?
    refine .of_parts hname?.matched (fun _ hfails => ?_) (fun found c' hfound => ?_)
      fun _ _ _ hnil => ?_
    · cases hrun.symm.trans hfails
    · cases hrun.symm.trans hfound
      exact hsome name _
    · rw [NextIs, hnil] at hnext
      cases hnext
  · have hrun : Rule.name? c = .ok (none, c) := name?_other hnext
    refine .of_parts hname?.matched (fun _ hfails => ?_) (fun found c' hfound => ?_)
      fun found c' hfound _ => ?_
    · cases hrun.symm.trans hfails
    · cases hrun.symm.trans hfound
      exact hnone
    · cases hrun.symm.trans hfound
      exact fun _ => id

theorem Completes.expect : (Rule.expect kind complaint).Completes (fun _ => True) (fun _ _ => True)
    (NextIs kind) c :=
  of_token (fun _ => expect_error) expect_ofKind

theorem Completes.name : (Rule.name complaint).Completes (fun _ => True) (fun _ _ => True)
    (NextIs .identifier) c :=
  of_token (fun _ => name_error) name_ofKind

/-- A failure where nothing is left, if its complaint asks for the tokens that are missing. -/
theorem Completes.of_heads (complaint : Complaint) (hnil : c.rest = [])
    (hfails : ∀ rejection, rule c = .error rejection → rejection.span = none →
      rejection.complaint = some complaint)
    (hheads : rule.Heads complaint.asks Good Ends Opens) : rule.Completes Good Ends Opens c := by
  rcases hheads with hbegins | hdeep
  · exact .of_begins hnil hbegins
  · intro rejection hrun hspan
    obtain ⟨hopens, construct, hdeep⟩ := hdeep c.line
    refine .inr (.nesting complaint construct (hfails rejection hrun hspan) (fun _ => hopens) ?_)
    rw [hnil]
    exact hdeep

/-- A token that has to be there, and what follows it. -/
theorem Completes.token_bind (hfixed : rule.Fixed c)
    (hfails : ∀ rejection, rule c = .error rejection → rejection.span = none →
      c.rest = [] ∧ rejection.complaint = some complaint)
    (hheads : (rule >>= next).Heads complaint.asks G E Opens)
    (hnext : ∀ x c', rule c = .ok (x, c') → (next x).Completes G E (fun _ => True) c') :
    (rule >>= next).Completes G E Opens c := by
  by_cases hnil : c.rest = []
  · refine .of_heads complaint hnil (fun rejection hrun hspan => ?_) hheads
    cases hrule : rule c with
    | error found =>
        rw [bind_error hrule] at hrun
        cases hrun
        exact (hfails _ hrule hspan).2
    | ok found =>
        obtain ⟨used, hpasses, hused, -⟩ := hfixed.matched found.1 found.2 hrule
        rw [hpasses.rest] at hnil
        exact absurd (List.append_eq_nil_iff.1 hnil).1 (hused trivial)
  · have hparts : (rule >>= next).Completes G E (fun _ => True) c := by
      refine .of_parts hfixed.matched (fun rejection hrule hspan => ?_) hnext
        fun _ _ _ _ _ _ => trivial
      exact absurd (hfails rejection hrule hspan).1 hnil
    exact of_ne_nil hnil hparts

theorem Completes.expect_bind {next : Unit → Rule β}
    (hheads : (Rule.expect kind complaint >>= next).Heads complaint.asks G E Opens)
    (hnext : ∀ c', (next ()).Completes G E (fun _ => True) c') :
    (Rule.expect kind complaint >>= next).Completes G E Opens c :=
  token_bind (.expect kind complaint) (fun _ => expect_error) hheads fun _ c' _ => hnext c'

theorem Completes.name_bind {next : String → Rule β}
    (hheads : (Rule.name complaint >>= next).Heads complaint.asks G E Opens)
    (hnext : ∀ name c', Rule.name complaint c = .ok (name, c') →
      (next name).Completes G E (fun _ => True) c') :
    (Rule.name complaint >>= next).Completes G E Opens c :=
  token_bind (.name complaint) (fun _ => name_error) hheads hnext

end Tokens

/-! ### Repetition -/

section Many

variable {item : Rule (Option α)} {Good : Option α → Prop} {Ends : Option α → Cursor → Prop}
  {S : Cursor → Prop} {ask : List Token}

/-- Items one after another, where none is found at the end of the input. -/
theorem Completes.many (hforesees : ∀ c, item.Foresees (·.isSome) Ends c)
    (hitem : ∀ c, item.Completes Good Ends (fun _ => True) c)
    (hends : ∀ found d, S d → Ends found d) (hnone : ∀ d, S d → item d = .ok (none, d))
    (hnil : ∀ line, ∃ d, item ⟨line, []⟩ = .ok (none, d)) (c : Cursor) :
    (Rule.many item).Completes (fun _ => True) (fun _ => S) Opens c := by
  have hshorter : ∀ c x c', item c = .ok (some x, c') → c'.rest.length < c.rest.length :=
    fun c _ _ => length_lt_of_foresees (hforesees c)
  -- the items after the first one come from fewer tokens
  induction hlength : c.rest.length using Nat.strongRecOn generalizing c Opens with
  | ind n ih =>
      rw [many_eq hshorter]
      by_cases hrest : c.rest = []
      · obtain ⟨d, hd⟩ := hnil c.line
        have hd : item c = .ok (none, d) := by rw [← hd, ← hrest]
        exact .of_ok (bind_run hd _)
      · refine .of_ne_nil hrest (.bind (hforesees c).matched (hitem c) ?_ ?_)
        · intro found c' hrun
          cases found with
          | none => exact .pure []
          | some x => exact (ih _ (hlength ▸ hshorter c x c' hrun) c' rfl).map _
        · intro found _ line
          cases found with
          | none => exact ⟨[], [], line, trivial, fun rest hS => ⟨rfl, fun _ => hends none _ hS⟩⟩
          | some x =>
              refine ⟨[], [x], line, trivial, fun rest hS => ⟨?_, fun _ => hends (some x) _ hS⟩⟩
              exact bind_run (Repeats.nil (hnone _ hS)).many _

theorem many_after_other {rule : Rule α} {kind : Kind} {d : Cursor} (h : ¬NextIs kind d) :
    Rule.many (Rule.after kind rule) d = .ok ([], d) :=
  (Repeats.nil (after_other h)).many

theorem Completes.many_after {rule : Rule α} {kind : Kind} {Moves Good : α → Prop}
    {Ends : α → Cursor → Prop} (hforesees : ∀ c, rule.Foresees Moves Ends c)
    (hrule : ∀ c, rule.Completes Good Ends (fun _ => True) c) (hends : ∀ x d, S d → Ends x d)
    (hkind : ∀ d, S d → ¬NextIs kind d) (c : Cursor) :
    (Rule.many (Rule.after kind rule)).Completes (fun _ => True) (fun _ => S) Opens c := by
  refine .many (fun c => .after hforesees) (fun c => .after hforesees hrule) (fun found d hS => ?_)
    (fun d hS => after_other (hkind d hS))
    (fun line => ⟨_, after_other (Option.some_ne_none kind).symm⟩) c
  cases found with
  | some x => exact hends x d hS
  | none => exact hkind d hS

end Many

end Rule

end TableScript
