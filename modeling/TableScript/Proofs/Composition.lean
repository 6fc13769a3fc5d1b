import TableScript.Proofs.Compiled
import TableScript.Proofs.Coupling
import TableScript.Proofs.Foresight
import TableScript.Proofs.LineFeed
import TableScript.Proofs.Places
import TableScript.Session

/-!
Sources one after another. There is nothing that ends a statement, but a line break keeps the statements
of two sources apart unless the second one begins with a minus sign; and running statements one after
another is running all of them.
-/

namespace TableScript

open Rule

variable {α : Type}

/-! ### Statements one after another -/

namespace Rule

variable {item : Rule (Option α)} {c c' : Cursor} {xs : List α}

theorem repeats_of_many
    (hshorter : ∀ c x c', item c = .ok (some x, c') → c'.rest.length < c.rest.length)
    (hstay : ∀ c c', item c = .ok (none, c') → c' = c) (h : many item c = .ok (xs, c')) :
    Repeats item c xs c' := by
  induction hlength : c.rest.length using Nat.strongRecOn generalizing c xs with
  | ind n ih =>
      rw [many_eq hshorter] at h
      cases hrun : item c with
      | error rejection =>
          rw [bind_error hrun] at h
          cases h
      | ok found =>
          obtain ⟨found, c₁⟩ := found
          rw [bind_run hrun] at h
          cases found with
          | none =>
              cases h
              obtain rfl := hstay c c' hrun
              exact .nil hrun
          | some x =>
              have hless := hshorter c x c₁ hrun
              cases hrest : many item c₁ with
              | error rejection =>
                  simp only [bind_error hrest] at h
                  cases h
              | ok found =>
                  obtain ⟨ys, c₂⟩ := found
                  simp only [bind_run hrest] at h
                  cases h
                  exact .cons hrun hless (ih _ (hlength ▸ hless) hrest rfl)

/-- Items after which something else stands that does not continue the last one. -/
theorem Repeats.extend {Ends : α → Cursor → Prop} {Nothing : Cursor → Prop}
    (hitem : ∀ c, item.Foresees (·.isSome) (EndsWith Ends Nothing) c) {rest : List Token}
    {ys : List α} {d : Cursor} (h : Repeats item c xs c') (hnil : c'.rest = [])
    (hends : ∀ x, Ends x ⟨c'.line, rest⟩) (hrest : Repeats item ⟨c'.line, rest⟩ ys d) :
    Repeats item ⟨c.line, c.rest ++ rest⟩ (xs ++ ys) d := by
  induction h with
  | nil =>
      rw [hnil]
      exact hrest
  | @cons c c₁ c' x xs hfound hlength hothers ih =>
      obtain ⟨used, hpasses, hused, hmore⟩ := (hitem c).matched _ _ hfound
      have hhead : (c₁.rest ++ rest).head? = c₁.rest.head? ∨ Ends x ⟨c₁.line, c₁.rest ++ rest⟩ := by
        cases hothers with
        | nil =>
            rw [hnil]
            exact .inr (hends x)
        | cons _ hlength' _ =>
            have hsome : c₁.rest ≠ [] := by
              intro hempty
              rw [hempty] at hlength'
              exact Nat.not_lt_zero _ hlength'
            exact .inl (List.head?_append_of_ne_nil _ hsome)
      have hfound' := hmore (c₁.rest ++ rest) hhead
      rw [← List.append_assoc, ← hpasses.rest] at hfound'
      refine .cons hfound' ?_ (ih hnil hends hrest)
      simpa using hlength

end Rule

/-- A statement of a program, if there is one. -/
abbrev statement? : Rule (Option Expr) :=
  optional ((Grammar.nested Grammar.maxDepth).expr false)

theorem foresees_statement? (c : Cursor) : statement?.Foresees (·.isSome)
    (EndsWith (fun _ c' => c'.Stops 1) Grammar.Absent) c :=
  have hnested := Grammar.foreseen_nested Grammar.maxDepth
  (hnested.expr false c).optional hnested.absent

/-- The statements of a program are read one after another. -/
theorem repeats_program {c c' : Cursor} {program : Block}
    (h : Rule.program c = .ok (program, c')) : Repeats statement? c program c' := by
  refine repeats_of_many (fun c x c' hrun => ?_) (fun c c' hrun => ?_) h
  · obtain ⟨used, hpasses, hused, -⟩ := (foresees_statement? c).matched _ _ hrun
    have hpositive := List.length_pos_iff.2 (hused rfl)
    rw [hpasses.rest, List.length_append]
    omega
  · cases hexpr : (Grammar.nested Grammar.maxDepth).expr false c with
    | ok found =>
        cases hrun.symm.trans (optional_run hexpr)
    | error rejection =>
        rw [statement?, Rule.optional, hexpr] at hrun
        simp only at hrun
        split at hrun
        · cases hrun
        · cases hrun
          rfl

/-! ### Two rows of tokens -/

/-- The tokens of a second source read as before: all of them are on other lines than the last token of
the first source, and their lines differ from each other as they did. -/
theorem sameWords_shift {n m : Nat} {line : Option Nat} (hline : ∀ k ∈ line, k < m)
    (tokens : List Token) :
    SameWords (fun _ _ => True) none tokens line (tokens.map (Token.shift n m)) := by
  have htail : ∀ (tokens : List Token) (k : Nat), SameWords (fun _ _ => True) (some k) tokens
      (some (k + m)) (tokens.map (Token.shift n m)) := by
    intro tokens
    induction tokens with
    | nil => exact fun k => .nil _ _
    | cons token tokens ih =>
        intro k
        refine .cons rfl trivial (fun _ => ?_) (ih _)
        simp [Token.shift]
  cases tokens with
  | nil => exact .nil _ _
  | cons token tokens =>
      refine .cons rfl trivial (fun _ => ?_) (htail tokens _)
      refine iff_of_false (Option.some_ne_none _).symm fun hsame => ?_
      have hless := hline _ hsame
      simp only [Token.shift] at hless
      omega

/-- Of the tokens at which an expression begins only the minus sign continues another one, and an
opening bracket if it is on the same line. -/
theorem strength_of_starts {kind : Kind} (hstarts : Grammar.starts kind = true)
    (hminus : kind ≠ .symbol .minus) :
    kind.strength < 1 ∨ kind = .symbol .leftParen ∨ kind = .symbol .leftBracket := by
  cases kind with
  | identifier => exact .inl (by decide)
  | number => exact .inl (by decide)
  | string => exact .inl (by decide)
  | keyword keyword =>
      revert hstarts hminus
      cases keyword <;> decide
  | symbol symbol =>
      revert hstarts hminus
      cases symbol <;> decide

/-- Where a program has a statement, an expression begins. -/
theorem starts_of_program {c c' : Cursor} {token : Token} {rest : List Token} {program : Block}
    (h : Rule.program c = .ok (program, c')) (hrest : c.rest = token :: rest) (hnil : c'.rest = []) :
    Grammar.starts token.kind = true := by
  cases repeats_program h with
  | nil =>
      rw [hrest] at hnil
      cases hnil
  | cons hfound _ _ =>
      refine Decidable.of_not_not fun hstarts => ?_
      have habsent : Grammar.Absent c := by
        intro kind hkind
        rw [hrest] at hkind
        cases hkind
        exact Bool.eq_false_iff.2 hstarts
      have hrefused : statement? c = .ok (none, c) :=
        optional_absent (Grammar.expr_absent habsent) rfl
      cases hfound.symm.trans hrefused

/-- The tokens of two sources with a line break between them are the statements of both. -/
theorem parse_lineBreak {tokens tokens' : List Token} {one two : Block} {n m : Nat}
    (hone : parse tokens = .ok one) (htwo : parse tokens' = .ok two)
    (hlines : ∀ token ∈ tokens, token.span.line < m)
    (hminus : ∀ token ∈ tokens'.head?, token.kind ≠ .symbol .minus) :
    parse (tokens ++ tokens'.map (Token.shift n m)) = .ok (one ++ two) := by
  obtain ⟨line, hfirst⟩ := parse_eq_ok_iff.1 hone
  obtain ⟨line', hsecond⟩ := parse_eq_ok_iff.1 htwo
  have hline : ∀ k ∈ line, k < m := by
    obtain ⟨used, hpasses, -⟩ := (foresees_program (.start tokens)).matched _ _ hfirst
    obtain rfl : tokens = used := by simpa [Cursor.start] using hpasses.rest
    intro k hk
    have hlast : tokens.getLast?.map (·.span.line) = some k := by
      simpa [lineAfter, Cursor.start] using hpasses.line.symm.trans hk
    obtain ⟨token, htoken, rfl⟩ := Option.map_eq_some_iff.1 hlast
    exact hlines token (List.mem_of_getLast? htoken)
  have hshifted : ∃ line'', Rule.program ⟨line, tokens'.map (Token.shift n m)⟩ =
      .ok (two, ⟨line'', []⟩) := by
    have hsame : (Cursor.start tokens').Resembles (fun _ _ => True)
        ⟨line, tokens'.map (Token.shift n m)⟩ := sameWords_shift hline tokens'
    have houtcome := blind_program _ _ hsame
    rw [hsecond] at houtcome
    generalize Rule.program ⟨line, tokens'.map (Token.shift n m)⟩ = outcome at houtcome ⊢
    cases houtcome with
    | @ok _ _ d hrest =>
        obtain ⟨line'', rest⟩ := d
        cases hrest
        exact ⟨line'', rfl⟩
  obtain ⟨line'', hshifted⟩ := hshifted
  have hstops : Cursor.Stops ⟨line, tokens'.map (Token.shift n m)⟩ 1 := by
    intro token htoken
    cases tokens' with
    | nil => cases htoken
    | cons token' rest =>
        cases htoken
        have hstarts := starts_of_program hsecond rfl rfl
        rcases strength_of_starts hstarts (hminus token' rfl) with hstrength | hbracket
        · exact .inl hstrength
        · refine .inr ⟨hbracket, fun hsame => ?_⟩
          have hless := hline _ hsame
          simp only [Token.shift] at hless
          omega
  have hrepeats := (repeats_program hfirst).extend foresees_statement? rfl
    (fun _ => hstops) (repeats_program hshifted)
  exact parse_eq_ok_iff.2 ⟨line'', hrepeats.many⟩

/-! ### Two programs -/

section Running

variable (m : Machine) (c : Context)

/-- Statements one after another: the later ones run unless an earlier one gave a signal. -/
theorem evalBlock_append (last : Value) (one two : Block) :
    evalBlock m c last (one ++ two) = (evalBlock m c last one >>= fun ending =>
      if ending.2 = .none then evalBlock m c ending.1 two else pure ending) := by
  induction one generalizing last with
  | nil => simp [evalBlock]
  | cons e one ih =>
      cases e with
      | control control =>
          simp only [List.cons_append, evalBlock, bind_assoc]
          congr 1
          funext ending
          by_cases hnone : ending.2 = .none
          · simp [hnone, ih]
          · simp [hnone]
      | _ => simp only [List.cons_append, evalBlock, bind_assoc, ih]

/-- Without statements the value is the one before; otherwise it does not matter. -/
theorem evalBlock_last {two : Block} (hsome : two ≠ []) (last last' : Value) :
    evalBlock m c last two = evalBlock m c last' two := by
  cases two with
  | nil => exact absurd rfl hsome
  | cons e two => cases e <;> rfl

end Running

namespace Host

variable (host : Host) (fuel : Nat) (setup : Setup) (c : Context)

/-- Prepares statements for an engine and runs them as one block. -/
def runNew (block : Block) : Eval Ending := fun s =>
  let (program, s) := s.prepare setup block
  host.runBlock fuel program c s

variable {setup}

/-- Without kept lists both engines walk through the statements, each on a machine of its own. -/
theorem exists_machine (hplain : setup.engine = .compiler → setup.keepLists = false) :
    ∃ m : Machine, ∀ block, host.runNew fuel setup c block = evalBlock m c .null block := by
  obtain ⟨engine, keepLists⟩ := setup
  cases engine with
  | interpreter => exact ⟨host.machine fuel, fun block => rfl⟩
  | compiler =>
      obtain rfl : keepLists = false := hplain rfl
      refine ⟨(host.machine fuel).compiling, fun block => ?_⟩
      rw [← run_compileBlock]
      rfl

variable {s s' : Store} {value : Value} {one : Block}

/-- Statements that follow others which ended without a signal run from where these left off. -/
theorem runNew_append (hplain : setup.engine = .compiler → setup.keepLists = false)
    (hone : host.runNew fuel setup c one s = .ok (value, .none) s') (two : Block) :
    host.runNew fuel setup c (one ++ two) s =
      if two.isEmpty then .ok (value, .none) s' else host.runNew fuel setup c two s' := by
  obtain ⟨m, hm⟩ := exists_machine host fuel c hplain
  rw [hm] at hone
  rw [hm, hm, evalBlock_append]
  have hrun : (evalBlock m c .null one >>= fun ending =>
      if ending.2 = .none then evalBlock m c ending.1 two else pure ending) s =
      evalBlock m c value two s' := by
    rw [Eval.bind_apply, hone]
    rfl
  rw [hrun]
  cases two with
  | nil => rfl
  | cons e two => rw [evalBlock_last m c (by simp) value .null]; rfl

end Host

/-- Running a source is running its statements on the usual host, with no signal left. -/
theorem runSource_eq {source : String} {block : Block} (h : Block.ofSource source = .ok block)
    (fuel : Nat) (setup : Setup) (c : Context) (s : Store) :
    runSource fuel setup c source s = EStateM.adaptExcept Failure.running
      (Host.standard.runNew fuel setup c block >>= fun ending => Eval.complete ending.2 ending.1) s := by
  have hrun : (Host.standard.runNew fuel setup c block >>= fun ending =>
      Eval.complete ending.2 ending.1) s =
      (s.prepare setup block).1.run fuel c (s.prepare setup block).2 := rfl
  rw [EStateM.adaptExcept, hrun, runSource, h]
  cases hresult : (s.prepare setup block).1.run fuel c (s.prepare setup block).2 <;>
    simp only [hresult]

theorem runSource_of_runNew {source : String} {block : Block} (h : Block.ofSource source = .ok block)
    {fuel : Nat} {setup : Setup} {c : Context} {s s' : Store} {value : Value}
    (hrun : Host.standard.runNew fuel setup c block s = .ok (value, .none) s') :
    runSource fuel setup c source s = .ok value s' := by
  rw [runSource_eq h, EStateM.adaptExcept, Eval.bind_apply, hrun]
  rfl

theorem runSource_congr {source source' : String} {block block' : Block}
    (h : Block.ofSource source = .ok block) (h' : Block.ofSource source' = .ok block')
    {fuel : Nat} {setup : Setup} {c : Context} {s s' : Store}
    (hrun : Host.standard.runNew fuel setup c block s = Host.standard.runNew fuel setup c block' s') :
    runSource fuel setup c source s = runSource fuel setup c source' s' := by
  rw [runSource_eq h, runSource_eq h', EStateM.adaptExcept, EStateM.adaptExcept, Eval.bind_apply,
    Eval.bind_apply, hrun]

theorem Block.ofSource_eq_ok_iff {source : String} {block : Block} :
    Block.ofSource source = .ok block ↔ ∃ tokens, tokenize source = .ok tokens ∧
      parse tokens = .ok block := by
  rw [Block.ofSource]
  cases tokenize source with
  | error e => simp
  | ok tokens => cases hparse : parse tokens <;> simp [hparse]

/-- Sources compose at a line break. Two sources that can be read, of which the second does not begin with
a minus sign, are read with a line feed between them as the statements of both. When the first ends
without an error and without a signal, running them joined is running one after the other. -/
theorem sources_compose {first second : String} {one two : Block} {tokens : List Token}
    (hfirst : Block.ofSource first = .ok one) (hsecond : Block.ofSource second = .ok two)
    (htokens : tokenize second = .ok tokens)
    (hminus : ∀ token ∈ tokens.head?, token.kind ≠ .symbol .minus) :
    Block.ofSource (first ++ "\n" ++ second) = .ok (one ++ two) ∧
      ∀ (fuel : Nat) (setup : Setup) (c : Context) (s s' : Store) (value : Value),
        (setup.engine = .compiler → setup.keepLists = false) →
        (∀ host : Host, host.runNew fuel setup c one s = .ok (value, .none) s' →
          host.runNew fuel setup c (one ++ two) s =
            if two.isEmpty then .ok (value, .none) s' else host.runNew fuel setup c two s') ∧
        (Host.standard.runNew fuel setup c one s = .ok (value, .none) s' →
          runSource fuel setup c first s = .ok value s' ∧
          runSource fuel setup c (first ++ "\n" ++ second) s =
            if two.isEmpty then .ok value s' else runSource fuel setup c second s') := by
  have hjoined : Block.ofSource (first ++ "\n" ++ second) = .ok (one ++ two) := by
    obtain ⟨tokens₁, hlexed, hparsed⟩ := Block.ofSource_eq_ok_iff.1 hfirst
    obtain ⟨tokens₂, hlexed', hparsed'⟩ := Block.ofSource_eq_ok_iff.1 hsecond
    cases htokens.symm.trans hlexed'
    obtain ⟨n, m, hboth, hlines⟩ := tokenize_lineFeed hlexed htokens
    exact Block.ofSource_eq_ok_iff.2 ⟨_, hboth, parse_lineBreak hparsed hparsed' hlines hminus⟩
  refine ⟨hjoined, fun fuel setup c s s' value hplain => ⟨fun host hone => ?_, fun hone => ?_⟩⟩
  · exact host.runNew_append fuel c hplain hone two
  · refine ⟨runSource_of_runNew hfirst hone, ?_⟩
    have hrun := Host.standard.runNew_append fuel c hplain hone two
    cases hempty : two.isEmpty with
    | true =>
        rw [hempty, if_pos rfl] at hrun
        exact runSource_of_runNew hjoined hrun
    | false =>
        rw [hempty, if_neg (by decide)] at hrun
        exact runSource_congr hjoined hsecond hrun

/-- A source that ends in a comment. -/
def definingSource : String :=
  "f = func(x) { print(x) } # later"

/-- A source that begins with a bracket, as does its second line. -/
def callingSource : String :=
  "[1]\n(f)(2)"

def definingBlock : Block :=
  [.assign (.name "f") (.set (.function none ["x"] [.access (.name "print") [.call [.name "x"]]]))]

def callingBlock : Block :=
  [.list [.number 1], .access (.name "f") [.call [.number 2]]]

/-- Whether statements ended without an error and without a signal. -/
def Outcome.isQuiet : Outcome Ending → Bool
  | .ok ending _ => ending.2 = .none
  | .error _ _ => false

theorem Outcome.exists_of_isQuiet {outcome : Outcome Ending} (h : outcome.isQuiet = true) :
    ∃ value s, outcome = .ok (value, .none) s := by
  cases outcome with
  | ok ending s => exact ⟨ending.1, s, by rw [← of_decide_eq_true h]⟩
  | error halt s => cases h

theorem sources_compose_calling :
    let setup : Setup := ⟨.compiler, false⟩
    let start := Store.empty.newContextWith Native.all
    Block.ofSource (definingSource ++ "\n" ++ callingSource) = .ok (definingBlock ++ callingBlock) ∧
      ∃ value s', runSource 9 setup start.1 definingSource start.2 = .ok value s' ∧
        runSource 9 setup start.1 (definingSource ++ "\n" ++ callingSource) start.2 =
          runSource 9 setup start.1 callingSource s' := by
  intro setup start
  have hdefining : Block.ofSource definingSource = .ok definingBlock := rfl
  have hcalling : Block.ofSource callingSource = .ok callingBlock := rfl
  have htokens : tokenize callingSource = .ok (lex callingSource).tokens :=
    tokenize_eq_ok_iff.2 ⟨by decide +kernel, rfl⟩
  have hbracket : (lex callingSource).tokens.head?.map (·.kind) = some (.symbol .leftBracket) := by
    decide +kernel
  have hminus : ∀ token ∈ (lex callingSource).tokens.head?, token.kind ≠ .symbol .minus := by
    intro token htoken hkind
    rw [Option.mem_def.1 htoken, Option.map_some, hkind] at hbracket
    cases hbracket
  have hends : Outcome.isQuiet (Host.standard.runNew 9 setup start.1 definingBlock start.2) = true := by
    decide +kernel
  obtain ⟨value, s', hquiet⟩ := Outcome.exists_of_isQuiet hends
  obtain ⟨hjoined, hrun⟩ := sources_compose hdefining hcalling htokens hminus
  obtain ⟨hfirst, hboth⟩ := (hrun 9 setup start.1 start.2 s' value fun _ => rfl).2 hquiet
  rw [if_neg (by decide)] at hboth
  exact ⟨hjoined, value, s', hfirst, hboth⟩

end TableScript
