import TableScript.Proofs.Spelling

/-!
The lexer cuts a text into gaps and tokens, each token being the longest that is spelled where it
starts, and stops at the first place where a text shows an error. That way of cutting is unique; so it
says all that the lexer does, places within lines apart.
-/

namespace TableScript

/-- A token with the offsets of its first character and of the one after its last. -/
structure Lexeme where
  word : Word
  start : Nat
  stop : Nat
deriving DecidableEq, Repr

def Token.lexeme (token : Token) : Lexeme :=
  ⟨token.word, token.span.start, token.span.stop⟩

/-- `Gap g rest`: blanks and comments `g`, when `rest` follows. A comment ends before the end of its
line or with the text. -/
inductive Gap : List Char → List Char → Prop where
  | nil {rest : List Char} : Gap [] rest
  | blank {c : Char} {g rest : List Char} (hblank : isBlank c) (hgap : Gap g rest) :
      Gap (c :: g) rest
  | comment {cs g rest : List Char} (hcomment : ∀ c ∈ cs, Piece.isCommentPart c)
      (hend : Clear Piece.isCommentPart (g ++ rest)) (hgap : Gap g rest) :
      Gap ('#' :: (cs ++ g)) rest

/-- `Longest s rest`: at the front of `s ++ rest` there is no spelling of a token longer than `s`. -/
def Longest (s rest : List Char) : Prop :=
  ∀ s' word, Spells s' word → s' <+: s ++ rest → s'.length ≤ s.length

/-- `Munches n cs lexemes rest`: the text `cs`, which starts at offset `n`, is gaps and the given
tokens in turn, as far as `rest`. -/
inductive Munches : Nat → List Char → List Lexeme → List Char → Prop where
  | done (n : Nat) (cs : List Char) : Munches n cs [] cs
  | token {n : Nat} {g s rest remainder : List Char} {word : Word} {lexemes : List Lexeme}
      (hgap : Gap g (s ++ rest)) (hspells : Spells s word) (hlongest : Longest s rest)
      (hsound : ∀ problem, ¬Faulty (s ++ rest) problem)
      (hrest : Munches (n + g.length + s.length) rest lexemes remainder) :
      Munches n (g ++ (s ++ rest)) (⟨word, n + g.length, n + g.length + s.length⟩ :: lexemes) remainder

/-- What is left of a text after its last token and gap: nothing, or the text that shows an error. -/
def Ends (rest : List Char) : Option LexicalProblem → Prop
  | none => rest = []
  | some problem => Faulty rest problem

/-- The text from offset `n` on is cut into tokens, up to its end or to the given problem. -/
def Segments (n : Nat) (cs : List Char) (lexemes : List Lexeme) (problem : Option LexicalProblem) :
    Prop :=
  ∃ g rest, Munches n cs lexemes (g ++ rest) ∧ Gap g rest ∧ Ends rest problem

/-! ### Facts about spellings -/

theorem separated_nil : Separated [] := by
  simp [Separated]

theorem Spells.unique {s : List Char} {one other : Word} (hone : Spells s one)
    (hother : Spells s other) : one = other := by
  cases s with
  | nil => exact absurd rfl hone.ne_nil
  | cons c cs =>
      have heq := (Piece.first_of_spells hone separated_nil).symm.trans
        (Piece.first_of_spells hother separated_nil)
      obtain ⟨hkind, htext, _⟩ := Piece.token.inj heq
      cases one
      cases other
      simp_all

theorem Spells.not_gap {c : Char} {cs : List Char} {word : Word} (h : Spells (c :: cs) word) :
    isBlank c = false ∧ c ≠ '#' := by
  have hfirst := Piece.first_of_spells h separated_nil
  constructor
  · cases hblank : isBlank c with
    | false => rfl
    | true => simp [Piece.first, hblank] at hfirst
  · rintro rfl
    have hblank : isBlank '#' = false := by decide
    simp [Piece.first, hblank] at hfirst

theorem Faulty.ne_nil {cs : List Char} {problem : LexicalProblem} (h : Faulty cs problem) :
    cs ≠ [] := by
  cases h <;> simp

theorem Gap.append {g more rest : List Char} (hgap : Gap g (more ++ rest)) (hmore : Gap more rest) :
    Gap (g ++ more) rest := by
  generalize htail : more ++ rest = tail at hgap
  induction hgap with
  | nil => exact hmore
  | blank hblank _ ih => exact .blank hblank (ih htail)
  | @comment cs g tail hcomment hend _ ih =>
      subst htail
      rw [List.cons_append, List.append_assoc]
      refine .comment hcomment ?_ (ih rfl)
      rwa [List.append_assoc]

/-- A gap at the front of a text changes no token but for its place. -/
theorem Segments.of_gap {n : Nat} {g cs : List Char} {lexemes : List Lexeme}
    {problem : Option LexicalProblem} (hgap : Gap g cs)
    (h : Segments (n + g.length) cs lexemes problem) : Segments n (g ++ cs) lexemes problem := by
  obtain ⟨last, rest, hmunches, hlast, hends⟩ := h
  generalize hm : n + g.length = m at hmunches
  generalize hremainder : last ++ rest = remainder at hmunches
  cases hmunches with
  | done =>
      subst hremainder
      refine ⟨g ++ last, rest, ?_, hgap.append hlast, hends⟩
      rw [List.append_assoc]
      exact .done _ _
  | @token _ g' s rest' _ word lexemes hgap' hspells hlongest hsound hrest =>
      subst hremainder hm
      refine ⟨last, rest, ?_, hlast, hends⟩
      have hcut := Munches.token (n := n) (hgap.append hgap') hspells hlongest hsound
        (by simpa [Nat.add_assoc] using hrest)
      simpa [Nat.add_assoc] using hcut

/-- A longest spelling is what the lexer finds, unless the text shows an error. -/
theorem Piece.first_of_longest {c : Char} {cs rest : List Char} {word : Word}
    (hspells : Spells (c :: cs) word) (hlongest : Longest (c :: cs) rest)
    (hsound : ∀ problem, ¬Faulty (c :: cs ++ rest) problem) :
    first c (cs ++ rest) = token word.kind word.text (cs.length + 1) := by
  rcases first_cases c (cs ++ rest) with ⟨hblank, _⟩ | ⟨hcomment, _⟩ |
    ⟨s, rest', found, heq, hfound, hfirst⟩ | ⟨problem, _, _, hfault⟩
  · rw [hspells.not_gap.1] at hblank
    cases hblank
  · exact absurd hcomment hspells.not_gap.2
  · have hfront : c :: cs <+: c :: (cs ++ rest) := List.prefix_append (c :: cs) rest
    have hle := length_le_first hspells hfront
    rw [hfirst] at hle
    have hge : s.length ≤ (c :: cs).length := hlongest s found hfound ⟨rest', heq.symm⟩
    rw [← List.cons_append] at heq
    obtain ⟨rfl, rfl⟩ := List.append_inj heq (Nat.le_antisymm hle hge)
    rw [hfirst, hfound.unique hspells]
    rfl
  · exact absurd hfault (hsound problem)

/-- What the lexer finds is a longest spelling, and no error starts there. -/
theorem Piece.longest_of_first {c : Char} {cs rest : List Char} {word : Word}
    (hfirst : first c (cs ++ rest) = token word.kind word.text (cs.length + 1)) :
    Longest (c :: cs) rest ∧ ∀ problem, ¬Faulty (c :: cs ++ rest) problem := by
  constructor
  · intro s found hspells hfront
    rw [List.cons_append] at hfront
    have hlength := length_le_first hspells hfront
    rwa [hfirst] at hlength
  · intro problem hfault
    rw [List.cons_append] at hfault
    obtain ⟨length, herror⟩ := first_of_faulty hfault
    rw [hfirst] at herror
    cases herror

/-! ### Stepping over a piece -/

@[simp]
theorem Position.offset_advance (p : Position) (c : Char) (rest : List Char) :
    (p.advance c rest).offset = p.offset + 1 := by
  unfold Position.advance
  split <;> rfl

namespace Lexed

theorem walk_skip (skipped : List Char) (p : Position) (rest : List Char) :
    ∃ q : Position, q.offset = p.offset + skipped.length ∧
      walk skipped.length p (skipped ++ rest) = walk 0 q rest := by
  induction skipped generalizing p with
  | nil => exact ⟨p, rfl, rfl⟩
  | cons c skipped ih =>
      obtain ⟨q, hoffset, hwalk⟩ := ih (p.advance c (skipped ++ rest))
      refine ⟨q, ?_, hwalk⟩
      rw [hoffset, Position.offset_advance, List.length_cons]
      omega

theorem walk_gap {c : Char} {cs rest : List Char} (p : Position)
    (hfirst : Piece.first c (cs ++ rest) = .gap (cs.length + 1)) :
    ∃ q : Position, q.offset = p.offset + (c :: cs).length ∧
      walk 0 p (c :: (cs ++ rest)) = walk 0 q rest := by
  obtain ⟨q, hoffset, hwalk⟩ := walk_skip cs (p.advance c (cs ++ rest)) rest
  refine ⟨q, ?_, ?_⟩
  · rw [hoffset, Position.offset_advance, List.length_cons]
    omega
  · rw [walk, hfirst]
    exact hwalk

theorem walk_token {c : Char} {cs rest : List Char} {word : Word} (p : Position)
    (hfirst : Piece.first c (cs ++ rest) = .token word.kind word.text (cs.length + 1)) :
    ∃ q : Position, q.offset = p.offset + (c :: cs).length ∧
      (walk 0 p (c :: (cs ++ rest))).tokens.map Token.lexeme =
        ⟨word, p.offset, p.offset + (c :: cs).length⟩ :: (walk 0 q rest).tokens.map Token.lexeme ∧
      (walk 0 p (c :: (cs ++ rest))).error = (walk 0 q rest).error := by
  obtain ⟨q, hoffset, hwalk⟩ := walk_skip cs (p.advance c (cs ++ rest)) rest
  refine ⟨q, ?_, ?_⟩
  · rw [hoffset, Position.offset_advance, List.length_cons]
    omega
  · rw [walk, hfirst]
    dsimp only
    rw [Nat.add_sub_cancel, hwalk]
    exact ⟨rfl, rfl⟩

theorem walk_error {c : Char} {cs : List Char} {problem : LexicalProblem} {length : Nat}
    (p : Position) (hfirst : Piece.first c cs = .error problem length) :
    walk 0 p (c :: cs) = ⟨[], some ⟨problem, p.span length⟩⟩ := by
  rw [walk, hfirst]

/-- Gaps leave no trace. -/
theorem walk_of_gap {g rest : List Char} (hgap : Gap g rest) (p : Position) :
    ∃ q : Position, q.offset = p.offset + g.length ∧ walk 0 p (g ++ rest) = walk 0 q rest := by
  induction hgap generalizing p with
  | nil => exact ⟨p, rfl, rfl⟩
  | @blank c g rest hblank _ ih =>
      have hfirst : Piece.first c ([] ++ (g ++ rest)) = .gap 1 := by simp [Piece.first, hblank]
      obtain ⟨q, hq, hwalk⟩ := walk_gap p hfirst
      obtain ⟨q', hq', hwalk'⟩ := ih q
      refine ⟨q', ?_, hwalk.trans hwalk'⟩
      rw [hq', hq]
      simp
      omega
  | @comment cs g rest hcomment hend _ ih =>
      have hfirst : Piece.first '#' (cs ++ (g ++ rest)) = .gap (cs.length + 1) := by
        have hrun : ('#' :: cs ++ (g ++ rest)).takeWhile Piece.isCommentPart = '#' :: cs :=
          takeWhile_append_clear (by simpa [Piece.isCommentPart] using hcomment) hend
        rw [Piece.first, if_neg (by decide), if_pos rfl, ← List.cons_append, hrun]
        rfl
      obtain ⟨q, hq, hwalk⟩ := walk_gap p hfirst
      obtain ⟨q', hq', hwalk'⟩ := ih q
      refine ⟨q', ?_, ?_⟩
      · rw [hq', hq]
        simp
        omega
      · rw [List.cons_append, List.append_assoc, hwalk, hwalk']

/-- The lexer cuts a text into longest tokens. -/
theorem walk_segments (p : Position) (cs : List Char) :
    Segments p.offset cs ((walk 0 p cs).tokens.map Token.lexeme)
      ((walk 0 p cs).error.map (·.problem)) := by
  match cs with
  | [] => exact ⟨[], [], .done _ _, .nil, rfl⟩
  | c :: cs =>
    rcases Piece.first_cases c cs with ⟨hblank, hfirst⟩ | ⟨rfl, hfirst⟩ |
      ⟨s, rest, word, heq, hspells, hfirst⟩ | ⟨problem, length, hfirst, hfault⟩
    · have hfirst : Piece.first c ([] ++ cs) = .gap 1 := hfirst
      obtain ⟨q, hq, hwalk⟩ := walk_gap p hfirst
      have hrest := walk_segments q cs
      rw [hq] at hrest
      rw [List.nil_append] at hwalk
      rw [hwalk]
      exact hrest.of_gap (.blank hblank .nil)
    · obtain ⟨comment, rest, rfl, hcomment, hend⟩ := exists_run Piece.isCommentPart cs
      rw [takeWhile_append_clear hcomment hend] at hfirst
      obtain ⟨q, hq, hwalk⟩ := walk_gap p hfirst
      have hrest := walk_segments q rest
      rw [hq] at hrest
      rw [hwalk]
      have hgap : Gap ('#' :: (comment ++ [])) rest := .comment hcomment hend .nil
      rw [List.append_nil] at hgap
      exact hrest.of_gap hgap
    · cases s with
      | nil => exact absurd rfl hspells.ne_nil
      | cons d s =>
          rw [List.cons_append] at heq
          obtain ⟨rfl, rfl⟩ := List.cons.inj heq
          obtain ⟨q, hq, htokens, herror⟩ := walk_token p hfirst
          obtain ⟨g, rest', hmunches, hgap, hends⟩ := walk_segments q rest
          rw [hq] at hmunches
          rw [htokens, herror]
          obtain ⟨hlongest, hsound⟩ := Piece.longest_of_first hfirst
          refine ⟨g, rest', ?_, hgap, hends⟩
          have hcut := Munches.token .nil hspells hlongest hsound hmunches
          exact hcut
    · rw [walk_error p hfirst]
      exact ⟨[], c :: cs, .done _ _, .nil, hfault⟩
  termination_by cs.length

/-- There is no other way to cut a text. -/
theorem walk_of_segments {p : Position} {cs : List Char} {lexemes : List Lexeme}
    {problem : Option LexicalProblem} (h : Segments p.offset cs lexemes problem) :
    (walk 0 p cs).tokens.map Token.lexeme = lexemes ∧
      (walk 0 p cs).error.map (·.problem) = problem := by
  obtain ⟨g, rest, hmunches, hgap, hends⟩ := h
  generalize hn : p.offset = n at hmunches
  generalize hremainder : g ++ rest = remainder at hmunches
  induction hmunches generalizing p with
  | done n cs =>
      subst hremainder
      obtain ⟨q, _, hwalk⟩ := walk_of_gap hgap p
      rw [hwalk]
      cases problem with
      | none =>
          obtain rfl : rest = [] := hends
          exact ⟨rfl, rfl⟩
      | some problem =>
          cases rest with
          | nil => exact absurd rfl (Faulty.ne_nil hends)
          | cons c rest =>
              obtain ⟨length, hfirst⟩ := Piece.first_of_faulty hends
              rw [walk_error q hfirst]
              exact ⟨rfl, rfl⟩
  | @token n g' s rest' remainder word lexemes hgap' hspells hlongest hsound _ ih =>
      obtain ⟨q, hq, hwalk⟩ := walk_of_gap hgap' p
      rw [hwalk]
      cases s with
      | nil => exact absurd rfl hspells.ne_nil
      | cons c s =>
          have hfirst := Piece.first_of_longest hspells hlongest hsound
          obtain ⟨r, hr, htokens, herror⟩ := walk_token q hfirst
          obtain ⟨htail, hend⟩ := ih (p := r) (by rw [hr, hq, hn]) hremainder
          rw [List.cons_append, htokens, herror, htail, hq, hn]
          exact ⟨rfl, hend⟩

end Lexed

theorem segments_iff_lex (source : String) (lexemes : List Lexeme)
    (problem : Option LexicalProblem) :
    Segments 0 source.toList lexemes problem ↔
      (lex source).tokens.map Token.lexeme = lexemes ∧
        (lex source).error.map (·.problem) = problem := by
  constructor
  · exact Lexed.walk_of_segments (p := .origin)
  · rintro ⟨rfl, rfl⟩
    exact Lexed.walk_segments .origin source.toList

/-- The offsets of a token cut out its spelling. -/
theorem Munches.spells_slice {n : Nat} {cs rest : List Char} {lexemes : List Lexeme}
    (h : Munches n cs lexemes rest) (before : List Char) (hbefore : before.length = n) :
    ∀ lexeme ∈ lexemes,
      Spells (((before ++ cs).take lexeme.stop).drop lexeme.start) lexeme.word := by
  induction h generalizing before with
  | done => simp
  | @token n g s rest _ word lexemes _ hspells _ _ _ ih =>
      intro lexeme hmem
      have htext : before ++ (g ++ (s ++ rest)) = (before ++ g ++ s) ++ rest := by simp
      rcases List.mem_cons.mp hmem with rfl | hmem
      · have hstop : n + g.length + s.length = (before ++ g ++ s).length := by
          simp [hbefore, Nat.add_assoc]
        have hstart : n + g.length = (before ++ g).length := by simp [hbefore]
        rw [htext]
        dsimp only
        rw [hstop, List.take_left, hstart, List.drop_left]
        exact hspells
      · rw [htext]
        exact ih _ (by simp [hbefore, Nat.add_assoc]) lexeme hmem

/-- Tokenizing succeeds with the tokens into which a text is cut, each as long as it can be. It fails
exactly when such a cut comes to a place where the text shows an error; the tokens that are read
before are then those of that cut. In both cases the offsets of each token cut out its spelling. -/
theorem tokenize_segments (source : String) :
    (∀ lexemes, (∃ tokens, tokenize source = .ok tokens ∧ tokens.map Token.lexeme = lexemes) ↔
        Segments 0 source.toList lexemes none) ∧
      (∀ lexemes problem, ((∃ span, tokenize source = .error ⟨problem, span⟩) ∧
          (lex source).tokens.map Token.lexeme = lexemes) ↔
        Segments 0 source.toList lexemes (some problem)) ∧
      ∀ token ∈ (lex source).tokens,
        Spells ((source.toList.take token.span.stop).drop token.span.start) token.word := by
  refine ⟨fun lexemes => ?_, fun lexemes problem => ?_, fun token htoken => ?_⟩
  · rw [segments_iff_lex, tokenize]
    cases (lex source).error <;> simp
  · rw [segments_iff_lex, tokenize]
    cases (lex source).error with
    | none => simp
    | some e =>
        constructor
        · rintro ⟨⟨span, herror⟩, hlexemes⟩
          cases herror
          exact ⟨hlexemes, rfl⟩
        · rintro ⟨hlexemes, hproblem⟩
          cases hproblem
          exact ⟨⟨e.span, rfl⟩, hlexemes⟩
  · obtain ⟨g, rest, hmunches, _⟩ := Lexed.walk_segments .origin source.toList
    exact hmunches.spells_slice [] rfl token.lexeme (List.mem_map_of_mem htoken)

end TableScript
