import TableScript.Proofs.Coordinates

/-!
Texts joined by a line feed. Whatever the first text ends in, a comment, blanks, a carriage return or a
token that could go on, the line feed ends it; and what the first text leaves unfinished stays an error.
So the lexer takes the two texts one by one, and the second is read as it is read alone, only further on.
-/

namespace TableScript

namespace Piece

/-- A string that is left open stays so: no closing quote can follow on the next line. -/
theorem stringTail_lineFeed_error {cs : List Char} {problem : LexicalProblem} {n : Nat}
    (h : stringTail [] 1 cs = .error problem n) (tail : List Char) :
    ∃ problem' n', stringTail [] 1 (cs ++ '\n' :: tail) = .error problem' n' := by
  rcases string_cases (cs ++ '\n' :: tail) with ⟨body, text, rest, heq, hbody, -⟩ | ⟨_, _, herror, -⟩
  · exfalso
    rcases List.append_eq_append_iff.1 heq with ⟨more, hmore, hfeed⟩ | ⟨more, hmore, hquote⟩
    · cases more with
      | nil => cases hfeed
      | cons d more =>
          cases hfeed
          -- the line feed would stand inside the string
          have hmem : '\n' ∈ body := by simp [hmore]
          exact absurd (hbody.not_lineEnd '\n' hmem) (by decide)
    · cases more with
      | nil => cases hquote
      | cons d more =>
          cases hquote
          rw [hmore, List.append_cons, stringTail_closed hbody] at h
          cases h
  · exact ⟨_, _, herror⟩

/-- What is an error at the end of a text is one also when a line feed follows, if not the same. -/
theorem first_lineFeed_error {c : Char} {cs : List Char} {problem : LexicalProblem} {n : Nat}
    (h : first c cs = .error problem n) (tail : List Char) :
    ∃ problem' n', first c (cs ++ '\n' :: tail) = .error problem' n' := by
  rw [first] at h ⊢
  by_cases hblank : isBlank c
  · rw [if_pos hblank] at h
    cases h
  rw [if_neg hblank] at h ⊢
  by_cases hcomment : c = '#'
  · rw [if_pos hcomment] at h
    cases h
  rw [if_neg hcomment] at h ⊢
  by_cases hquote : c = '"'
  · rw [if_pos hquote] at h ⊢
    exact stringTail_lineFeed_error h tail
  rw [if_neg hquote] at h ⊢
  rw [← List.cons_append, word_lineFeed, number_lineFeed, mark_lineFeed]
  exact ⟨problem, n, h⟩

end Piece

namespace Lexed

variable {skip : Nat} {p : Position} {cs : List Char}

/-- A walk that meets an error before a line feed meets one also when the text goes on. -/
theorem walk_lineFeed_error (tail : List Char) (herror : (walk skip p cs).error ≠ none) :
    (walk skip p (cs ++ '\n' :: tail)).error ≠ none := by
  induction cs generalizing skip p with
  | nil =>
      rw [walk] at herror
      exact absurd rfl herror
  | cons c cs ih =>
      rw [List.cons_append]
      cases skip with
      | succ skip =>
          rw [walk, walk_advance skip p c cs ('\n' :: tail)] at herror
          rw [walk]
          exact ih herror
      | zero =>
          rw [walk] at herror ⊢
          cases hfirst : Piece.first c cs with
          | gap n =>
              rw [Piece.first_lineFeed cs tail c (by simp [hfirst])]
              simp only [hfirst, walk_advance _ p c cs ('\n' :: tail)] at herror ⊢
              exact ih herror
          | token kind text n =>
              rw [Piece.first_lineFeed cs tail c (by simp [hfirst])]
              simp only [hfirst, walk_advance _ p c cs ('\n' :: tail)] at herror ⊢
              exact ih herror
          | error problem n =>
              obtain ⟨problem', n', hstill⟩ := Piece.first_lineFeed_error hfirst tail
              rw [hstill]
              simp

end Lexed

theorem Position.after_eq_through (p : Position) (cs : List Char) : p.after cs = p.through cs [] := by
  induction cs generalizing p with
  | nil => rfl
  | cons c cs ih =>
      rw [after, through, List.append_nil]
      exact ih _

/-- Where the second of two texts begins. -/
theorem Position.after_lineFeed (cs : List Char) :
    origin.after (cs ++ ['\n']) = ⟨cs.length + 1, lineEnds (cs ++ ['\n']), 0⟩ := by
  have hplace := after_eq_through origin (cs ++ ['\n'])
  rw [through_origin _ (by simp)] at hplace
  have hcolumn : (openLine (cs ++ ['\n'])).length = 0 := by
    rw [← column_after origin cs, hplace]
  rw [hplace, hcolumn, List.length_append]
  rfl

/-- A text of two parts with a line feed between them has tokens exactly if both parts have. These are
the tokens of the first part, and then those of the second, moved on by the characters and the lines of
the first, in the same columns. -/
theorem tokenize_lineFeed_eq_ok_iff (first second : String) (tokens : List Token) :
    tokenize (first ++ "\n" ++ second) = .ok tokens ↔
      ∃ before behind, tokenize first = .ok before ∧ tokenize second = .ok behind ∧
        tokens = before ++
          behind.map (Token.shift (first.length + 1) (lineEnds (first ++ "\n").toList)) := by
  have hline : (first ++ "\n").toList = first.toList ++ ['\n'] := by simp
  by_cases herror : (lex first).error = none
  · obtain ⟨htokens, hsound, -⟩ := lex_lineFeed second (Position.after_lineFeed first.toList) herror
    rw [← hline, String.length_toList] at htokens
    constructor
    · intro h
      obtain ⟨hnone, rfl⟩ := tokenize_eq_ok_iff.1 h
      exact ⟨_, _, tokenize_eq_ok_iff.2 ⟨herror, rfl⟩, tokenize_eq_ok_iff.2 ⟨hsound.1 hnone, rfl⟩,
        htokens⟩
    · rintro ⟨before, behind, hfirst, hsecond, rfl⟩
      obtain ⟨-, rfl⟩ := tokenize_eq_ok_iff.1 hfirst
      obtain ⟨hnone, rfl⟩ := tokenize_eq_ok_iff.1 hsecond
      exact tokenize_eq_ok_iff.2 ⟨hsound.2 hnone, htokens⟩
  · have hchars : (first ++ "\n" ++ second).toList = first.toList ++ '\n' :: second.toList := by simp
    have hstill : (lex (first ++ "\n" ++ second)).error ≠ none := by
      rw [lex, hchars]
      exact Lexed.walk_lineFeed_error _ herror
    constructor
    · intro h
      exact absurd (tokenize_eq_ok_iff.1 h).1 hstill
    · rintro ⟨before, behind, hfirst, -, -⟩
      exact absurd (tokenize_eq_ok_iff.1 hfirst).1 herror

-- A carriage return at the end of the first text ends its line together with the line feed.
example : tokenize ("a\r" ++ "\n" ++ "# b\n c") =
    .ok [⟨.identifier, some "a", ⟨0, 1, 0, 0⟩⟩, ⟨.identifier, some "c", ⟨8, 9, 2, 1⟩⟩] := by
  rfl

end TableScript
