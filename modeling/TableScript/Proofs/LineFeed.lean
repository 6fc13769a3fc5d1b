import Mathlib.Data.List.Find
import TableScript.Proofs.Spelling

/-!
Lexing at a line feed. No token goes on over one, and a line feed brings the column back to zero; so the
tokens of two texts with a line feed between them are those of the first, and then those of the second
at later places.
-/

namespace TableScript

/-! ### Pieces before a line feed -/

section Pieces

variable (cs tail : List Char)

theorem takeWhile_lineFeed {p : Char → Bool} (hp : p '\n' = false) :
    (cs ++ '\n' :: tail).takeWhile p = cs.takeWhile p := by
  induction cs with
  | nil => simp [hp]
  | cons c cs ih =>
      rw [List.cons_append, List.takeWhile_cons, List.takeWhile_cons, ih]

theorem isPrefixOf_lineFeed {s : List Char} (hs : '\n' ∉ s) :
    s.isPrefixOf (cs ++ '\n' :: tail) = s.isPrefixOf cs := by
  induction s generalizing cs with
  | nil => simp
  | cons d s ih =>
      simp only [List.mem_cons, not_or] at hs
      cases cs with
      | nil => simp [List.isPrefixOf, Ne.symm hs.1]
      | cons c cs => rw [List.cons_append, List.isPrefixOf, List.isPrefixOf, ih cs hs.2]

namespace Piece

theorem word_lineFeed : word (cs ++ '\n' :: tail) = word cs := by
  rw [word, word, takeWhile_lineFeed cs tail (by decide)]

theorem fraction_lineFeed : fraction (cs ++ '\n' :: tail) = fraction cs := by
  cases cs with
  | nil => rfl
  | cons c cs =>
      by_cases hpoint : c = '.'
      · subst hpoint
        rw [List.cons_append, fraction, fraction, takeWhile_lineFeed cs tail (by decide)]
      · simp [fraction, hpoint]

theorem sign_lineFeed : sign (cs ++ '\n' :: tail) = sign cs := by
  cases cs with
  | nil => rfl
  | cons c cs =>
      rw [List.cons_append]
      unfold sign
      split <;> simp_all

theorem length_sign_le : (sign cs).length ≤ cs.length := by
  unfold sign
  split <;> simp

theorem exponent_lineFeed : exponent (cs ++ '\n' :: tail) = exponent cs := by
  cases cs with
  | nil => simp [exponent]
  | cons c cs =>
      have hdigits : ((cs ++ '\n' :: tail).drop (sign cs).length).takeWhile Char.isDigit =
          (cs.drop (sign cs).length).takeWhile Char.isDigit := by
        rw [List.drop_append_of_le_length (length_sign_le cs), takeWhile_lineFeed _ tail (by decide)]
      simp only [List.cons_append, exponent, sign_lineFeed, hdigits]

theorem length_fraction_le : (fraction cs).length ≤ cs.length := by
  cases cs with
  | nil => simp [fraction]
  | cons c cs =>
      unfold fraction
      split
      next digits heq =>
        cases heq
        split
        · simp
        · simpa using (List.takeWhile_prefix _).length_le
      next => simp

theorem number_lineFeed : number (cs ++ '\n' :: tail) = number cs := by
  have hwhole : (cs.takeWhile Char.isDigit).length ≤ cs.length := (List.takeWhile_prefix _).length_le
  have hfraction := length_fraction_le (cs.drop (cs.takeWhile Char.isDigit).length)
  rw [List.length_drop] at hfraction
  simp only [number]
  rw [takeWhile_lineFeed cs tail (by decide), List.drop_append_of_le_length hwhole,
    fraction_lineFeed, List.drop_append_of_le_length (by omega), exponent_lineFeed]

theorem mark_lineFeed (c : Char) : mark c (cs ++ '\n' :: tail) = mark c cs := by
  have hmarks : ∀ entry ∈ marks, '\n' ∉ entry.1 := by decide
  have hfind : marks.find? (fun entry => entry.1.isPrefixOf (c :: (cs ++ '\n' :: tail))) =
      marks.find? fun entry => entry.1.isPrefixOf (c :: cs) :=
    List.find?_congr fun entry hentry => isPrefixOf_lineFeed (c :: cs) tail (hmarks entry hentry)
  rw [mark, mark, hfind]

/-- A string that is closed does not go on over the end of its line. -/
theorem stringTail_lineFeed (h : ∀ problem n, stringTail [] 1 cs ≠ .error problem n) :
    stringTail [] 1 (cs ++ '\n' :: tail) = stringTail [] 1 cs := by
  rcases string_cases cs with ⟨body, text, rest, rfl, hbody, -⟩ | ⟨problem, n, herror, -⟩
  · rw [List.append_cons body '"' rest, List.append_assoc, stringTail_closed hbody, stringTail_closed hbody]
  · exact absurd herror (h problem n)

/-- What a text starts with is the same when a line feed follows the text, errors apart. -/
theorem first_lineFeed (c : Char) (h : ∀ problem n, first c cs ≠ .error problem n) :
    first c (cs ++ '\n' :: tail) = first c cs := by
  rw [first] at h
  rw [first, first]
  by_cases hblank : isBlank c
  · rw [if_pos hblank, if_pos hblank]
  rw [if_neg hblank] at h ⊢
  rw [if_neg hblank]
  by_cases hcomment : c = '#'
  · rw [if_pos hcomment, if_pos hcomment, ← List.cons_append,
      takeWhile_lineFeed (c :: cs) tail (by decide)]
  rw [if_neg hcomment] at h ⊢
  rw [if_neg hcomment]
  by_cases hquote : c = '"'
  · rw [if_pos hquote] at h ⊢
    rw [if_pos hquote, stringTail_lineFeed cs tail h]
  rw [if_neg hquote, if_neg hquote, ← List.cons_append, word_lineFeed, number_lineFeed, mark_lineFeed]

/-- A piece of a text is no longer than the text. -/
theorem length_gap_le {c : Char} {n : Nat} (h : first c cs = .gap n) : n ≤ cs.length + 1 := by
  rcases first_cases c cs with ⟨-, hfirst⟩ | ⟨-, hfirst⟩ | ⟨s, rest, word, -, -, hfirst⟩ |
    ⟨problem, length, hfirst, -⟩
  · cases h.symm.trans hfirst
    exact Nat.le_add_left 1 _
  · cases h.symm.trans hfirst
    exact Nat.succ_le_succ (List.takeWhile_prefix _).length_le
  · cases h.symm.trans hfirst
  · cases h.symm.trans hfirst

theorem length_token_le {c : Char} {kind : Kind} {text : Option String} {n : Nat}
    (h : first c cs = .token kind text n) : n ≤ cs.length + 1 := by
  rcases first_cases c cs with ⟨-, hfirst⟩ | ⟨-, hfirst⟩ | ⟨s, rest, word, heq, -, hfirst⟩ |
    ⟨problem, length, hfirst, -⟩
  · cases h.symm.trans hfirst
  · cases h.symm.trans hfirst
  · cases h.symm.trans hfirst
    have hlength := congrArg List.length heq
    rw [List.length_cons, List.length_append] at hlength
    omega
  · cases h.symm.trans hfirst

end Piece

end Pieces

/-! ### Positions -/

namespace Position

/-- The point after some characters with nothing behind them. -/
def after : Position → List Char → Position
  | p, [] => p
  | p, c :: cs => (p.advance c cs).after cs

/-- What follows matters for a carriage return only, and there only its first character. -/
theorem advance_congr (p : Position) (c : Char) {rest rest' : List Char}
    (h : rest.head? = rest'.head?) : p.advance c rest = p.advance c rest' := by
  cases rest with
  | nil =>
      obtain rfl : rest' = [] := List.head?_eq_none_iff.1 h.symm
      rfl
  | cons d rest =>
      obtain ⟨rest', rfl⟩ := List.head?_eq_some_iff.1 h.symm
      by_cases hd : d = '\n'
      · subst hd
        unfold advance
        split <;> simp_all
      · unfold advance
        split <;> simp_all

theorem line_le_advance (p : Position) (c : Char) (rest : List Char) :
    p.line ≤ (p.advance c rest).line := by
  unfold advance
  split <;> simp

/-- After a line feed a new line begins. -/
theorem line_lt_after (p : Position) (cs : List Char) : p.line < (p.after (cs ++ ['\n'])).line := by
  induction cs generalizing p with
  | nil => exact Nat.lt_succ_self p.line
  | cons c cs ih => exact Nat.lt_of_le_of_lt (line_le_advance p c _) (ih _)

theorem column_after (p : Position) (cs : List Char) : (p.after (cs ++ ['\n'])).column = 0 := by
  induction cs generalizing p with
  | nil => rfl
  | cons c cs ih => exact ih _

/-- A point further on by the given numbers of characters and lines, in the same column. -/
def shift (n m : Nat) (p : Position) : Position :=
  ⟨p.offset + n, p.line + m, p.column⟩

theorem advance_shift (n m : Nat) (p : Position) (c : Char) (rest : List Char) :
    (p.shift n m).advance c rest = (p.advance c rest).shift n m := by
  unfold advance shift
  split <;> simp [Nat.add_right_comm]

theorem eq_shift {p : Position} (h : p.column = 0) : p = origin.shift p.offset p.line := by
  cases p
  cases h
  simp [shift, origin]

end Position

/-- A token further on by the given numbers of characters and lines. -/
def Token.shift (n m : Nat) (token : Token) : Token :=
  { token with span := ⟨token.span.start + n, token.span.stop + n, token.span.line + m,
      token.span.column⟩ }

/-! ### The walk over a line feed -/

namespace Lexed

variable {skip : Nat} {p : Position} {cs : List Char}

/-- Where a walk starts in its text does not matter but for the places. -/
theorem walk_shift (n m skip : Nat) (p : Position) (cs : List Char) :
    (walk skip (p.shift n m) cs).tokens = (walk skip p cs).tokens.map (Token.shift n m) ∧
      ((walk skip (p.shift n m) cs).error = none ↔ (walk skip p cs).error = none) := by
  induction cs generalizing skip p with
  | nil => cases skip <;> exact ⟨rfl, Iff.rfl⟩
  | cons c cs ih =>
      cases skip with
      | succ skip =>
          rw [walk, walk, Position.advance_shift]
          exact ih skip _
      | zero =>
          rw [walk, walk, Position.advance_shift]
          cases Piece.first c cs with
          | gap length => exact ih _ _
          | token kind text length =>
              obtain ⟨htokens, herror⟩ := ih (length - 1) (p.advance c cs)
              refine ⟨?_, herror⟩
              have hspan : (p.shift n m).span length = (Token.shift n m ⟨kind, text, p.span length⟩).span := by
                simp [Position.shift, Position.span, Token.shift, Nat.add_right_comm]
              simp only [htokens, hspan, List.map_cons]
              rfl
          | error problem length => exact ⟨rfl, by simp⟩

/-- Where a carriage return leads depends on the line feed after it, but then no token is left. -/
theorem walk_advance (skip : Nat) (p : Position) (c : Char) (cs tail : List Char) :
    walk skip (p.advance c cs) cs = walk skip (p.advance c (cs ++ tail)) cs := by
  cases cs with
  | nil => cases skip <;> rfl
  | cons d cs =>
      have hadvance : p.advance c (d :: cs) = p.advance c (d :: cs ++ tail) := p.advance_congr c rfl
      rw [hadvance]

/-- A walk that meets no error before a line feed goes on after it on a new line. -/
theorem walk_lineFeed (tail : List Char) (hskip : skip ≤ cs.length)
    (herror : (walk skip p cs).error = none) :
    (walk skip p (cs ++ '\n' :: tail)).tokens =
        (walk skip p cs).tokens ++ (walk 0 (p.after (cs ++ ['\n'])) tail).tokens ∧
      (walk skip p (cs ++ '\n' :: tail)).error = (walk 0 (p.after (cs ++ ['\n'])) tail).error ∧
      ∀ token ∈ (walk skip p cs).tokens, token.span.line < (p.after (cs ++ ['\n'])).line := by
  induction cs generalizing skip p with
  | nil =>
      obtain rfl : skip = 0 := Nat.le_zero.1 hskip
      have hfirst : Piece.first '\n' tail = .gap 1 := by rw [Piece.first, if_pos (by decide)]
      have hwalk : walk 0 p ('\n' :: tail) = walk 0 (p.after ['\n']) tail := by
        rw [walk, hfirst]
        rfl
      rw [List.nil_append, List.nil_append, hwalk]
      exact ⟨rfl, rfl, by simp [walk]⟩
  | cons c cs ih =>
      have hadvance : p.advance c (cs ++ '\n' :: tail) = p.advance c (cs ++ ['\n']) :=
        p.advance_congr c (by cases cs <;> rfl)
      have hafter : p.after (c :: cs ++ ['\n']) = (p.advance c (cs ++ ['\n'])).after (cs ++ ['\n']) :=
        rfl
      rw [List.cons_append, hafter]
      cases skip with
      | succ skip =>
          rw [walk, walk_advance skip p c cs ['\n']] at herror
          rw [walk, walk, walk_advance skip p c cs ['\n'], hadvance]
          exact ih (Nat.le_of_succ_le_succ hskip) herror
      | zero =>
          have hsound : ∀ problem n, Piece.first c cs ≠ .error problem n := by
            intro problem n hfirst
            rw [walk, hfirst] at herror
            cases herror
          rw [walk] at herror
          rw [walk, walk, Piece.first_lineFeed cs tail c hsound, hadvance]
          cases hfirst : Piece.first c cs with
          | gap n =>
              have hlength : n - 1 ≤ cs.length := by
                have := Piece.length_gap_le cs hfirst
                omega
              simp only [hfirst, walk_advance _ p c cs ['\n']] at herror ⊢
              exact ih hlength herror
          | token kind text n =>
              have hlength : n - 1 ≤ cs.length := by
                have := Piece.length_token_le cs hfirst
                omega
              simp only [hfirst, walk_advance _ p c cs ['\n']] at herror ⊢
              obtain ⟨htokens, herror', hlines⟩ := ih hlength herror
              refine ⟨by rw [htokens, List.cons_append], herror', ?_⟩
              rw [List.forall_mem_cons]
              refine ⟨?_, hlines⟩
              exact hafter ▸ p.line_lt_after (c :: cs)
          | error problem n => exact absurd hfirst (hsound problem n)

end Lexed

theorem tokenize_eq_ok_iff {source : String} {tokens : List Token} :
    tokenize source = .ok tokens ↔ (lex source).error = none ∧ (lex source).tokens = tokens := by
  rw [tokenize]
  cases (lex source).error <;> simp

/-- A text without error, then a line feed and another text: the second is read as it is read alone, but
from the place after the line feed on. -/
theorem lex_lineFeed {first : String} (second : String) {q : Position}
    (hq : Position.origin.after (first.toList ++ ['\n']) = q) (herror : (lex first).error = none) :
    (lex (first ++ "\n" ++ second)).tokens =
        (lex first).tokens ++ (lex second).tokens.map (Token.shift q.offset q.line) ∧
      ((lex (first ++ "\n" ++ second)).error = none ↔ (lex second).error = none) ∧
      ∀ token ∈ (lex first).tokens, token.span.line < q.line := by
  have hchars : (first ++ "\n" ++ second).toList = first.toList ++ '\n' :: second.toList := by simp
  obtain ⟨htokens, hrest, hlines⟩ :=
    Lexed.walk_lineFeed (p := .origin) second.toList (Nat.zero_le _) herror
  rw [hq] at htokens hrest hlines
  -- the line feed brings the column back to zero, so the second text is read from its own beginning
  have hcolumn : q.column = 0 := hq ▸ Position.column_after _ _
  obtain ⟨hshifted, hsound⟩ := Lexed.walk_shift q.offset q.line 0 .origin second.toList
  rw [← Position.eq_shift hcolumn] at hshifted hsound
  refine ⟨?_, ?_, hlines⟩
  · rw [lex, hchars, Lexed.ofChars, htokens, hshifted]
    rfl
  · rw [lex, hchars, Lexed.ofChars, hrest]
    exact hsound

/-- The tokens of two texts with a line feed between them: those of the second stand on later lines than
all of the first. -/
theorem tokenize_lineFeed {first second : String} {tokens tokens' : List Token}
    (hfirst : tokenize first = .ok tokens) (hsecond : tokenize second = .ok tokens') :
    ∃ n m, tokenize (first ++ "\n" ++ second) = .ok (tokens ++ tokens'.map (Token.shift n m)) ∧
      ∀ token ∈ tokens, token.span.line < m := by
  obtain ⟨herror, rfl⟩ := tokenize_eq_ok_iff.1 hfirst
  obtain ⟨herror', rfl⟩ := tokenize_eq_ok_iff.1 hsecond
  obtain ⟨htokens, hsound, hlines⟩ := lex_lineFeed second rfl herror
  exact ⟨_, _, tokenize_eq_ok_iff.2 ⟨hsound.2 herror', htokens⟩, hlines⟩

end TableScript
