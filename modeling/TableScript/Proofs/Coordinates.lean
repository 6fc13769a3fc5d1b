import Mathlib.Data.List.DropRight
import TableScript.Proofs.LineFeed
import TableScript.Proofs.Segmentation

/-!
Where tokens stand in their text. The lexer counts characters, lines and columns while it goes
along; here lines and columns are read off the text before a token instead. A carriage return is
counted only when it is known what follows it, so between it and a line feed the count is behind,
but no token begins there.
-/

namespace TableScript

/-! ### Lines and columns of a text -/

/-- The characters that end a line. -/
def isLineEnd (c : Char) : Bool :=
  c = '\r' || c = '\n'

/-- How many lines end in a text. A carriage return and the line feed after it end one line
together. -/
def lineEnds : List Char → Nat
  | [] => 0
  | '\r' :: '\n' :: cs => lineEnds cs + 1
  | '\r' :: cs => lineEnds cs + 1
  | '\n' :: cs => lineEnds cs + 1
  | _ :: cs => lineEnds cs

/-- What stands after the last end of a line. -/
def openLine (cs : List Char) : List Char :=
  cs.rtakeWhile (!isLineEnd ·)

/-- A span lies in a text, is not empty, and says on which line and in which column it begins. -/
structure Span.Exact (source : List Char) (span : Span) : Prop where
  nonempty : span.start < span.stop
  inside : span.stop ≤ source.length
  line : span.line = lineEnds (source.take span.start)
  column : span.column = (openLine (source.take span.start)).length

/-- The spans of the tokens, and then the span of the error. -/
def Lexed.spans (lexed : Lexed) : List Span :=
  lexed.tokens.map (·.span) ++ lexed.error.toList.map (·.span)

theorem isLineEnd_eq_false {c : Char} : isLineEnd c = false ↔ c ≠ '\r' ∧ c ≠ '\n' := by
  simp [isLineEnd]

/-- A character that ends no line leaves the lines as they are. -/
theorem lineEnds_cons {c : Char} (hc : isLineEnd c = false) (cs : List Char) :
    lineEnds (c :: cs) = lineEnds cs := by
  obtain ⟨hreturn, hfeed⟩ := isLineEnd_eq_false.1 hc
  rw [lineEnds]
  · exact fun _ heq _ => hreturn heq
  · exact hreturn
  · exact hfeed

theorem head?_ne_lineFeed {cs : List Char} (h : ∀ c ∈ cs, isLineEnd c = false) {rest : List Char}
    (hrest : rest.head? ≠ some '\n') : (cs ++ rest).head? ≠ some '\n' := by
  cases cs with
  | nil => exact hrest
  | cons c cs =>
      rintro hhead
      cases hhead
      exact absurd (h '\n' List.mem_cons_self) (by decide)

/-- The lines that are closed in a text, and then the one that is open. -/
theorem exists_closed (cs : List Char) : ∃ closed, cs = closed ++ openLine cs ∧
    (∀ c ∈ openLine cs, isLineEnd c = false) ∧
    (closed = [] ∨ ∃ front c, closed = front ++ [c] ∧ isLineEnd c = true) := by
  refine ⟨cs.rdropWhile (!isLineEnd ·), List.rdropWhile_append_rtakeWhile.symm, fun c hc => ?_, ?_⟩
  · simpa using List.mem_rtakeWhile_imp hc
  · by_cases hnil : cs.rdropWhile (!isLineEnd ·) = []
    · exact .inl hnil
    · refine .inr ⟨_, _, (List.dropLast_append_getLast hnil).symm, ?_⟩
      simpa using List.rdropWhile_last_not _ cs hnil

/-! ### Positions in a text -/

namespace Position

/-- The point after some characters that are followed by others. -/
def through : Position → List Char → List Char → Position
  | p, [], _ => p
  | p, c :: cs, rest => (p.advance c (cs ++ rest)).through cs rest

theorem through_append (p : Position) (first second rest : List Char) :
    p.through (first ++ second) rest = (p.through first (second ++ rest)).through second rest := by
  induction first generalizing p with
  | nil => rfl
  | cons c first ih =>
      rw [List.cons_append, through, through, List.append_assoc]
      exact ih _

theorem offset_through (p : Position) (cs rest : List Char) :
    (p.through cs rest).offset = p.offset + cs.length := by
  induction cs generalizing p with
  | nil => rfl
  | cons c cs ih =>
      rw [through, ih, offset_advance, List.length_cons]
      omega

theorem advance_of_not_lineEnd (p : Position) {c : Char} (hc : isLineEnd c = false)
    (rest : List Char) : p.advance c rest = ⟨p.offset + 1, p.line, p.column + 1⟩ := by
  obtain ⟨hreturn, hfeed⟩ := isLineEnd_eq_false.1 hc
  unfold advance
  split <;> simp_all

/-- The end of a line, unless a line feed is still to come. -/
theorem advance_of_lineEnd (p : Position) {c : Char} (hc : isLineEnd c = true) {rest : List Char}
    (hrest : rest.head? ≠ some '\n') : p.advance c rest = ⟨p.offset + 1, p.line + 1, 0⟩ := by
  have hcases : c = '\r' ∨ c = '\n' := by simpa [isLineEnd] using hc
  unfold advance
  split <;> simp_all

/-- Along the rest of a line only the column moves. -/
theorem column_through_line (p : Position) {cs : List Char} (h : ∀ c ∈ cs, isLineEnd c = false)
    (rest : List Char) : (p.through cs rest).column = p.column + cs.length := by
  induction cs generalizing p with
  | nil => rfl
  | cons c cs ih =>
      rw [List.forall_mem_cons] at h
      rw [through, ih _ h.2, advance_of_not_lineEnd p h.1, List.length_cons]
      exact Nat.add_right_comm _ _ _

theorem line_through (p : Position) (cs : List Char) {rest : List Char}
    (hrest : rest.head? ≠ some '\n') : (p.through cs rest).line = p.line + lineEnds cs := by
  fun_induction lineEnds cs generalizing p with
  | case1 => rfl
  | case2 cs ih =>
      rw [through, through, ih]
      exact Nat.add_right_comm _ _ _
  | case3 cs hcs ih =>
      have hnext : (cs ++ rest).head? ≠ some '\n' := by
        cases cs with
        | nil => exact hrest
        | cons c cs =>
            rintro hhead
            cases hhead
            exact hcs cs rfl
      rw [through, ih, advance_of_lineEnd p (by decide) hnext]
      exact Nat.add_right_comm _ _ _
  | case4 cs ih =>
      rw [through, ih]
      exact Nat.add_right_comm _ _ _
  | case5 c cs _ hreturn hfeed ih =>
      rw [through, ih, advance_of_not_lineEnd p (isLineEnd_eq_false.2 ⟨hreturn, hfeed⟩)]

/-- The column is counted from the last end of a line. -/
theorem column_through (cs : List Char) {rest : List Char} (hrest : rest.head? ≠ some '\n') :
    (origin.through cs rest).column = (openLine cs).length := by
  obtain ⟨closed, hcs, hopen, hclosed⟩ := exists_closed cs
  generalize openLine cs = line at hcs hopen
  subst hcs
  rw [through_append, column_through_line _ hopen, Nat.add_eq_right]
  rcases hclosed with rfl | ⟨front, c, rfl, hc⟩
  · rfl
  · rw [through_append, through, through, List.nil_append,
      advance_of_lineEnd _ hc (head?_ne_lineFeed hopen hrest)]

/-- Where no line feed follows, a position is what can be read off the text before. -/
theorem through_origin (before : List Char) {rest : List Char} (hrest : rest.head? ≠ some '\n') :
    origin.through before rest = ⟨before.length, lineEnds before, (openLine before).length⟩ := by
  have hoffset : (origin.through before rest).offset = before.length :=
    (offset_through origin before rest).trans (Nat.zero_add _)
  have hline : (origin.through before rest).line = lineEnds before :=
    (line_through origin before hrest).trans (Nat.zero_add _)
  rw [← hoffset, ← hline, ← column_through before hrest]

end Position

/-! ### How long pieces are -/

namespace Piece

theorem length_exponent_le (cs : List Char) : (exponent cs).1.length ≤ cs.length := by
  cases cs with
  | nil => simp [exponent]
  | cons mark cs =>
      have hsign := length_sign_le cs
      have hdigits : ((cs.drop (sign cs).length).takeWhile Char.isDigit).length ≤
          (cs.drop (sign cs).length).length := (List.takeWhile_prefix _).length_le
      rw [List.length_drop] at hdigits
      by_cases hmark : mark = 'e' ∨ mark = 'E'
      · simp only [exponent, if_pos hmark, List.length_cons, List.length_append]
        omega
      · simp [exponent, hmark]

theorem length_number_le (cs : List Char) : (number cs).length ≤ cs.length := by
  have hwhole : (cs.takeWhile Char.isDigit).length ≤ cs.length :=
    (List.takeWhile_prefix _).length_le
  have hfraction := length_fraction_le (cs.drop (cs.takeWhile Char.isDigit).length)
  have hexponent := length_exponent_le (cs.drop ((cs.takeWhile Char.isDigit).length +
    (fraction (cs.drop (cs.takeWhile Char.isDigit).length)).length))
  rw [List.length_drop] at hfraction hexponent
  rw [length_number]
  omega

/-- A string ends no sooner than it is read, and not behind the text. -/
theorem length_stringTail (read : List Char) (n : Nat) (cs : List Char) :
    n ≤ (stringTail read n cs).length ∧ (stringTail read n cs).length ≤ n + cs.length := by
  fun_induction stringTail read n cs <;>
    simp_all only [length, List.length_cons, List.length_nil] <;> omega

/-- An error takes a character at least, and no more than there are. -/
theorem length_error {c : Char} {cs : List Char} {problem : LexicalProblem} {n : Nat}
    (h : first c cs = .error problem n) : 0 < n ∧ n ≤ cs.length + 1 := by
  unfold first at h
  split at h
  · cases h
  split at h
  · cases h
  split at h
  next hblank hcomment hquote =>
    have hstring := length_stringTail [] 1 cs
    rw [h, length] at hstring
    omega
  split at h
  next hname =>
    obtain ⟨_, _, _, _, _, hword⟩ := word_cases hname cs
    cases h.symm.trans hword
  split at h
  next hdigit =>
    have hle := length_number_le (c :: cs)
    have hpos : 0 < (number (c :: cs)).length := by
      rw [length_number, List.takeWhile_cons, if_pos hdigit, List.length_cons]
      omega
    rw [h, length] at hle hpos
    exact ⟨hpos, hle⟩
  next =>
    rcases mark_cases c cs with ⟨_, _, _, _, hmark, _⟩ | ⟨hmark, _⟩
    · cases h.symm.trans hmark
    · cases h.symm.trans hmark
      omega

/-- A piece takes a character at least, and no more than there are. -/
theorem length_first (c : Char) (cs : List Char) :
    0 < (first c cs).length ∧ (first c cs).length ≤ cs.length + 1 := by
  cases hfirst : first c cs with
  | gap n =>
      refine ⟨?_, length_gap_le cs hfirst⟩
      rcases first_cases c cs with ⟨_, h⟩ | ⟨_, h⟩ | ⟨_, _, _, _, _, h⟩ | ⟨_, _, h, _⟩
      · cases hfirst.symm.trans h
        exact Nat.one_pos
      · cases hfirst.symm.trans h
        exact Nat.succ_pos _
      · cases hfirst.symm.trans h
      · cases hfirst.symm.trans h
  | token kind text n =>
      refine ⟨?_, length_token_le cs hfirst⟩
      rcases first_cases c cs with ⟨_, h⟩ | ⟨_, h⟩ | ⟨s, _, _, _, hspells, h⟩ | ⟨_, _, h, _⟩
      · cases hfirst.symm.trans h
      · cases hfirst.symm.trans h
      · cases hfirst.symm.trans h
        exact List.length_pos_iff.2 hspells.ne_nil
      · cases hfirst.symm.trans h
  | error problem n => exact length_error hfirst

/-- Only a gap starts with a line feed. -/
theorem head?_ne_of_not_gap {c : Char} {cs : List Char} (h : ∀ n, first c cs ≠ gap n) :
    (c :: cs).head? ≠ some '\n' := by
  intro hhead
  cases hhead
  exact h 1 (if_pos (by decide))

end Piece

/-! ### Spellings -/

theorem isLineEnd_of_not_blank {c : Char} (h : isBlank c = false) : isLineEnd c = false := by
  refine isLineEnd_eq_false.2 ⟨?_, ?_⟩
  · rintro rfl
    revert h
    decide
  · rintro rfl
    revert h
    decide

theorem isLineEnd_of_isDigit {c : Char} (h : c.isDigit) : isLineEnd c = false :=
  isLineEnd_of_not_blank (isBlank_of_isNamePart (isDigit_name h).2)

open Spelling

theorem Spelling.Numeral.not_lineEnd {s : List Char} (h : Numeral s) :
    ∀ c ∈ s, isLineEnd c = false := by
  obtain ⟨hwhole, hfraction, hexponent⟩ := h
  intro c hc
  rw [List.mem_append, List.mem_append] at hc
  rcases hc with hc | hc | hc
  · exact isLineEnd_of_isDigit (hwhole.2 c hc)
  · cases hfraction with
    | none => cases hc
    | some hdigits =>
        rcases List.mem_cons.1 hc with rfl | hc
        · decide
        · exact isLineEnd_of_isDigit (hdigits.2 c hc)
  · cases hexponent with
    | none => cases hc
    | some hmark hsign hdigits =>
        rcases List.mem_cons.1 hc with rfl | hc
        · have hcases : c = 'e' ∨ c = 'E' := by simpa [isExponentMark] using hmark
          rcases hcases with rfl | rfl <;> decide
        · rcases List.mem_append.1 hc with hc | hc
          · cases hsign with
            | none => cases hc
            | some hsign =>
                cases List.mem_singleton.1 hc
                have hcases : c = '+' ∨ c = '-' := by simpa [isSign] using hsign
                rcases hcases with rfl | rfl <;> decide
          · exact isLineEnd_of_isDigit (hdigits.2 c hc)

theorem Spelling.StringBody.not_lineEnd {cs text : List Char} (h : StringBody cs text) :
    ∀ c ∈ cs, isLineEnd c = false := by
  induction h with
  | nil => simp
  | plain hplain _ ih =>
      refine List.forall_mem_cons.2 ⟨?_, ih⟩
      simp_all [isPlain, isLineEnd]
  | escape hescape _ ih =>
      refine List.forall_mem_cons.2 ⟨by decide, List.forall_mem_cons.2 ⟨?_, ih⟩⟩
      cases hescape <;> decide

/-- No spelling of a token goes over the end of a line. -/
theorem Spells.not_lineEnd {s : List Char} {word : Word} (h : Spells s word) :
    ∀ c ∈ s, isLineEnd c = false := by
  intro c hc
  cases h with
  | name hname => exact isLineEnd_of_not_blank (isBlank_of_isNamePart (hname.2 c hc))
  | number hnumeral => exact hnumeral.not_lineEnd c hc
  | string hbody =>
      rw [List.mem_cons, List.mem_append, List.mem_singleton] at hc
      rcases hc with rfl | hc | rfl
      · decide
      · exact hbody.not_lineEnd c hc
      · decide
  | keyword keyword =>
      exact isLineEnd_of_not_blank (isBlank_of_isNamePart ((Piece.name_keyword keyword).2 c hc))
  | symbol mark =>
      exact isLineEnd_of_not_blank (Piece.marks_apart (Piece.symbol_mem_marks mark) hc).2.1
  | bang =>
      cases List.mem_singleton.1 hc
      decide

theorem lineEnds_eq_zero {cs : List Char} (h : ∀ c ∈ cs, isLineEnd c = false) :
    lineEnds cs = 0 := by
  induction cs with
  | nil => rfl
  | cons c cs ih =>
      rw [List.forall_mem_cons] at h
      rw [lineEnds_cons h.1, ih h.2]

/-- Characters that end no line, after a text, add no line to it. -/
theorem lineEnds_append (before : List Char) {cs : List Char} (h : ∀ c ∈ cs, isLineEnd c = false) :
    lineEnds (before ++ cs) = lineEnds before := by
  have hnil : ([] : List Char).head? ≠ some '\n' := by simp
  have hall := Position.line_through .origin (before ++ cs) hnil
  rw [Position.through_append, Position.line_through _ cs hnil,
    Position.line_through _ before (head?_ne_lineFeed h hnil), lineEnds_eq_zero h] at hall
  exact (Nat.add_left_cancel hall).symm

/-! ### The walk -/

/-- A span that starts where a position stands, which no line feed follows. -/
theorem Position.exact_span (before : List Char) {rest : List Char}
    (hrest : rest.head? ≠ some '\n') {n : Nat} (hpos : 0 < n) (hle : n ≤ rest.length) :
    ((origin.through before rest).span n).Exact (before ++ rest) := by
  have htake : (before ++ rest).take before.length = before := List.take_left
  rw [through_origin before hrest]
  refine ⟨Nat.lt_add_of_pos_right hpos, ?_, ?_, ?_⟩
  · rw [List.length_append]
    exact Nat.add_le_add_left hle _
  · exact congrArg lineEnds htake.symm
  · exact congrArg (fun cs => (openLine cs).length) htake.symm

namespace Lexed

/-- The spans of a lexed text, from the offset `n` on: each is exact, and they follow each other. -/
structure Placed (source : List Char) (n : Nat) (lexed : Lexed) : Prop where
  exact : ∀ span ∈ lexed.spans, span.Exact source
  later : ∀ span ∈ lexed.spans, n ≤ span.start
  apart : lexed.spans.Pairwise (·.stop ≤ ·.start)

theorem Placed.mono {source : List Char} {m n : Nat} {lexed : Lexed} (h : Placed source n lexed)
    (hle : m ≤ n) : Placed source m lexed :=
  ⟨h.exact, fun span hspan => Nat.le_trans hle (h.later span hspan), h.apart⟩

theorem Placed.cons {source : List Char} (token : Token) {lexed : Lexed}
    (hspan : token.span.Exact source) (h : Placed source token.span.stop lexed) :
    Placed source token.span.start ⟨token :: lexed.tokens, lexed.error⟩ := by
  refine ⟨List.forall_mem_cons.2 ⟨hspan, h.exact⟩, List.forall_mem_cons.2 ⟨Nat.le_refl _, ?_⟩,
    List.pairwise_cons.2 ⟨h.later, h.apart⟩⟩
  exact (h.mono (Nat.le_of_lt hspan.nonempty)).later

theorem Placed.error {source : List Char} {e : LexicalError} (hspan : e.span.Exact source) :
    Placed source e.span.start ⟨[], some e⟩ :=
  ⟨List.forall_mem_singleton.2 hspan, List.forall_mem_singleton.2 (Nat.le_refl _),
    List.pairwise_singleton _ _⟩

theorem walk_over (skipped : List Char) (p : Position) (rest : List Char) :
    walk skipped.length p (skipped ++ rest) = walk 0 (p.through skipped rest) rest := by
  induction skipped generalizing p with
  | nil => rfl
  | cons c skipped ih => exact ih _

/-- After the first of `n` characters the walk has `n - 1` of them to go over. -/
theorem walk_pred (p : Position) {c : Char} {cs : List Char} {n : Nat} (hpos : 0 < n)
    (hle : n ≤ cs.length + 1) :
    walk (n - 1) (p.advance c cs) cs =
      walk 0 (p.through ((c :: cs).take n) ((c :: cs).drop n)) ((c :: cs).drop n) := by
  have hlength : ((c :: cs).take n).length = n := List.length_take_of_le hle
  have hover := walk_over ((c :: cs).take n) p ((c :: cs).drop n)
  rw [List.take_append_drop, hlength] at hover
  obtain ⟨m, rfl⟩ := Nat.exists_eq_succ_of_ne_zero hpos.ne'
  exact hover

/-- The walk over the rest of a text, from where it stands after what came before. -/
theorem walk_placed (before cs : List Char) :
    Placed (before ++ cs) before.length (walk 0 (Position.origin.through before cs) cs) := by
  match cs with
  | [] => exact ⟨by simp [walk, spans], by simp [walk, spans], by simp [walk, spans]⟩
  | c :: cs =>
    obtain ⟨hpos, hle⟩ := Piece.length_first c cs
    generalize hn : (Piece.first c cs).length = n at hpos hle
    -- the walk over what follows the piece
    have hrest := walk_placed (before ++ (c :: cs).take n) ((c :: cs).drop n)
    rw [List.append_assoc, List.take_append_drop, Position.through_append, List.take_append_drop,
      ← walk_pred _ hpos hle, List.length_append, List.length_take_of_le hle] at hrest
    have hoffset : (Position.origin.through before (c :: cs)).offset = before.length :=
      (Position.offset_through _ before _).trans (Nat.zero_add _)
    rw [walk]
    cases hfirst : Piece.first c cs with
    | gap length =>
        rw [hfirst] at hn
        subst hn
        exact hrest.mono (Nat.le_add_right _ _)
    | token kind text length =>
        rw [hfirst] at hn
        subst hn
        have hfeed : (c :: cs).head? ≠ some '\n' := Piece.head?_ne_of_not_gap (by simp [hfirst])
        have hspan := Position.exact_span before hfeed hpos hle
        rw [← hoffset] at hrest ⊢
        exact Placed.cons ⟨kind, text, _⟩ hspan hrest
    | error problem length =>
        rw [hfirst] at hn
        subst hn
        have hfeed : (c :: cs).head? ≠ some '\n' := Piece.head?_ne_of_not_gap (by simp [hfirst])
        have hspan := Position.exact_span before hfeed hpos hle
        rw [← hoffset]
        exact Placed.error (e := ⟨problem, _⟩) hspan
  termination_by cs.length
  decreasing_by
    rw [List.length_drop, List.length_cons]
    omega

end Lexed

/-- The tokens of a text, and the error that ends it, have exact spans, one behind the other; and a
token ends on the line where it starts. -/
theorem lex_spans_exact (source : String) :
    (∀ span ∈ (lex source).spans, span.Exact source.toList) ∧
      (lex source).spans.Pairwise (·.stop ≤ ·.start) ∧
      ∀ token ∈ (lex source).tokens,
        (∀ c ∈ (source.toList.take token.span.stop).drop token.span.start, isLineEnd c = false) ∧
          token.span.line = lineEnds (source.toList.take token.span.stop) := by
  have hplaced : Lexed.Placed source.toList 0 (lex source) := Lexed.walk_placed [] source.toList
  refine ⟨hplaced.exact, hplaced.apart, fun token htoken => ?_⟩
  have hexact : token.span.Exact source.toList :=
    hplaced.exact _ (List.mem_append_left _ (List.mem_map_of_mem htoken))
  have hslice : ∀ c ∈ (source.toList.take token.span.stop).drop token.span.start,
      isLineEnd c = false := by
    obtain ⟨_, _, hmunches, _, _⟩ := Lexed.walk_segments .origin source.toList
    exact (hmunches.spells_slice [] rfl _ (List.mem_map_of_mem htoken)).not_lineEnd
  refine ⟨hslice, ?_⟩
  have hcut : source.toList.take token.span.start ++
      (source.toList.take token.span.stop).drop token.span.start =
      source.toList.take token.span.stop := by
    have hall := List.take_append_drop token.span.start (source.toList.take token.span.stop)
    rwa [List.take_take, Nat.min_eq_left (Nat.le_of_lt hexact.nonempty)] at hall
  rw [hexact.line, ← hcut, lineEnds_append _ hslice]

/-- The word and the open string of two lines that a carriage return and a line feed part. -/
theorem lex_spans_exact_openString :
    (lex "a\r\n\t\"b").spans = [⟨0, 1, 0, 0⟩, ⟨4, 6, 1, 1⟩] ∧
      Span.Exact "a\r\n\t\"b".toList ⟨4, 6, 1, 1⟩ := by
  have hspans : (lex "a\r\n\t\"b").spans = [⟨0, 1, 0, 0⟩, ⟨4, 6, 1, 1⟩] := by rfl
  exact ⟨hspans, (lex_spans_exact "a\r\n\t\"b").1 _ (by simp [hspans])⟩

end TableScript
