import TableScript.Proofs.Segmentation

/-!
Tokens that are written one after another, with blanks or comments between them, are read back as they
were: whatever a string holds, and whatever stands next to a token.
-/

namespace TableScript

open Spelling

/-- A character of a string as it is written: what would end the string or its line, and the
backslash, is escaped. -/
def writtenChar (c : Char) : List Char :=
  if c = '"' then ['\\', '"']
  else if c = '\\' then ['\\', '\\']
  else if c = '\r' then ['\\', 'r']
  else if c = '\n' then ['\\', 'n']
  else [c]

def writtenString (text : List Char) : List Char :=
  '"' :: (text.flatMap writtenChar ++ ['"'])

/-- The tokens that can be written, and their spellings. -/
inductive Written : Word → List Char → Prop where
  | name {text : String} (hname : Name text.toList)
      (hfree : ∀ keyword : Keyword, keyword.spelling ≠ text) :
      Written ⟨.identifier, some text⟩ text.toList
  | number {text : String} (hnumeral : Numeral text.toList) :
      Written ⟨.number, some text⟩ text.toList
  | string (text : String) : Written ⟨.string, some text⟩ (writtenString text.toList)
  | keyword (keyword : Keyword) : Written ⟨.keyword keyword, none⟩ keyword.spelling.toList
  | bang : Written ⟨.keyword .not, none⟩ ['!']
  | symbol (mark : Symbol) : Written ⟨.symbol mark, none⟩ mark.spelling.toList

/-- Blanks, and comments up to and with the line feed that ends them. -/
inductive Filler : List Char → Prop where
  | nil : Filler []
  | blank {c : Char} {g : List Char} (hblank : isBlank c) (hrest : Filler g) : Filler (c :: g)
  | comment {cs g : List Char} (hcomment : ∀ c ∈ cs, c ≠ '\r' ∧ c ≠ '\n') (hrest : Filler g) :
      Filler ('#' :: (cs ++ '\n' :: g))

/-- Tokens as they are written in a row, with some filler between any two. -/
inductive Joined : List Word → List Char → Prop where
  | nil : Joined [] []
  | last {word : Word} {s : List Char} (hword : Written word s) : Joined [word] s
  | next {word other : Word} {words : List Word} {s g rest : List Char} (hword : Written word s)
      (hfiller : Filler g) (hsome : g ≠ []) (hrest : Joined (other :: words) rest) :
      Joined (word :: other :: words) (s ++ (g ++ rest))

/-- A written string reads as what it was written for. -/
theorem stringBody_written (text : List Char) : StringBody (text.flatMap writtenChar) text := by
  induction text with
  | nil => exact .nil
  | cons c text ih =>
      rw [List.flatMap_cons]
      by_cases hquote : c = '"'
      · subst hquote
        exact .escape .quote ih
      by_cases hbackslash : c = '\\'
      · subst hbackslash
        exact .escape .backslash ih
      by_cases hreturn : c = '\r'
      · subst hreturn
        exact .escape .carriageReturn ih
      by_cases hfeed : c = '\n'
      · subst hfeed
        exact .escape .lineFeed ih
      have hwritten : writtenChar c = [c] := by
        simp [writtenChar, hquote, hbackslash, hreturn, hfeed]
      rw [hwritten]
      exact .plain (by simp [isPlain, hquote, hbackslash, hreturn, hfeed]) ih

theorem Written.spells {word : Word} {s : List Char} (h : Written word s) : Spells s word := by
  cases h with
  | @name text hname hfree =>
      have hspells := Spells.name hname fun keyword heq => hfree keyword (String.toList_inj.mp heq)
      rwa [String.ofList_toList] at hspells
  | @number text hnumeral =>
      have hspells := Spells.number hnumeral
      rwa [String.ofList_toList] at hspells
  | string text =>
      have hspells := Spells.string (stringBody_written text.toList)
      rwa [String.ofList_toList] at hspells
  | keyword keyword => exact .keyword keyword
  | bang => exact .bang
  | symbol mark => exact .symbol mark

theorem Filler.gap {g : List Char} (h : Filler g) (rest : List Char) : Gap g rest := by
  induction h with
  | nil => exact .nil
  | blank hblank _ ih => exact .blank hblank ih
  | @comment cs g hcomment _ ih =>
      refine .comment ?_ (clear_cons.mpr rfl) (.blank (by decide) ih)
      intro c hc
      simpa [Piece.isCommentPart] using hcomment c hc

theorem Filler.separated {g : List Char} (h : Filler g) (hsome : g ≠ []) (rest : List Char) :
    Separated (g ++ rest) := by
  cases h with
  | nil => exact absurd rfl hsome
  | blank hblank _ => simp [Separated, hblank]
  | comment _ _ => simp [Separated]

/-- A token that is followed by what separates tokens is cut off as a whole. -/
theorem Segments.of_spells {n : Nat} {s rest : List Char} {word : Word} {lexemes : List Lexeme}
    {problem : Option LexicalProblem} (hspells : Spells s word) (hseparated : Separated rest)
    (h : Segments (n + s.length) rest lexemes problem) :
    Segments n (s ++ rest) (⟨word, n, n + s.length⟩ :: lexemes) problem := by
  cases s with
  | nil => exact absurd rfl hspells.ne_nil
  | cons c s =>
      obtain ⟨hlongest, hsound⟩ := Piece.longest_of_first (Piece.first_of_spells hspells hseparated)
      obtain ⟨g, tail, hmunches, hend⟩ := h
      exact ⟨g, tail, .token .nil hspells hlongest hsound hmunches, hend⟩

theorem Joined.segments {words : List Word} {cs : List Char} (h : Joined words cs) (n : Nat) :
    ∃ lexemes, Segments n cs lexemes none ∧ lexemes.map Lexeme.word = words := by
  have hend : ∀ m, Segments m [] [] none := fun m => ⟨[], [], .done _ _, .nil, rfl⟩
  induction h generalizing n with
  | nil => exact ⟨[], hend n, rfl⟩
  | @last word s hword =>
      have hcut := (hend (n + s.length)).of_spells hword.spells separated_nil
      rw [List.append_nil] at hcut
      exact ⟨_, hcut, rfl⟩
  | @next word other words s g rest hword hfiller hsome _ ih =>
      obtain ⟨lexemes, hrest, hwords⟩ := ih (n + s.length + g.length)
      have hcut := (hrest.of_gap (hfiller.gap rest)).of_spells hword.spells
        (hfiller.separated hsome rest)
      exact ⟨_, hcut, by rw [List.map_cons, hwords]⟩

/-- Tokens that are written in a row are read back, in the same order. -/
theorem tokenize_joined {words : List Word} {source : String} (h : Joined words source.toList) :
    ∃ tokens, tokenize source = .ok tokens ∧ tokens.map Token.word = words := by
  obtain ⟨lexemes, hsegments, hwords⟩ := h.segments 0
  obtain ⟨htokens, herror⟩ := (segments_iff_lex source lexemes none).mp hsegments
  refine ⟨(lex source).tokens, ?_, ?_⟩
  · rw [tokenize, Option.map_eq_none_iff.mp herror]
  · rw [← hwords, ← htokens, List.map_map]
    rfl

/-- Tokens of all classes, next to each other where a missing separator would join them. -/
def sampleWords : List Word :=
  [⟨.identifier, some "été"⟩, ⟨.symbol .assign, none⟩, ⟨.symbol .assign, none⟩,
    ⟨.string, some "\"#\\\r\n"⟩, ⟨.keyword .not, none⟩, ⟨.number, some "1.5e-3"⟩,
    ⟨.keyword .of, none⟩]

theorem tokenize_joined_sampleWords :
    ∃ tokens, tokenize "été\t=# note\n= \"\\\"#\\\\\\r\\n\"#\n! 1.5e-3 of" = .ok tokens ∧
      tokens.map Token.word = sampleWords := by
  refine tokenize_joined ?_
  have hname : Written ⟨.identifier, some "été"⟩ "été".toList :=
    .name (by decide +kernel) (by intro keyword; cases keyword <;> decide)
  have hnumber : Written ⟨.number, some "1.5e-3"⟩ "1.5e-3".toList :=
    .number (.mk (by decide : Digits ['1']) (.some (by decide : Digits ['5']))
      (.some rfl (.some rfl : Sign ['-']) (by decide : Digits ['3'])))
  have hspace : Filler [' '] := .blank (by decide) .nil
  exact .next hname (.blank (by decide) .nil) (by decide) <|
    .next (.symbol .assign) (.comment (by simp : ∀ c ∈ " note".toList, _) .nil) (by decide) <|
    .next (.symbol .assign) hspace (by decide) <|
    .next (.string "\"#\\\r\n") (.comment (by simp : ∀ c ∈ [], _) .nil) (by decide) <|
    .next .bang hspace (by decide) <|
    .next hnumber hspace (by decide) (.last (.keyword .of))

end TableScript
