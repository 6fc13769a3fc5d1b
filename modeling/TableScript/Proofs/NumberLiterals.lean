import TableScript.Proofs.Failures
import TableScript.Proofs.LineFeed
import TableScript.Proofs.Numerals
import TableScript.Proofs.Segmentation

/-!
The numbers of the lexer are numbers to the parser. The lexer scans a numeral by its own rules and
passes its text on; the parser reads the text as a double. What the first accepts the second does not
refuse, so of the tokens of a source no parse says that a number is invalid.
-/

namespace TableScript

open Spelling

/-! ### Numerals read as numbers -/

namespace Number

variable {cs : List Char}

theorem takeSign_append {sign digits : List Char} (hsign : Sign sign) (hdigits : Digits digits) :
    ∃ negative, takeSign (sign ++ digits) = (negative, digits) := by
  cases hsign with
  | some hsign =>
      simp only [isSign, Bool.or_eq_true, decide_eq_true_eq] at hsign
      rcases hsign with rfl | rfl
      · exact ⟨false, rfl⟩
      · exact ⟨true, rfl⟩
  | none =>
      cases digits with
      | nil => exact absurd rfl hdigits.1
      | cons c digits => exact ⟨false, takeSign_digit (hdigits.2 c List.mem_cons_self) digits⟩

theorem exists_exponent (h : Exponent cs) : ∃ e, exponent? cs = some e := by
  cases h with
  | none => exact ⟨0, rfl⟩
  | @some mark sign digits hmark hsign hdigits =>
      have hmark' : mark = 'e' ∨ mark = 'E' := by simpa [isExponentMark] using hmark
      obtain ⟨negative, hsigned⟩ := takeSign_append hsign hdigits
      rw [exponent?, if_pos hmark', hsigned]
      simp only [takeDigits_eq hdigits.2]
      cases digits with
      | nil => exact absurd rfl hdigits.1
      | cons c digits => exact ⟨_, rfl⟩

theorem clear_exponent (h : Exponent cs) : Clear Char.isDigit cs ∧ Clear (· = '.') cs := by
  cases h with
  | none => exact ⟨by simp [Clear], by simp [Clear]⟩
  | some hmark _ _ => exact Piece.clear_of_exponentMark hmark _

theorem takeFraction_exponent {fraction : List Char} (hfraction : Fraction fraction)
    (hexponent : Exponent cs) :
    Clear Char.isDigit (fraction ++ cs) ∧
      ∃ digits, takeFraction (fraction ++ cs) = (digits, cs) := by
  obtain ⟨hdigit, hpoint⟩ := clear_exponent hexponent
  cases hfraction with
  | none =>
      refine ⟨hdigit, [], ?_⟩
      cases cs with
      | nil => rfl
      | cons c cs =>
          have hc : c ≠ '.' := by simpa [Clear] using hpoint
          simp [takeFraction, hc]
  | some hdigits => exact ⟨clear_cons.2 rfl, _, takeDigits_append hdigits.2 hdigit⟩

/-- What the lexer takes for a number is one. -/
theorem exists_ofText?_eq_some (h : Numeral cs) : ∃ x, ofText? (String.ofList cs) = some x := by
  have hhead : ∀ c rest, cs = c :: rest → c.isDigit := fun c rest heq => (heq ▸ h).isDigit_head
  obtain ⟨x, hread⟩ : ∃ x, ofDigits? cs = some x := by
    cases h with
    | mk hwhole hfraction hexponent =>
        obtain ⟨hclear, digits, htake⟩ := takeFraction_exponent hfraction hexponent
        obtain ⟨e, he⟩ := exists_exponent hexponent
        rw [ofDigits?, takeDigits_append hwhole.2 hclear]
        simp only [htake, he, hwhole.1, false_and, ↓reduceIte, Option.map_some]
        exact ⟨_, rfl⟩
  cases cs with
  | nil => cases hread
  | cons c cs =>
      have hdigit := hhead c cs rfl
      rw [ofText?, String.toList_ofList, takeSign_digit hdigit]
      exact ⟨x, by simp [ofName?_digit hdigit, hread]⟩

end Number

/-! ### The texts of tokens -/

/-- Whether tokens of a kind carry a text. -/
def Kind.carriesText : Kind → Bool
  | identifier | number | string => true
  | _ => false

theorem Spells.text_isSome {s : List Char} {word : Word} (h : Spells s word) :
    word.text.isSome = word.kind.carriesText := by
  cases h <;> rfl

theorem Spells.number_reads {s : List Char} {word : Word} (h : Spells s word)
    (hkind : word.kind = .number) : ∃ x, Number.ofText? (word.text.getD "") = some x := by
  cases h with
  | number hnumeral => exact Number.exists_ofText?_eq_some hnumeral
  | _ => cases hkind

theorem exists_spells {source : String} {tokens : List Token} (h : tokenize source = .ok tokens) :
    ∀ token ∈ tokens, ∃ s, Spells s token.word := by
  obtain ⟨-, rfl⟩ := tokenize_eq_ok_iff.1 h
  intro token htoken
  obtain ⟨_, _, hmunches, _⟩ := Lexed.walk_segments .origin source.toList
  exact ⟨_, hmunches.spells_slice [] rfl token.lexeme (List.mem_map_of_mem htoken)⟩

/-! ### Messages -/

/-- Neither text goes on as the other. -/
def Apart (one other : List Char) : Prop :=
  ¬one <+: other ∧ ¬other <+: one

instance (one other : List Char) : Decidable (Apart one other) :=
  inferInstanceAs (Decidable (_ ∧ _))

theorem Apart.append {one : List Char} {text : String} (h : Apart one text.toList) (more : String) :
    Apart one (text ++ more).toList := by
  have htext : text.toList <+: (text ++ more).toList := by
    rw [String.toList_append]
    exact List.prefix_append _ _
  refine ⟨fun hpre => ?_, fun hpre => h.2 (htext.trans hpre)⟩
  rcases List.prefix_or_prefix_of_prefix hpre htext with hpre | hpre
  · exact h.1 hpre
  · exact h.2 hpre

/-- How the message about a number begins. -/
def invalidNumberText : List Char :=
  "Invalid number literal".toList

/-- Most messages begin with another letter. -/
theorem apart_of_head {text : String} {c : Char} {rest : List Char}
    (htext : text = String.ofList (c :: rest)) (hc : c ≠ 'I') :
    Apart invalidNumberText text.toList := by
  rw [htext, String.toList_ofList]
  refine ⟨fun hpre => hc ?_, fun hpre => hc ?_⟩
  · exact (List.cons_prefix_cons.1 hpre).1.symm
  · exact (List.cons_prefix_cons.1 hpre).1

namespace Complaint

theorem within_apart {text : String} (h : Apart invalidNumberText text.toList)
    (construct : Construct) : Apart invalidNumberText (within construct text).toList :=
  ((h.append _).append _).append _

/-- Only the complaint about a number says that a number is invalid. -/
theorem message_apart {complaint : Complaint} (h : complaint.quotes = false) :
    Apart invalidNumberText complaint.message.toList := by
  cases complaint with
  | invalidNumber text => cases h
  | note text => cases h
  | orOperand => exact apart_of_head rfl (by decide)
  | andOperand => exact apart_of_head rfl (by decide)
  | assignTarget => exact within_apart (by decide) _
  | condition keyword construct =>
      exact within_apart (((apart_of_head rfl (by decide)).append keyword).append _) construct
  | _ => exact within_apart (apart_of_head rfl (by decide)) _

end Complaint

theorem SyntaxError.complaintText_apart {complaint : Option Complaint}
    (h : ∀ one ∈ complaint, one.quotes = false) :
    Apart invalidNumberText (complaintText complaint).toList := by
  cases complaint with
  | none => decide
  | some one => exact Complaint.message_apart (h one rfl)

theorem SyntaxError.message_apart {r : Rejection} (h : ∀ one ∈ r.complaint, one.quotes = false) :
    Apart invalidNumberText (SyntaxError.ofRejection r).message.toList := by
  have htext := complaintText_apart h
  rw [ofRejection]
  cases r.span with
  | none => exact htext.append _
  | some span =>
      cases r.wantsMore with
      | true => exact htext.append _
      | false => exact (htext.append _).append _

/-- If each number among some tokens reads as one, then failures quote nothing. -/
theorem failureLaw_quotes {tokens : List Token}
    (h : ∀ token ∈ tokens, token.kind = .number → ∃ x, Number.ofText? token.textD = some x) :
    FailureLaw tokens fun r => ∀ one ∈ r.complaint, one.quotes = false where
  noMatch _ one hone := by cases hone
  number htoken hkind hread := by
    obtain ⟨x, hx⟩ := h _ htoken hkind
    rw [hread] at hx
    cases hx
  final hr := hr
  demanded hr _ := hr
  because {r} hr complaint hcomplaint one hone := by
    rw [Rejection.because] at hone
    cases hgiven : r.complaint with
    | some given =>
        rw [hgiven] at hone
        cases hone
        exact hr _ hgiven
    | none =>
        rw [hgiven] at hone
        cases hone
        exact hcomplaint

/-- Every number of a source reads as a number, so that its tokens may fail to be a program but never
because of a number, be it a value or a key. Names, numbers and strings carry a text and no other
token does. -/
theorem parse_tokens_not_invalidNumber {source : String} {tokens : List Token}
    (h : tokenize source = .ok tokens) :
    (∀ token ∈ tokens, token.kind = .number → ∃ x, Number.ofText? token.textD = some x) ∧
      (∀ e, parse tokens = .error e → ¬invalidNumberText <+: e.message.toList) ∧
      ∀ token ∈ tokens, token.text.isSome = true ↔
        token.kind = .identifier ∨ token.kind = .number ∨ token.kind = .string := by
  have hspells := exists_spells h
  have hreads : ∀ token ∈ tokens, token.kind = .number →
      ∃ x, Number.ofText? token.textD = some x := by
    intro token htoken hkind
    obtain ⟨s, hs⟩ := hspells token htoken
    exact hs.number_reads hkind
  refine ⟨hreads, fun e he => ?_, fun token htoken => ?_⟩
  · rw [parse] at he
    split at he
    next rejection hrun =>
      cases he
      exact (SyntaxError.message_apart (Grammar.program_fails (failureLaw_quotes hreads) hrun)).1
    next found c hrun =>
      split at he
      · cases he
      · cases he
        exact (((((apart_of_head rfl (by decide)).append _).append _).append _).append _).1
  · obtain ⟨s, hs⟩ := hspells token htoken
    have htext : token.text.isSome = token.kind.carriesText := hs.text_isSome
    rw [htext]
    cases token.kind <;> simp [Kind.carriesText]

/-- A table that is left open after a key, which is a number with all its parts. -/
theorem parse_tokens_not_invalidNumber_openTable :
    ∃ brace key e, tokenize "\x7b 01.50E+2" = .ok [brace, key] ∧
      (∃ x, Number.ofText? "01.50E+2" = some x) ∧ parse [brace, key] = .error e ∧
        ¬invalidNumberText <+: e.message.toList ∧ brace.text = none ∧ key.text = some "01.50E+2" := by
  have h : tokenize "\x7b 01.50E+2" = .ok
      [⟨.symbol .leftBrace, none, ⟨0, 1, 0, 0⟩⟩, ⟨.number, some "01.50E+2", ⟨2, 10, 0, 2⟩⟩] := rfl
  obtain ⟨hreads, hparse, -⟩ := parse_tokens_not_invalidNumber h
  have hkey := hreads _ (List.mem_cons_of_mem _ List.mem_cons_self) rfl
  exact ⟨_, _, _, h, hkey, rfl, hparse _ rfl, rfl, rfl⟩

end TableScript
