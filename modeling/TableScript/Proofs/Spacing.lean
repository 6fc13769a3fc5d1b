import TableScript.Proofs.Places

/-!
Spacing. Where the tokens of a program stand does not matter to what they mean: two rows of tokens
with the same words give the same program, or the same error at the same token, as long as they agree
on which opening brackets follow on the line of the token before.
-/

namespace TableScript

/-- Two rows of tokens that have the same kinds and texts at all positions. A bracket that can continue
a value is on the line of the token before it in both rows or in neither. -/
structure SameSpacing (tokens tokens' : List Token) : Prop where
  length_eq : tokens.length = tokens'.length
  word_eq : ∀ (i : Nat) (token token' : Token), tokens[i]? = some token →
    tokens'[i]? = some token' → token.kind = token'.kind ∧ token.text = token'.text
  line_iff : ∀ (i : Nat) (before before' token token' : Token),
    tokens[i]? = some before → tokens'[i]? = some before' →
    tokens[i + 1]? = some token → tokens'[i + 1]? = some token' →
    token.kind = .symbol .leftParen ∨ token.kind = .symbol .leftBracket →
    (before.span.line = token.span.line ↔ before'.span.line = token'.span.line)

/-- The places of the tokens at one position of two rows. -/
def SamePlace (tokens tokens' : List Token) (span span' : Span) : Prop :=
  ∃ (i : Nat) (token token' : Token), tokens[i]? = some token ∧ tokens'[i]? = some token' ∧
    token.span = span ∧ token'.span = span'

/-- The same error, at related places. -/
inductive SyntaxError.Resembles (P : Span → Span → Prop) : SyntaxError → SyntaxError → Prop where
  | invalid {complaint : Option Complaint} {span span' : Span} (h : P span span') :
      Resembles P (.invalid complaint span) (.invalid complaint span')
  | incomplete (complaint : Option Complaint) :
      Resembles P (.incomplete complaint) (.incomplete complaint)
  | unexpectedToken {kind : Kind} {text : Option String} {span span' : Span} (h : P span span') :
      Resembles P (.unexpectedToken ⟨kind, text, span⟩) (.unexpectedToken ⟨kind, text, span'⟩)

/-- The same program, or the same error at related places. -/
inductive SameParse (P : Span → Span → Prop) :
    Except SyntaxError Block → Except SyntaxError Block → Prop where
  | ok (program : Block) : SameParse P (.ok program) (.ok program)
  | error {e e' : SyntaxError} (h : e.Resembles P e') : SameParse P (.error e) (.error e')

variable {P : Span → Span → Prop} {tokens tokens' : List Token}

/-- A row of tokens resembles another one if each token resembles the one at its position. -/
theorem SameSpacing.sameWords {line line' : Option Nat} (h : SameSpacing tokens tokens')
    (hplace : ∀ (i : Nat) (token token' : Token), tokens[i]? = some token →
      tokens'[i]? = some token' → P token.span token'.span)
    (hline : ∀ token token' : Token, tokens[0]? = some token → tokens'[0]? = some token' →
      token.kind = .symbol .leftParen ∨ token.kind = .symbol .leftBracket →
      (line = some token.span.line ↔ line' = some token'.span.line)) :
    SameWords P line tokens line' tokens' := by
  induction tokens generalizing tokens' line line' with
  | nil =>
      obtain rfl : tokens' = [] := List.length_eq_zero_iff.1 h.length_eq.symm
      exact .nil line line'
  | cons token rest ih =>
      cases tokens' with
      | nil => cases h.length_eq
      | cons token' rest' =>
          obtain ⟨hkind, htext⟩ := h.word_eq 0 token token' rfl rfl
          have hrest : SameSpacing rest rest' :=
            { length_eq := Nat.succ.inj h.length_eq
              word_eq := fun i => h.word_eq (i + 1)
              line_iff := fun i => h.line_iff (i + 1) }
          refine .cons ?_ (hplace 0 token token' rfl rfl) (hline token token' rfl rfl) ?_
          · rw [Token.word, Token.word, hkind, htext]
          · refine ih hrest (fun i => hplace (i + 1)) fun next next' hnext hnext' hbracket => ?_
            have hlines := h.line_iff 0 token token' next next' rfl rfl hnext hnext' hbracket
            simpa using hlines

theorem SyntaxError.resembles_ofRejection {r s : Rejection} (h : r.Resembles P s) :
    (ofRejection r).Resembles P (ofRejection s) := by
  obtain ⟨wantsMore, committed, complaint, span⟩ := r
  obtain ⟨wantsMore', committed', complaint', span'⟩ := s
  obtain ⟨rfl, -, rfl, hspan⟩ := h
  cases hspan with
  | none => exact .incomplete complaint
  | some hplace =>
      cases wantsMore with
      | true => exact .incomplete complaint
      | false => exact .invalid hplace

/-- What the outcome of the outermost rule means to a whole parse. -/
theorem sameParse_of_sameOutcome
    (h : SameOutcome P (Rule.program (.start tokens)) (Rule.program (.start tokens'))) :
    SameParse P (parse tokens) (parse tokens') := by
  unfold parse
  generalize Rule.program (.start tokens) = outcome at h ⊢
  generalize Rule.program (.start tokens') = outcome' at h ⊢
  cases h with
  | error hfails => exact .error (SyntaxError.resembles_ofRejection hfails)
  | @ok program c d hcd =>
      obtain ⟨line, rest⟩ := c
      obtain ⟨line', rest'⟩ := d
      cases hcd with
      | nil => exact .ok program
      | @cons _ _ token token' _ _ hword hplace _ _ =>
          obtain ⟨kind, text, span⟩ := token
          obtain ⟨kind', text', span'⟩ := token'
          cases hword
          exact .error (.unexpectedToken hplace)

/-- Rows of tokens with the same words, and with the same brackets on the line of the token before, are
read alike: they are the same program and leave as many tokens, or they fail for the same reason at
tokens of the same position. -/
theorem parse_spacing (h : SameSpacing tokens tokens') :
    SameOutcome (SamePlace tokens tokens') (Rule.program (.start tokens))
        (Rule.program (.start tokens')) ∧
      SameParse (SamePlace tokens tokens') (parse tokens) (parse tokens') := by
  have hwords : SameWords (SamePlace tokens tokens') none tokens none tokens' :=
    h.sameWords (fun i token token' htoken htoken' => ⟨i, token, token', htoken, htoken', rfl, rfl⟩)
      fun _ _ _ _ _ => by simp
  have hprogram := blind_program (.start tokens) (.start tokens') hwords
  exact ⟨hprogram, sameParse_of_sameOutcome hprogram⟩

/-- An access on one line, and the same access spread over three lines. -/
def accessTokens : List Token :=
  [⟨.identifier, some "x", ⟨0, 1, 0, 0⟩⟩, ⟨.symbol .leftBracket, none, ⟨1, 2, 0, 1⟩⟩,
    ⟨.number, some "1", ⟨2, 3, 0, 2⟩⟩, ⟨.symbol .rightBracket, none, ⟨3, 4, 0, 3⟩⟩]

@[inherit_doc accessTokens]
def spreadTokens : List Token :=
  [⟨.identifier, some "x", ⟨4, 5, 2, 1⟩⟩, ⟨.symbol .leftBracket, none, ⟨8, 9, 2, 5⟩⟩,
    ⟨.number, some "1", ⟨12, 13, 3, 0⟩⟩, ⟨.symbol .rightBracket, none, ⟨20, 21, 4, 2⟩⟩]

theorem parse_spacing_access :
    SameSpacing accessTokens spreadTokens ∧
      (parse spreadTokens).toOption.isSome = true ∧
      SameParse (SamePlace accessTokens spreadTokens) (parse accessTokens) (parse spreadTokens) := by
  have hspacing : SameSpacing accessTokens spreadTokens := by
    refine ⟨rfl, ?_, ?_⟩
    · rintro (_ | _ | _ | _ | i) token token' htoken htoken' <;>
        simp_all [accessTokens, spreadTokens] <;> grind
    · rintro (_ | _ | _ | _ | i) before before' token token' hbefore hbefore' htoken htoken' <;>
        simp_all [accessTokens, spreadTokens] <;> grind
  exact ⟨hspacing, by decide +kernel, (parse_spacing hspacing).2⟩

end TableScript
