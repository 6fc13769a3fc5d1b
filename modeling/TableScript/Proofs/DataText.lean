import TableScript.Proofs.Numerals
import TableScript.Proofs.OrderedTable
import TableScript.Proofs.Segmentation
import TableScript.Store.Text

/-!
The text of data, word by word. Data is what has a text that can be read: lists and tables, as deep as
they are nested, down to `null`, truth values, numbers and strings. Its text is a row of words, each
followed by punctuation, so the lexer finds these words and no others.
-/

namespace TableScript

open Spelling Entries

/-! ### Data -/

/-- A text of which no character is written as `\0` or by its code point when it is quoted. -/
def Quoted.Legible (text : String) : Prop :=
  ∀ c ∈ text.toList, ¬['\\', '0'] <+: escape c ∧ ¬['\\', 'u'] <+: escape c

instance (text : String) : Decidable (Quoted.Legible text) :=
  List.decidableBAll _ text.toList

/-- Values without parts that can be read from their texts. -/
def Value.IsScalar : Value → Prop
  | null | bool _ => True
  | number x => x.isFinite
  | string text => Quoted.Legible text
  | list _ | table _ | function _ | native _ => False

instance : DecidablePred Value.IsScalar
  | .null | .bool _ => .isTrue trivial
  | .number x => inferInstanceAs (Decidable (x.isFinite = true))
  | .string text => inferInstanceAs (Decidable (Quoted.Legible text))
  | .list _ | .table _ | .function _ | .native _ => .isFalse id

/-- The keys that can be read from their texts: strings, and finite numbers that are not negative. -/
inductive Key.Legible : Key → Prop where
  | string {text : String} (hlegible : Quoted.Legible text) : Legible (.string text)
  | number {x : Float} (hfinite : x.isFinite) (hnonneg : 0 ≤ x) : Legible (ofNumber x)

namespace Store

/-- The value is data whose containers are nested at most `depth` deep, so that none contains itself. A
table has no key twice and no entry with the value `null`. -/
def IsData (s : Store) : Nat → Value → Prop
  | depth + 1, .list ref => ∀ value ∈ (s.list ref).toList, s.IsData depth value
  | depth + 1, .table ref =>
    (keys (s.table ref).toList).Nodup ∧
      ∀ entry ∈ (s.table ref).toList,
        entry.1.Legible ∧ entry.2 ≠ .null ∧ s.IsData depth entry.2
  | _, value => value.IsScalar

end Store

/-! ### Words -/

namespace Word

def symbol (mark : Symbol) : Word :=
  ⟨.symbol mark, none⟩

def keyword (word : Keyword) : Word :=
  ⟨.keyword word, none⟩

/-- A number as it is written. -/
def numeral (digits : List Char) : Word :=
  ⟨.number, some (String.ofList digits)⟩

/-- Rows of words with commas between them. -/
def separated : List (List Word) → List Word :=
  List.intercalate [symbol .comma]

end Word

open Word

/-- The words of a value without parts. -/
def Value.words : Value → List Word
  | null => [keyword .null]
  | bool value => [keyword (if value then .true else .false)]
  | number x =>
    if Number.isSigned x then [symbol .minus, numeral (Number.digits x)]
    else [numeral (Number.digits x)]
  | string text => [⟨.string, some text⟩]
  | list _ | table _ | function _ | native _ => []

/-- The words of data. -/
def Store.words (s : Store) : Nat → Value → List Word
  | depth + 1, .list ref =>
    symbol .leftBracket ::
      (separated ((s.list ref).toList.map (s.words depth)) ++ [symbol .rightBracket])
  | depth + 1, .table ref =>
    let entry (e : Key × Value) := e.1.toValue.words ++ symbol .colon :: s.words depth e.2
    symbol .leftBrace :: (separated ((s.table ref).toList.map entry) ++ [symbol .rightBrace])
  | _, value => value.words

/-! ### Reading words -/

/-- The lexer finds the given words in a text, wherever the text stands. -/
def Lexes (cs : List Char) (words : List Word) : Prop :=
  ∀ p, (Lexed.walk 0 p cs).tokens.map Token.word = words ∧ (Lexed.walk 0 p cs).error = none

/-- What may follow a word: punctuation, or nothing. -/
def Punctuated (rest : List Char) : Prop :=
  ∀ c ∈ rest.head?, c ∈ [',', ':', ']', '\x7d']

/-- A text is some words, if punctuation follows. -/
def Spelled (cs : List Char) (words : List Word) : Prop :=
  ∀ rest more, Punctuated rest → Lexes rest more → Lexes (cs ++ rest) (words ++ more)

theorem Punctuated.clear {rest : List Char} (h : Punctuated rest) {p : Char → Bool}
    (hp : p ',' = false ∧ p ':' = false ∧ p ']' = false ∧ p '\x7d' = false) : Clear p rest := by
  intro c hc
  have hmem := h c hc
  simp only [List.mem_cons, List.not_mem_nil, or_false] at hmem
  rcases hmem with rfl | rfl | rfl | rfl
  · exact hp.1
  · exact hp.2.1
  · exact hp.2.2.1
  · exact hp.2.2.2

theorem punctuated_cons {c : Char} (hc : c ∈ [',', ':', ']', '\x7d']) (rest : List Char) :
    Punctuated (c :: rest) := by
  intro d hd
  cases hd
  exact hc

namespace Lexes

variable {c : Char} {cs rest : List Char} {more : List Word}

theorem nil : Lexes [] [] := fun _ => ⟨rfl, rfl⟩

theorem token {word : Word}
    (hfirst : Piece.first c (cs ++ rest) = .token word.kind word.text (cs.length + 1))
    (hrest : Lexes rest more) : Lexes (c :: (cs ++ rest)) (word :: more) := by
  intro p
  obtain ⟨q, -, hlexemes, herror⟩ := Lexed.walk_token p hfirst
  obtain ⟨hwords, hnone⟩ := hrest q
  have hall := congrArg (List.map Lexeme.word) hlexemes
  rw [List.map_cons, List.map_map, List.map_map] at hall
  exact ⟨hall.trans (congrArg (word :: ·) hwords), herror.trans hnone⟩

theorem mark {mark : Symbol} (hfirst : Piece.first c rest = .token (.symbol mark) none 1)
    (hrest : Lexes rest more) : Lexes (c :: rest) (symbol mark :: more) :=
  @token c [] rest more (symbol mark) hfirst hrest

theorem blank (hrest : Lexes rest more) : Lexes (' ' :: rest) more := by
  intro p
  obtain ⟨q, -, hwalk⟩ := @Lexed.walk_gap ' ' [] rest p rfl
  rw [List.nil_append] at hwalk
  rw [hwalk]
  exact hrest q

end Lexes

theorem intercalate_cons {α : Type} (sep first : List α) (rest : List (List α)) :
    sep.intercalate (first :: rest) = first ++ rest.flatMap (sep ++ ·) := by
  induction rest generalizing first with
  | nil => simp [List.intercalate]
  | cons second rest ih =>
      rw [List.intercalate_cons_cons, ih, List.flatMap_cons]
      simp only [List.append_assoc]

namespace Quoted

theorem stringBody_escape {c : Char} {cs text : List Char}
    (hc : ¬['\\', '0'] <+: escape c ∧ ¬['\\', 'u'] <+: escape c) (hrest : StringBody cs text) :
    StringBody (escape c ++ cs) (c :: text) := by
  obtain ⟨hzero, hcode⟩ := hc
  unfold escape at hzero hcode ⊢
  split
  · exact .escape .quote hrest
  · exact .escape .backslash hrest
  · exact .escape .tab hrest
  · exact .escape .carriageReturn hrest
  · exact .escape .lineFeed hrest
  · exact absurd (List.prefix_refl _) hzero
  next hquote hbackslash _ hreturn hfeed _ =>
    split
    next hinvisible => simp [hinvisible] at hcode
    next =>
      have hplain : isPlain c := by
        simpa [isPlain] using ⟨⟨⟨hquote, hbackslash⟩, hreturn⟩, hfeed⟩
      exact .plain hplain hrest

/-- A legible text that is quoted reads as itself. -/
theorem stringBody_flatMap {text : String} (htext : Legible text) :
    StringBody (text.toList.flatMap escape) text.toList := by
  rw [Legible] at htext
  generalize text.toList = cs at htext
  induction cs with
  | nil => exact .nil
  | cons c cs ih =>
      rw [List.forall_mem_cons] at htext
      exact stringBody_escape htext.1 (ih htext.2)

end Quoted

namespace Spelled

theorem keyword (word : Keyword) : Spelled word.spelling.toList [.keyword word] := by
  intro rest more hrest hmore
  have hclear : Clear Piece.isNamePart rest := hrest.clear ⟨rfl, rfl, rfl, rfl⟩
  obtain ⟨⟨c, hc, hstart⟩, -⟩ := Piece.name_keyword word
  have hword := Piece.word_keyword word hclear
  cases hspelling : word.spelling.toList with
  | nil => rw [hspelling] at hc; cases hc
  | cons d cs =>
      rw [hspelling] at hc hword
      cases hc
      rw [List.cons_append, ← Piece.first_name hstart] at hword
      exact hmore.token hword

theorem numeral {digits : List Char} (hdigits : Numeral digits) :
    Spelled digits [.numeral digits] := by
  intro rest more hrest hmore
  have hclear : Clear Char.isDigit rest ∧ Clear isExponentMark rest ∧ Clear (· = '.') rest :=
    ⟨hrest.clear ⟨rfl, rfl, rfl, rfl⟩, hrest.clear ⟨rfl, rfl, rfl, rfl⟩,
      hrest.clear ⟨rfl, rfl, rfl, rfl⟩⟩
  have hnumber := Piece.number_of_numeral hdigits hclear
  cases digits with
  | nil => exact absurd rfl (Spells.number hdigits).ne_nil
  | cons c cs =>
      rw [List.cons_append, ← Piece.first_digit hdigits.isDigit_head] at hnumber
      exact hmore.token hnumber

theorem negative {digits : List Char} (hdigits : Numeral digits) :
    Spelled ('-' :: digits) [.symbol .minus, .numeral digits] := by
  intro rest more hrest hmore
  have hsize := numeral hdigits _ _ hrest hmore
  refine Lexes.mark ?_ hsize
  cases digits with
  | nil => exact absurd rfl (Spells.number hdigits).ne_nil
  | cons c cs =>
      have hdigit := hdigits.isDigit_head
      have hminus : '-' ≠ c := by rintro rfl; cases hdigit
      have hassign : '=' ≠ c := by rintro rfl; cases hdigit
      have hmark : Piece.mark '-' (c :: (cs ++ rest)) = .token (.symbol .minus) none 1 := by
        simp [Piece.mark, Piece.marks, Symbol.spelling, hminus, hassign]
      exact hmark

theorem string {text : String} (htext : Quoted.Legible text) :
    Spelled (Quoted.quote text).toList [⟨.string, some text⟩] := by
  intro rest more _ hmore
  have hclosed := Piece.stringTail_closed (Quoted.stringBody_flatMap htext) rest
  rw [String.ofList_toList, ← Piece.first_quote] at hclosed
  rw [Quoted.quote, String.toList_ofList]
  exact hmore.token hclosed

section

variable {α : Type} {text : α → List Char} {words : α → List Word} {xs : List α}

/-- Texts that each follow a comma and a blank. -/
theorem later (h : ∀ x ∈ xs, Spelled (text x) (words x)) {rest : List Char} {more : List Word}
    (hrest : Punctuated rest) (hmore : Lexes rest more) :
    Punctuated ((xs.map text).flatMap ([',', ' '] ++ ·) ++ rest) ∧
      Lexes ((xs.map text).flatMap ([',', ' '] ++ ·) ++ rest)
        ((xs.map words).flatMap ([.symbol .comma] ++ ·) ++ more) := by
  induction xs with
  | nil => exact ⟨hrest, hmore⟩
  | cons x xs ih =>
      rw [List.forall_mem_cons] at h
      obtain ⟨hnext, hwords⟩ := ih h.2
      simp only [List.map_cons, List.flatMap_cons, List.append_assoc]
      have hfirst := h.1 _ _ hnext hwords
      exact ⟨punctuated_cons (by decide) _, hfirst.blank.mark rfl⟩

/-- Texts with commas and blanks between them. -/
theorem separated (h : ∀ x ∈ xs, Spelled (text x) (words x)) :
    Spelled ([',', ' '].intercalate (xs.map text)) (Word.separated (xs.map words)) := by
  intro rest more hrest hmore
  cases xs with
  | nil => exact hmore
  | cons x xs =>
      rw [List.forall_mem_cons] at h
      obtain ⟨hnext, hwords⟩ := later h.2 hrest hmore
      rw [List.map_cons, List.map_cons, Word.separated, intercalate_cons, intercalate_cons,
        List.append_assoc, List.append_assoc]
      exact h.1 _ _ hnext hwords

/-- Texts with commas and blanks between them, in brackets or braces. -/
theorem enclosed (left right : Char) {opening closing : Symbol}
    (hleft : ∀ rest, Piece.first left rest = .token (.symbol opening) none 1)
    (hright : ∀ rest, Piece.first right rest = .token (.symbol closing) none 1)
    (hclosing : right ∈ [',', ':', ']', '\x7d']) (h : ∀ x ∈ xs, Spelled (text x) (words x)) :
    Spelled (left :: ([',', ' '].intercalate (xs.map text) ++ [right]))
      (.symbol opening :: (Word.separated (xs.map words) ++ [.symbol closing])) := by
  intro rest more _ hmore
  have hlast := hmore.mark (hright rest)
  have hinner := separated h _ _ (punctuated_cons hclosing rest) hlast
  simp only [List.cons_append, List.append_assoc, List.nil_append]
  exact hinner.mark (hleft _)

end

/-- An entry: a key, a colon and a value. -/
theorem entry {key value : List Char} {keyWords valueWords : List Word}
    (hkey : Spelled key keyWords) (hvalue : Spelled value valueWords) :
    Spelled (key ++ ([':', ' '] ++ value)) (keyWords ++ .symbol .colon :: valueWords) := by
  intro rest more hrest hmore
  have hlast := @Lexes.mark ':' _ _ .colon rfl (hvalue _ _ hrest hmore).blank
  simp only [List.append_assoc, List.cons_append]
  exact hkey _ _ (punctuated_cons (by decide) _) hlast

end Spelled

/-! ### The text of data -/

theorem Key.Legible.isScalar {key : Key} (h : key.Legible) : key.toValue.IsScalar := by
  cases h with
  | string hlegible => exact hlegible
  | number hfinite hnonneg =>
      obtain ⟨shown, _, _, hvalue, hshown, -⟩ := exists_reads hfinite hnonneg
      rw [hvalue]
      exact hshown

namespace Store

variable {s : Store} {depth : Nat} {value : Value}

theorem isData_scalar (h : value.IsScalar) (depth : Nat) : s.IsData depth value := by
  cases value with
  | list | table | function | native => cases h
  | null | bool | number | string => cases depth <;> exact h

theorem words_scalar (h : value.IsScalar) (depth : Nat) : s.words depth value = value.words := by
  cases value with
  | list | table | function | native => cases h
  | null | bool | number | string => cases depth <;> rfl

/-- What holds of values without parts, and of containers if it holds of what they contain, holds of
data. -/
@[elab_as_elim]
theorem IsData.induction {motive : (depth : Nat) → (value : Value) → s.IsData depth value → Prop}
    (scalar : ∀ {depth value} (hdata : s.IsData depth value), value.IsScalar →
      motive depth value hdata)
    (list : ∀ {depth ref} (hdata : s.IsData (depth + 1) (.list ref)),
      (∀ value (hvalue : value ∈ (s.list ref).toList), motive depth value (hdata value hvalue)) →
      motive (depth + 1) (.list ref) hdata)
    (table : ∀ {depth ref} (hdata : s.IsData (depth + 1) (.table ref)),
      (∀ entry (hentry : entry ∈ (s.table ref).toList),
        motive depth entry.2 (hdata.2 entry hentry).2.2) →
      motive (depth + 1) (.table ref) hdata)
    {depth : Nat} {value : Value} (h : s.IsData depth value) : motive depth value h := by
  induction depth generalizing value with
  | zero => exact scalar h (by cases value <;> exact h)
  | succ depth ih =>
      cases value with
      | list ref => exact list h fun value hvalue => ih (h value hvalue)
      | table ref => exact table h fun entry hentry => ih (h.2 entry hentry).2.2
      | null | bool | number | string | function | native => exact scalar h h

/-- How a value is written inside a container. -/
def inside (s : Store) (limit : Nat) (value : Value) : List Char :=
  (value.textInside (s.textWithin limit)).toList

theorem spelled_scalar (h : value.IsScalar) (limit : Nat) :
    Spelled (s.inside limit value) value.words := by
  cases value with
  | list | table | function | native => cases h
  | string text => exact Spelled.string h
  | null =>
      simp only [inside, Value.textInside, textWithin]
      exact Spelled.keyword .null
  | bool value =>
      simp only [inside, Value.textInside, textWithin]
      cases value with
      | false => exact Spelled.keyword .false
      | true => exact Spelled.keyword .true
  | number x =>
      have hreads := Number.reads h
      simp only [inside, Value.textInside, textWithin, Value.words, hreads.text]
      cases Number.isSigned x with
      | false => exact Spelled.numeral hreads.numeral
      | true => exact Spelled.negative hreads.numeral

theorem inside_list (limit : Nat) (ref : ListRef) :
    s.inside (limit + 1) (.list ref) =
      '[' :: ([',', ' '].intercalate ((s.list ref).toList.map (s.inside limit)) ++ [']']) := by
  simp only [inside, Value.textInside, textWithin, String.toList_append, String.toList_intercalate,
    List.map_map]
  rfl

theorem inside_table (limit : Nat) (ref : TableRef) :
    s.inside (limit + 1) (.table ref) =
      '\x7b' :: ([',', ' '].intercalate ((s.table ref).toList.map fun entry =>
        s.inside limit entry.1.toValue ++ ([':', ' '] ++ s.inside limit entry.2)) ++ ['\x7d']) := by
  simp only [inside, Value.textInside, textWithin, String.toList_append, String.toList_intercalate,
    List.map_map, Function.comp_def, List.append_assoc]
  rfl

/-- The text of data is the words of the data, however much deeper than that containers may be
nested. -/
theorem IsData.spelled (h : s.IsData depth value) {limit : Nat} (hlimit : depth ≤ limit) :
    Spelled (s.inside limit value) (s.words depth value) := by
  induction h using IsData.induction generalizing limit with
  | scalar hdata hscalar =>
      rw [words_scalar hscalar]
      exact spelled_scalar hscalar limit
  | @list depth ref hdata ih =>
      obtain ⟨limit, rfl⟩ := Nat.exists_eq_add_one_of_ne_zero (Nat.ne_zero_of_lt hlimit)
      rw [inside_list]
      apply Spelled.enclosed '[' ']' (fun _ => rfl) (fun _ => rfl) (by decide)
      intro value hvalue
      exact ih value hvalue (Nat.le_of_succ_le_succ hlimit)
  | @table depth ref hdata ih =>
      obtain ⟨limit, rfl⟩ := Nat.exists_eq_add_one_of_ne_zero (Nat.ne_zero_of_lt hlimit)
      rw [inside_table]
      apply Spelled.enclosed '\x7b' '\x7d' (fun _ => rfl) (fun _ => rfl) (by decide)
      intro entry hentry
      have hkey := spelled_scalar (s := s) (hdata.2 entry hentry).1.isScalar limit
      have hvalue := ih entry hentry (Nat.le_of_succ_le_succ hlimit)
      exact hkey.entry hvalue

/-- The text of data by itself, which for strings is another one. -/
theorem IsData.tokenize_text (h : s.IsData depth value) (hdepth : depth ≤ ampleDepth)
    (hstring : value.type ≠ .string) :
    ∃ tokens, tokenize (s.text value) = .ok tokens ∧
      tokens.map Token.word = s.words depth value := by
  have hinside : s.inside ampleDepth value = (s.text value).toList := by
    cases value with
    | string => exact absurd rfl hstring
    | _ => rfl
  obtain ⟨hwords, herror⟩ := h.spelled hdepth [] [] (fun _ hc => by cases hc) Lexes.nil .origin
  rw [List.append_nil, hinside] at hwords herror
  rw [List.append_nil] at hwords
  refine ⟨(lex (s.text value)).tokens, ?_, hwords⟩
  have hnone : (lex (s.text value)).error = none := herror
  simp only [tokenize, hnone]

end Store

end TableScript
