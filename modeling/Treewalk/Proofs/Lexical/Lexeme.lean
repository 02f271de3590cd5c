import Treewalk.Source.Scan

/-!
# The lexical grammar

`Lexeme k w`: the characters `w` spell a token of kind `k`, wherever they stand.
`Fits` says what is a right piece at the start of a text, by comparing it with
everything else that could stand there instead; no scanner is involved.

Results:

* `Lexeme.kind_unique`: a spelling has one kind.
* `Lexeme.of_cons`: the first character tells what sort of lexeme it is.
* `Lexeme.spelling_unique`: operators and keywords have one spelling each.
-/
namespace Treewalk

namespace Lexical

open Piece

/-- Operators and punctuation. -/
def symbols : List (List Char × Kind) :=
  [(['('], .leftParen), ([')'], .rightParen), (['{'], .leftBrace), (['}'], .rightBrace),
   ([','], .comma), (['.'], .dot), (['-'], .minus), (['+'], .plus), ([';'], .semicolon),
   (['/'], .slash), (['*'], .star), (['?'], .question), ([':'], .colon),
   (['!'], .bang), (['!', '='], .bangEqual), (['='], .equal), (['=', '='], .equalEqual),
   (['>'], .greater), (['>', '='], .greaterEqual), (['<'], .less), (['<', '='], .lessEqual)]

/-- The spellings of tokens. -/
inductive Lexeme : Kind → List Char → Prop where
  | symbol {k : Kind} {w : List Char} (h : (w, k) ∈ symbols) : Lexeme k w
  /-- A keyword or an identifier. -/
  | word {c : Char} {cs : List Char} (hc : startsWord c = true) (hcs : ∀ x ∈ cs, inWord x = true) :
    Lexeme (wordKind (c :: cs)) (c :: cs)
  | whole {ds : List Char} (ne : ds ≠ []) (h : ∀ x ∈ ds, isDigit x = true) : Lexeme .number ds
  | decimal {ds es : List Char} (ne : ds ≠ []) (h : ∀ x ∈ ds, isDigit x = true) (ne' : es ≠ [])
    (h' : ∀ x ∈ es, isDigit x = true) : Lexeme .number (ds ++ '.' :: es)
  | string {cs : List Char} (h : '"' ∉ cs) : Lexeme .string ('"' :: (cs ++ ['"']))

def isBlank (c : Char) : Bool := c = ' ' || c = '\t' || c = '\r' || c = '\n'

/-- A comment starts here. -/
def OpensComment (cs : List Char) : Prop := ['/', '/'] <+: cs ∨ ['/', '*'] <+: cs

/-- What comes first in `w ++ rest` is the piece `w`. -/
inductive Fits : Shape → List Char → List Char → Prop where
  | blank {c : Char} {rest : List Char} (h : isBlank c = true) : Fits .blank [c] rest
  /-- Up to the next line feed, which is not part of the comment. -/
  | lineComment {body rest : List Char} (h : '\n' ∉ body) (hrest : ∀ c ∈ rest.head?, c = '\n') :
    Fits .lineComment ('/' :: '/' :: body) rest
  /-- Up to the first star and slash after the opening. -/
  | blockComment {body rest : List Char} (h : ¬ ['*', '/'] <:+: body ++ ['*']) :
    Fits .blockComment ('/' :: '*' :: (body ++ ['*', '/'])) rest
  /-- The longest lexeme, unless a comment starts here. -/
  | lexeme {k : Kind} {w rest : List Char} (hopen : ¬ OpensComment (w ++ rest)) (h : Lexeme k w)
    (longest : ∀ k' w', Lexeme k' w' → w' <+: w ++ rest → w'.length ≤ w.length) :
    Fits (.lexeme k) w rest
  /-- One character where there is no lexeme. -/
  | unexpected {c : Char} {rest : List Char} (hb : isBlank c = false) (hq : c ≠ '"')
    (h : ∀ k w, Lexeme k w → ¬ w <+: c :: rest) : Fits .unexpected [c] rest
  | unterminatedString {body : List Char} (h : '"' ∉ body) :
    Fits .unterminatedString ('"' :: body) []
  | unterminatedComment {body : List Char} (h : ¬ ['*', '/'] <:+: body) :
    Fits .unterminatedComment ('/' :: '*' :: body) []

/-- The text consists of the pieces, each of which fits where it stands. -/
inductive Split : List Char → List Piece → Prop where
  | nil : Split [] []
  | cons {p : Piece} {rest : List Char} {ps : List Piece} (h : Fits p.shape p.text rest)
    (hs : Split rest ps) : Split (p.text ++ rest) (p :: ps)

/-! ## Sorts of lexemes -/

/-- What the first character of a lexeme can be. -/
inductive Initial where
  | digit
  | letter
  | quote
  | symbol
  deriving DecidableEq, Repr

def initial (c : Char) : Initial :=
  if isDigit c then .digit else if startsWord c then .letter
  else if c = '"' then .quote else .symbol

theorem symbols_initial : ∀ s ∈ symbols, ∃ c ∈ s.1.head?, initial c = .symbol := by
  have h : ∀ s ∈ symbols, s.1.head?.map initial = some .symbol := by decide
  intro s hs
  obtain ⟨c, hc, hi⟩ := Option.map_eq_some_iff.mp (h s hs)
  exact ⟨c, hc, hi⟩

theorem symbols_length : ∀ s ∈ symbols, s.1.length ≤ 2 := by
  decide

theorem symbols_functional : ∀ s ∈ symbols, ∀ s' ∈ symbols, s.1 = s'.1 → s.2 = s'.2 := by
  decide

theorem initial_digit {c : Char} (h : isDigit c = true) : initial c = .digit := by
  simp [initial, h]

/-- No digit is a letter. -/
theorem not_startsWord_of_isDigit {c : Char} (h : isDigit c = true) : startsWord c = false := by
  simp only [isDigit, Bool.and_eq_true, decide_eq_true_eq] at h
  simp only [startsWord, Bool.or_eq_false_iff, Bool.and_eq_false_imp, decide_eq_true_eq,
    decide_eq_false_iff_not]
  have h9 : c.val ≤ '9'.val := h.2
  refine ⟨⟨fun ha _ => ?_, fun ha _ => ?_⟩, ?_⟩
  · exact absurd (UInt32.le_trans ha h9) (by decide)
  · exact absurd (UInt32.le_trans ha h9) (by decide)
  · rintro rfl
    exact absurd h9 (by decide)

theorem not_isDigit_of_startsWord {c : Char} (h : startsWord c = true) : isDigit c = false := by
  cases hd : isDigit c with
  | false => rfl
  | true => rw [not_startsWord_of_isDigit hd] at h; cases h

theorem initial_letter {c : Char} (h : startsWord c = true) : initial c = .letter := by
  simp [initial, h, not_isDigit_of_startsWord h]

/-- What a lexeme that starts with a character of the given sort looks like. -/
def Sorted (c : Char) (w : List Char) (k : Kind) : Initial → Prop
  | .digit => k = .number ∧ ((∀ x ∈ w, isDigit x = true) ∨
    ∃ ds es, w = ds ++ '.' :: es ∧ (∀ x ∈ ds, isDigit x = true) ∧ es ≠ [] ∧
      ∀ x ∈ es, isDigit x = true)
  | .letter => k = wordKind (c :: w) ∧ ∀ x ∈ w, inWord x = true
  | .quote => k = .string ∧ ∃ cs, '"' ∉ cs ∧ w = cs ++ ['"']
  | .symbol => (c :: w, k) ∈ symbols

/-- The first character tells the sort of a lexeme. -/
theorem Lexeme.of_cons {k : Kind} {c : Char} {w : List Char} (h : Lexeme k (c :: w)) :
    Sorted c w k (initial c) := by
  generalize hw : c :: w = v at h
  cases h with
  | symbol h =>
    subst hw
    obtain ⟨d, hd, hs⟩ := symbols_initial _ h
    cases hd
    rw [hs]
    exact h
  | word hc hcs =>
    cases hw
    rw [initial_letter hc]
    exact ⟨rfl, hcs⟩
  | whole ne h =>
    subst hw
    rw [initial_digit (h c (.head _))]
    exact ⟨rfl, .inl fun x hx => h x (.tail _ hx)⟩
  | @decimal ds es ne h ne' h' =>
    cases ds with
    | nil => exact absurd rfl ne
    | cons d ds =>
      cases hw
      rw [initial_digit (h c (.head _))]
      exact ⟨rfl, .inr ⟨ds, es, rfl, fun x hx => h x (.tail _ hx), ne', h'⟩⟩
  | string h =>
    cases hw
    exact ⟨rfl, _, h, rfl⟩

theorem Lexeme.ne_nil {k : Kind} {w : List Char} (h : Lexeme k w) : w ≠ [] := by
  cases h with
  | symbol h =>
    rintro rfl
    obtain ⟨d, hd, -⟩ := symbols_initial _ h
    cases hd
  | word | string => exact nofun
  | whole ne _ => exact ne
  | decimal => simp

/-- A spelling has one kind. -/
theorem Lexeme.kind_unique {k k' : Kind} {w : List Char} (h : Lexeme k w) (h' : Lexeme k' w) :
    k = k' := by
  cases w with
  | nil => exact absurd rfl h.ne_nil
  | cons c w =>
    have hs := h.of_cons
    have hs' := h'.of_cons
    cases hi : initial c with
    | digit => rw [hi] at hs hs'; exact hs.1.trans hs'.1.symm
    | letter => rw [hi] at hs hs'; exact hs.1.trans hs'.1.symm
    | quote => rw [hi] at hs hs'; exact hs.1.trans hs'.1.symm
    | symbol => rw [hi] at hs hs'; exact symbols_functional _ hs _ hs' rfl

/-! ## Fixed spellings -/

theorem Lexeme.of_word {k : Kind} {c : Char} {cs : List Char} (hc : startsWord c = true)
    (hcs : cs.all inWord = true) (hk : wordKind (c :: cs) = k) : Lexeme k (c :: cs) :=
  hk ▸ .word hc (List.all_eq_true.mp hcs)

/-- Keywords, each with its kind. -/
def keywords : List (List Char × Kind) := Kind.keywords.map fun x => (x.1.toList, x.2)

theorem wordKind_cases (w : List Char) :
    wordKind w = .identifier ∨ (w, wordKind w) ∈ keywords := by
  unfold wordKind
  cases h : Kind.keyword? (String.ofList w) with
  | none => exact .inl rfl
  | some k =>
    obtain ⟨before, after, hkeywords, -⟩ := List.lookup_eq_some_iff.mp h
    refine .inr (List.mem_map.mpr ⟨(String.ofList w, k), ?_, by simp⟩)
    simp [hkeywords]

theorem wordKind_ne {k : Kind} (hname : k ≠ .identifier) (hk : ∀ s ∈ keywords, s.2 ≠ k)
    (w : List Char) : wordKind w ≠ k := by
  obtain h | h := wordKind_cases w
  · rw [h]
    exact hname.symm
  · exact hk _ h

theorem spellings_functional : ∀ s ∈ symbols ++ keywords, ∀ s' ∈ symbols ++ keywords,
    s.2 = s'.2 → s.1 = s'.1 := by
  decide

/-- Names and constants have all sorts of spellings. -/
def isOpen (k : Kind) : Bool := k = .identifier || k = .string || k = .number

/-- Operators and keywords have one spelling each. -/
theorem Lexeme.spelling_unique {k : Kind} {v w : List Char} (hv : Lexeme k v) (hw : Lexeme k w)
    (hk : isOpen k = false) : v = w := by
  have hfixed : ∀ {w : List Char}, Lexeme k w → (w, k) ∈ symbols ++ keywords := by
    intro w h
    cases h with
    | symbol h => exact List.mem_append_left _ h
    | @word c cs hc hcs =>
      obtain hname | hkeyword := wordKind_cases (c :: cs)
      · rw [hname] at hk
        cases hk
      · exact List.mem_append_right _ hkeyword
    | whole | decimal | string => cases hk
  exact spellings_functional _ (hfixed hv) _ (hfixed hw) rfl

/-- A string is something between quotes. -/
theorem Lexeme.of_string {w : List Char} (h : Lexeme .string w) :
    ∃ cs, '"' ∉ cs ∧ w = '"' :: (cs ++ ['"']) := by
  have hsymbols : ∀ s ∈ symbols, s.2 ≠ .string := by decide
  generalize hk : Kind.string = k at h
  cases h with
  | symbol h => exact absurd hk.symm (hsymbols _ h)
  | word => exact absurd hk.symm (wordKind_ne (by decide) (by decide) _)
  | whole | decimal => cases hk
  | string h => exact ⟨_, h, rfl⟩

/-! ## Blanks -/

/-- Blanks are no part of words, numbers or operators. -/
theorem blank_apart {x : Char} (hx : isBlank x = true) :
    inWord x = false ∧ isDigit x = false ∧ x ≠ '.' ∧ ∀ s ∈ symbols, x ∉ s.1 := by
  simp only [isBlank, Bool.or_eq_true, decide_eq_true_eq, or_assoc] at hx
  obtain rfl | rfl | rfl | rfl := hx <;> decide

/-- Only strings contain blanks. -/
theorem Lexeme.quoted {k : Kind} {w : List Char} (h : Lexeme k w) {x : Char}
    (hx : isBlank x = true) (hmem : x ∈ w) : w.head? = some '"' := by
  obtain ⟨hword, hdigit, hdot, hsymbol⟩ := blank_apart hx
  have hdigits : ∀ {ds : List Char}, (∀ y ∈ ds, isDigit y = true) → x ∉ ds := by
    intro ds hds hmem
    simp [hds x hmem] at hdigit
  cases h with
  | symbol h => exact absurd hmem (hsymbol _ h)
  | word hc hcs =>
    obtain rfl | hmem := List.mem_cons.mp hmem
    · simp [inWord, hc] at hword
    · simp [hcs x hmem] at hword
  | whole ne h => exact absurd hmem (hdigits h)
  | decimal ne h ne' h' =>
    obtain hmem | hmem := List.mem_append.mp hmem
    · exact absurd hmem (hdigits h)
    · obtain rfl | hmem := List.mem_cons.mp hmem
      · exact absurd rfl hdot
      · exact absurd hmem (hdigits h')
  | string h => rfl

end Lexical

end Treewalk
