import Treewalk.Proofs.Lexical.LineCount

/-!
# Lexemes scan as themselves

A lexeme is scanned in full and no further when a blank comes after it, whatever stands
behind the blank. So the lexemes of a text, written down with spaces between them, are
scanned as the same tokens again, without the comments and the errors of the text.

Results:

* `Lexeme.fits_alone`: a lexeme fits with nothing after it.
* `split_spaced`: lexemes with a space after each of them are the pieces of their text.
* `respelled_scans_alike`: the tokens of the lexemes of a text with spaces between them.
-/
namespace Treewalk

namespace Lexical

/-! ## Lexemes with spaces after them -/

theorem Lexeme.not_opensComment {k : Kind} {w : List Char} (h : Lexeme k w) :
    ¬ OpensComment w := by
  have hsymbols : ∀ s ∈ symbols, ¬ (['/', '/'] <+: s.1 ∨ ['/', '*'] <+: s.1) := by decide
  intro hopen
  obtain ⟨v, rfl⟩ : ∃ v, w = '/' :: v := by
    obtain ⟨us, rfl⟩ | ⟨us, rfl⟩ := hopen
    · exact ⟨_, rfl⟩
    · exact ⟨_, rfl⟩
  -- The only lexeme that starts with a slash is the operator.
  have hsymbol : Sorted '/' v k .symbol := h.of_cons
  exact hsymbols _ hsymbol hopen

/-- A lexeme fits with nothing after it. -/
theorem Lexeme.fits_alone {k : Kind} {w : List Char} (h : Lexeme k w) :
    Fits (.lexeme k) w [] := by
  refine .lexeme ?_ h fun k' w' _ hp => ?_
  · rw [List.append_nil]
    exact h.not_opensComment
  · rw [List.append_nil] at hp
    exact hp.length_le

/-- The piece that is a space. -/
def space : Piece := ⟨.blank, ' ', []⟩

/-- The pieces with a space after each of them. -/
def spaced (ps : List Piece) : List Piece := ps.flatMap fun p => [p, space]

/-- The text of the piece is a lexeme of its kind. -/
def Spelled (p : Piece) : Prop := ∃ k, p.shape = .lexeme k ∧ Lexeme k p.text

/-- Lexemes with a space after each of them are the pieces of their text. -/
theorem split_spaced {ps : List Piece} (h : ∀ p ∈ ps, Spelled p) :
    Split ((spaced ps).flatMap Piece.text) (spaced ps) := by
  induction ps with
  | nil => exact .nil
  | cons p ps ih =>
    obtain ⟨hp, hps⟩ := List.forall_mem_cons.mp h
    obtain ⟨k, hshape, hlexeme⟩ := hp
    have hspace : Split (' ' :: (spaced ps).flatMap Piece.text) (space :: spaced ps) :=
      .cons (p := space) (.blank (by decide)) (ih hps)
    have hfits := hlexeme.fits_alone.blank_after (x := ' ') (by decide)
      ((spaced ps).flatMap Piece.text)
    rw [← hshape] at hfits
    exact .cons hfits hspace

theorem problems_spaced {ps : List Piece} (h : ∀ p ∈ ps, Spelled p) :
    (spaced ps).filterMap Piece.problem? = [] := by
  rw [List.filterMap_eq_nil_iff]
  intro q hq
  obtain ⟨p, hp, hq⟩ := List.mem_flatMap.mp hq
  simp only [List.mem_cons, List.not_mem_nil, or_false] at hq
  obtain rfl | rfl := hq
  · obtain ⟨k, hshape, -⟩ := h q hp
    simp [Piece.problem?, hshape]
  · rfl

theorem tokens_spaced (ps : List Piece) :
    (spaced ps).filterMap Piece.token? = ps.filterMap Piece.token? := by
  induction ps with
  | nil => rfl
  | cons p ps ih =>
    have hspace : space.token? = none := rfl
    simp only [spaced, List.flatMap_cons, List.filterMap_append, List.filterMap_cons, hspace]
      at ih ⊢
    rw [ih]
    cases p.token? <;> rfl

/-! ## The lexemes of a text -/

/-- The pieces of a text that are lexemes. -/
def lexemes (text : List Char) : List Piece := (pieces text).filter fun p => p.token?.isSome

theorem shape_of_token {p : Piece} (h : p.token?.isSome = true) : ∃ k, p.shape = .lexeme k := by
  unfold Piece.token? at h
  split at h
  · next k hshape => exact ⟨k, hshape⟩
  · cases h

theorem spelled_lexemes (text : List Char) : ∀ p ∈ lexemes text, Spelled p := by
  intro p hp
  obtain ⟨hmem, htoken⟩ := List.mem_filter.mp hp
  obtain ⟨us, vs, hps⟩ := List.append_of_mem hmem
  obtain ⟨k, hshape⟩ := shape_of_token htoken
  have hsplit : Split text (us ++ p :: vs) := hps ▸ split_pieces text
  have hfits := hsplit.fits
  rw [hshape] at hfits
  cases hfits with
  | lexeme hopen hlexeme longest => exact ⟨k, hshape, hlexeme⟩

theorem tokens_lexemes (text : List Char) :
    (lexemes text).filterMap Piece.token? = (pieces text).filterMap Piece.token? := by
  rw [lexemes, List.filterMap_filter]
  refine List.filterMap_congr fun p _ => ?_
  cases p.token? <;> rfl

/-- The lexemes of the tokens of a text are the texts of its lexemes, and an empty one of the
end token. -/
theorem scan_lexemes (source : String) :
    (scan source).tokens.map Token.lexeme =
      (lexemes source.toList).map (fun p => String.ofList p.text) ++ [""] := by
  have hlexemes := congrArg (List.map fun x => x.2.1) (scan_spellings source)
  rw [List.map_map, ← tokens_lexemes, List.map_append, List.map_filterMap] at hlexemes
  refine hlexemes.trans (congrArg (· ++ [""]) ?_)
  rw [← List.filterMap_eq_map]
  refine List.filterMap_congr fun p hp => ?_
  obtain ⟨k, hshape⟩ := shape_of_token (List.mem_filter.mp hp).2
  simp [Piece.token?, hshape]

theorem intercalate_space (ps : List Piece) :
    [' '].intercalate (ps.map Piece.text ++ [[]]) = (spaced ps).flatMap Piece.text := by
  induction ps with
  | nil => rfl
  | cons p ps ih =>
    have hmore : ∃ w ws, ps.map Piece.text ++ [[]] = w :: ws :=
      List.exists_cons_of_ne_nil (by simp)
    obtain ⟨w, ws, hws⟩ := hmore
    have hspace : space.text = [' '] := rfl
    rw [List.map_cons, List.cons_append, hws, List.intercalate_cons_cons, ← hws, ih]
    simp [spaced, hspace]

end Lexical

open Lexical

/-- The lexemes of a text with single spaces between them; the end token has an empty one. -/
def respelled (source : String) : String :=
  " ".intercalate ((scan source).tokens.map Token.lexeme)

theorem pieces_respelled (source : String) :
    pieces (respelled source).toList = spaced (lexemes source.toList) := by
  have htext : (respelled source).toList =
      (spaced (lexemes source.toList)).flatMap Piece.text := by
    rw [← intercalate_space]
    simp [respelled, scan_lexemes, String.toList_intercalate, Function.comp_def]
  rw [htext]
  exact (split_spaced (spelled_lexemes source.toList)).eq_pieces.symm

/-- The lexemes of any text, with single spaces between them, are scanned without an error as
tokens of the same kinds, lexemes and literals in the same order. -/
theorem respelled_scans_alike (source : String) :
    (scan (respelled source)).errors = [] ∧
      (scan (respelled source)).tokens.map (fun t => (t.kind, t.lexeme, t.literal)) =
        (scan source).tokens.map fun t => (t.kind, t.lexeme, t.literal) := by
  constructor
  · rw [← List.map_eq_nil_iff (f := LexError.problem), scan_problems, pieces_respelled]
    exact problems_spaced (spelled_lexemes source.toList)
  · rw [scan_spellings, scan_spellings, pieces_respelled, tokens_spaced, tokens_lexemes]

end Treewalk
