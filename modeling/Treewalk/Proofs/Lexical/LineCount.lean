import Mathlib.Data.List.Basic
import Treewalk.Proofs.Lexical.Scanner

/-!
# Line numbers

Scanning adds up the line breaks of one piece after the other, or, just the same, of one
character after the other. Here the line of a token or an error is read off the source text,
from what stands before it: a token is on the line on which its lexeme ends, an unexpected
character on its own line, and what is unterminated on the last line of the text.

Results:

* `readings_sites`: every reading of a text, with the part of the text that it ends.
* `scan_tokens_sites`, `scan_errors_sites`: the tokens and the errors with their lines.
* `line_numbers_exact`: both, that the lines of tokens never go down, and that the scanner
  which goes by characters makes the same readings.
* `line_break_separates`: a line break divides the scanning of a text exactly if nothing
  before it is unterminated.
-/
namespace Treewalk

namespace Lexical

/-! ## Pieces where they stand -/

/-- A piece and the text before it. -/
structure Site where
  before : List Char
  piece : Piece

namespace Site

/-- The text up to the end of the piece. -/
def upTo (x : Site) : List Char := x.before ++ x.piece.text

/-- The token of a lexeme, on the line on which the lexeme ends. -/
def token? (x : Site) : Option Token :=
  x.piece.token?.map fun (kind, lexeme, literal) =>
    ⟨kind, lexeme, literal, 1 + x.upTo.count '\n'⟩

/-- The error of a faulty piece of `text`. An unexpected character is on the line on which it
stands, what is unterminated is on the last line. -/
def error? (text : List Char) (x : Site) : Option LexError :=
  x.piece.problem?.map fun
    | .unexpectedCharacter c => ⟨1 + x.before.count '\n', .unexpectedCharacter c⟩
    | problem => ⟨1 + text.count '\n', problem⟩

end Site

/-- The pieces of a text, each with all of the text before it. -/
def sites : List Char → List Piece → List Site
  | _, [] => []
  | before, p :: ps => ⟨before, p⟩ :: sites (before ++ p.text) ps

theorem mem_sites {x : Site} {before : List Char} {ps : List Piece} (h : x ∈ sites before ps) :
    ∃ us vs, ps = us ++ x.piece :: vs ∧ x.before = before ++ us.flatMap Piece.text := by
  induction ps generalizing before with
  | nil => cases h
  | cons p ps ih =>
    obtain rfl | h := List.mem_cons.mp h
    · exact ⟨[], ps, rfl, by simp⟩
    · obtain ⟨us, vs, rfl, hbefore⟩ := ih h
      exact ⟨p :: us, vs, rfl, by simp [hbefore]⟩

/-- What comes later stands behind what comes earlier. -/
theorem sites_ordered (before : List Char) (ps : List Piece) :
    (sites before ps).Pairwise fun x y => x.upTo <+: y.before := by
  induction ps generalizing before with
  | nil => exact .nil
  | cons p ps ih =>
    refine .cons (fun y hy => ?_) (ih _)
    obtain ⟨us, vs, -, hbefore⟩ := mem_sites hy
    rw [hbefore]
    exact List.prefix_append _ _

theorem Split.flatMap_text {cs : List Char} {ps : List Piece} (h : Split cs ps) :
    ps.flatMap Piece.text = cs := by
  rw [h.eq_pieces, text_pieces]

/-- Every piece of a split fits in front of the pieces after it. -/
theorem Split.fits {cs : List Char} {us vs : List Piece} {p : Piece}
    (h : Split cs (us ++ p :: vs)) : Fits p.shape p.text (vs.flatMap Piece.text) := by
  induction us generalizing cs with
  | nil =>
    cases h with
    | cons hp hs =>
      rw [hs.flatMap_text]
      exact hp
  | cons u us ih =>
    cases h with
    | cons hp hs => exact ih hs

/-- A piece of a text fits where it stands. -/
theorem fits_of_mem_sites {text : List Char} {x : Site} (h : x ∈ sites [] (pieces text)) :
    ∃ rest, Fits x.piece.shape x.piece.text rest ∧ x.upTo ++ rest = text := by
  obtain ⟨us, vs, hps, hbefore⟩ := mem_sites h
  have hsplit : Split text (us ++ x.piece :: vs) := hps ▸ split_pieces text
  refine ⟨vs.flatMap Piece.text, hsplit.fits, ?_⟩
  rw [Site.upTo, hbefore, ← hsplit.flatMap_text]
  simp

/-! ## Readings -/

/-- The readings of a text, each on the line on which its piece ends. -/
theorem readings_sites (before : List Char) (ps : List Piece) :
    readingsFrom (1 + before.count '\n') ps =
      (sites before ps).filterMap (fun x => x.piece.reading? (1 + x.upTo.count '\n')) ++
        [.ok (Token.eof (1 + (before ++ ps.flatMap Piece.text).count '\n'))] := by
  induction ps generalizing before with
  | nil => simp [readingsFrom, sites]
  | cons p ps ih =>
    have hline : 1 + before.count '\n' + p.breaks = 1 + (before ++ p.text).count '\n' := by
      rw [List.count_append, Piece.breaks, Nat.add_assoc]
    rw [readingsFrom, hline, ih, List.append_assoc, ← List.flatMap_cons, sites]
    dsimp only [List.filterMap_cons, Site.upTo]
    cases p.reading? (1 + (before ++ p.text).count '\n') <;> rfl

theorem reading_token (x : Site) :
    ((x.piece.reading? (1 + x.upTo.count '\n')).bind fun r => r.toOption) = x.token? := by
  unfold Site.token? Piece.reading? Piece.token?
  cases x.piece.shape <;> rfl

/-- The tokens of a text, each on the line on which its lexeme ends, and the end token on the
last line. -/
theorem scan_tokens_sites (source : String) :
    (scan source).tokens = (sites [] (pieces source.toList)).filterMap Site.token? ++
      [Token.eof (1 + source.toList.count '\n')] := by
  have hreadings := readings_sites [] (pieces source.toList)
  rw [text_pieces] at hreadings
  simp only [scan, readings]
  rw [show 1 = 1 + [].count '\n' from rfl, hreadings, List.filterMap_append,
    List.filterMap_filterMap]
  simp only [reading_token]
  rfl

/-- The error of a faulty piece is on the line that `Site.error?` says, although scanning
counts up to the end of every piece. -/
theorem reading_error {text : List Char} {x : Site} (h : x ∈ sites [] (pieces text)) :
    ((x.piece.reading? (1 + x.upTo.count '\n')).bind fun
      | .ok _ => none
      | .error e => some e) = x.error? text := by
  obtain ⟨rest, hfits, hupTo⟩ := fits_of_mem_sites h
  unfold Site.error? Piece.reading? Piece.problem?
  generalize htext : x.piece.text = w at hfits
  cases hs : x.piece.shape with
  | unexpected =>
    rw [hs] at hfits
    cases hfits with
    | @unexpected c _ hb hq hnone =>
      -- The character itself is no line break.
      have hc : c ≠ '\n' := by
        rintro rfl
        cases hb
      simp [Site.upTo, htext, hc]
  | unterminatedString | unterminatedComment =>
    rw [hs] at hfits
    cases hfits
    -- The piece reaches to the end of the text.
    rw [List.append_nil] at hupTo
    simp [hupTo]
  | blank | lineComment | blockComment | lexeme => rfl

/-- The errors of a text with their lines. -/
theorem scan_errors_sites (source : String) :
    (scan source).errors =
      (sites [] (pieces source.toList)).filterMap (Site.error? source.toList) := by
  have hreadings := readings_sites [] (pieces source.toList)
  simp only [scan, readings]
  rw [show 1 = 1 + [].count '\n' from rfl, hreadings, List.filterMap_append,
    List.filterMap_filterMap]
  simp only [List.filterMap_cons, List.filterMap_nil, List.append_nil]
  exact List.filterMap_congr fun x hx => reading_error hx

/-- Later tokens are not on earlier lines. -/
theorem scan_tokens_sorted (source : String) :
    (scan source).tokens.Pairwise fun t u => t.line ≤ u.line := by
  have hline : ∀ x : Site, ∀ t ∈ x.token?, t.line = 1 + x.upTo.count '\n' := by
    intro x t ht
    obtain ⟨w, -, rfl⟩ := Option.map_eq_some_iff.mp ht
    rfl
  rw [scan_tokens_sites, List.pairwise_append]
  refine ⟨?_, List.pairwise_singleton _ _, ?_⟩
  · refine (sites_ordered [] _).filterMap _ fun x y hxy t ht u hu => ?_
    have hprefix : x.upTo <+: y.upTo := hxy.trans (List.prefix_append y.before y.piece.text)
    have hle := hprefix.sublist.count_le '\n'
    rw [hline x t ht, hline y u hu]
    omega
  · intro t ht u hu
    obtain ⟨x, hx, ht⟩ := List.mem_filterMap.mp ht
    obtain rfl := List.mem_singleton.mp hu
    obtain ⟨rest, -, hupTo⟩ := fits_of_mem_sites hx
    have hprefix : x.upTo <+: source.toList := ⟨rest, hupTo⟩
    have hle := hprefix.sublist.count_le '\n'
    rw [hline x t ht]
    exact Nat.add_le_add_left hle 1

/-- What is unterminated is reported on the last line. -/
theorem unterminated_line {source : String} {e : LexError} (h : e ∈ (scan source).errors)
    (hu : e.problem = .unterminatedString ∨ e.problem = .unterminatedComment) :
    e.line = endLine source := by
  rw [scan_errors_sites] at h
  obtain ⟨x, -, hx⟩ := List.mem_filterMap.mp h
  obtain ⟨problem, -, rfl⟩ := Option.map_eq_some_iff.mp hx
  cases problem with
  | unexpectedCharacter c => simp at hu
  | unterminatedString | unterminatedComment => rfl

end Lexical

open Lexical

/-- A text has one split into fitting pieces, and lines are counted on it. A token is on line
one plus the number of line breaks up to the end of its lexeme, the end token on one plus the
number of all line breaks, an unexpected character on one plus the number of those before it,
and what is unterminated on the line of the end token. So the lines of tokens never go down.
The scanner that adds one to its line at each line break it passes comes to the same lines. -/
theorem line_numbers_exact (source : String) :
    ∃ ps : List Piece,
      (∀ ps', Split source.toList ps' ↔ ps' = ps) ∧
      (∀ x ∈ sites [] ps, x.upTo <+: source.toList) ∧
      (scan source).tokens = (sites [] ps).filterMap Site.token? ++
        [Token.eof (1 + source.toList.count '\n')] ∧
      (scan source).errors = (sites [] ps).filterMap (Site.error? source.toList) ∧
      ((scan source).tokens.Pairwise fun t u => t.line ≤ u.line) ∧
      scanCharacters source = readings source := by
  refine ⟨pieces source.toList, fun ps' => split_iff, fun x hx => ?_, scan_tokens_sites source,
    scan_errors_sites source, scan_tokens_sorted source, scanCharacters_eq source⟩
  obtain ⟨rest, -, hupTo⟩ := fits_of_mem_sites hx
  exact ⟨rest, hupTo⟩

-- A string is on the line of its closing quote, and a comment moves what comes after it down.
example : (scan "\"a\nb\"\n/*\n*/ c").tokens.map Token.line = [2, 4, 4] := by
  decide +kernel

/-- A text is scanned apart from every text after a line break exactly if nothing in it is
unterminated: the tokens, without the end token of the first text, and the errors of both come
one after the other, those of the second text further down by the lines of the first. -/
theorem line_break_separates (a : String) :
    ∃ ts, (scan a).tokens = ts ++ [Token.eof (endLine a)] ∧
      ((∀ e ∈ (scan a).errors, e.problem ≠ .unterminatedString ∧
          e.problem ≠ .unterminatedComment) ↔
        ∀ b, (scan (a ++ "\n" ++ b)).tokens =
            ts ++ (scan b).tokens.map (Token.relabel (· + endLine a)) ∧
          (scan (a ++ "\n" ++ b)).errors =
            (scan a).errors ++ (scan b).errors.map fun e =>
              { e with line := e.line + endLine a }) := by
  refine ⟨_, scan_tokens_sites a, ⟨fun h b => ?_, fun h e he => ?_⟩⟩
  · obtain ⟨htokens, herrors⟩ := scan_newline a b h
    rw [scan_tokens_sites a, List.dropLast_concat] at htokens
    exact ⟨htokens, herrors⟩
  · -- An unterminated piece would swallow the line break and end one line further down.
    have hmem : e ∈ (scan (a ++ "\n" ++ "")).errors := by
      rw [(h "").2]
      exact List.mem_append_left _ he
    have hdown : endLine (a ++ "\n" ++ "") = endLine a + 1 := by
      simp [endLine, String.toList_append, Nat.add_assoc]
    rw [← not_or]
    intro hu
    have hhere := unterminated_line he hu
    have hthere := unterminated_line hmem hu
    omega

end Treewalk
