import Treewalk.Proofs.Lexical.Respelling
import Treewalk.Proofs.Printing.Form
import Treewalk.Proofs.Session.Layout

/-!
# Tokens read off their spelling

A token of a text can be had back from its spelling, up to its line, by scanning the spelling
alone. Where the spelling is not at hand, the kind will do, unless it is one of names or
constants.

Results:

* `Token.alone_lexeme`: a token is what its lexeme alone is scanned as.
* `Token.Scanned.bare`: names and operators are words that no number looks like.
-/
namespace Treewalk

open Lexical

/-! ## Tokens of a text -/

namespace Token

/-- The token is spelled as tokens of its kind are, and its value is read off its spelling. -/
structure Scanned (t : Token) : Prop where
  spelling : Lexeme t.kind t.lexeme.toList
  value : t.literal = literalOf t.kind t.lexeme.toList

theorem scanned_of_mem {source : String} {t : Token} (h : t ∈ (scan source).tokens)
    (hne : t.kind ≠ .eof) : t.Scanned := by
  refine ⟨?_, literal_of_scanned h⟩
  have hmem := List.mem_map_of_mem (f := fun t : Token => (t.kind, t.lexeme, t.literal)) h
  rw [scan_spellings, ← tokens_lexemes] at hmem
  obtain hpiece | hend := List.mem_append.mp hmem
  · obtain ⟨p, hp, htoken⟩ := List.mem_filterMap.mp hpiece
    obtain ⟨k, hshape, hlexeme⟩ := spelled_lexemes _ p hp
    simp only [Piece.token?, hshape, Option.some.injEq, Prod.mk.injEq] at htoken
    rw [← htoken.1, ← htoken.2.1, String.toList_ofList]
    exact hlexeme
  · simp only [List.mem_singleton, Prod.mk.injEq] at hend
    exact absurd hend.1 hne

theorem scanned_of_programTokens {source : String} :
    ∀ t ∈ programTokens (scan source).tokens, t.Scanned := by
  intro t ht
  have hkind := List.all_eq_true.mp List.all_takeWhile t ht
  exact scanned_of_mem (List.takeWhile_subset _ ht) (by simpa using hkind)

/-- The first token of a text, without its line. -/
def alone (w : String) : Token := ((scan w).tokens.headD (eof 0)).relabel blank

theorem alone_eq {k : Kind} {w : String} (h : Lexeme k w.toList) :
    alone w = ⟨k, w, literalOf k w.toList, 0⟩ := by
  obtain ⟨c, cs, hw⟩ := List.exists_cons_of_ne_nil h.ne_nil
  have hpieces : [⟨.lexeme k, c, cs⟩] = pieces w.toList := by
    have hfits : Fits (.lexeme k) (c :: cs) [] := hw ▸ h.fits_alone
    have hsplit : Split (Piece.text ⟨.lexeme k, c, cs⟩ ++ []) _ := .cons hfits .nil
    rw [List.append_nil] at hsplit
    exact hw ▸ hsplit.eq_pieces
  have htokens := scan_spellings w
  rw [← hpieces] at htokens
  obtain ⟨t, ts, ht⟩ := List.exists_cons_of_ne_nil (l := (scan w).tokens) fun hnil => by
    rw [hnil] at htokens
    cases htokens
  rw [ht] at htokens
  obtain ⟨hkind, hlexeme, hliteral⟩ : t.kind = k ∧ t.lexeme = String.ofList (c :: cs) ∧
      t.literal = literalOf k (c :: cs) := by
    simpa [Piece.token?, Piece.text] using (List.cons.inj htokens).1
  rw [alone, ht, List.headD_cons, Token.relabel, hkind, hlexeme, hliteral, ← hw,
    String.ofList_toList]
  rfl

/-- A token is what its lexeme alone is scanned as. -/
theorem alone_lexeme {t : Token} (h : t.Scanned) : alone t.lexeme = t.relabel blank := by
  rw [alone_eq h.spelling, ← h.value]
  rfl

/-- A token of this kind is what the spelling alone is scanned as. -/
theorem Scanned.alone_kind {t : Token} (h : t.Scanned) {w : String} (hw : Lexeme t.kind w.toList)
    (hk : isOpen t.kind = false) : alone w = t.relabel blank := by
  rw [← alone_lexeme h, String.toList_inj.mp (h.spelling.spelling_unique hw hk)]

/-! ## Words -/

theorem plain_of_inWord {c : Char} (h : Piece.inWord c = true) : Form.plain c = true := by
  cases hc : Form.plain c with
  | true => rfl
  | false =>
    simp only [Form.plain, Form.ends, Bool.and_eq_false_iff, Bool.not_eq_false', Bool.or_eq_true,
      decide_eq_true_eq, decide_eq_false_iff_not, Decidable.not_not] at hc
    -- None of the characters that end a word is a letter or a digit.
    obtain (((rfl | rfl) | rfl) | rfl) | rfl := hc <;> cases h

/-- Such a token stands in a tree as a word. -/
def isWord (k : Kind) : Bool :=
  k ≠ .string && k ≠ .number && k ≠ .leftParen && k ≠ .rightParen

/-- Names and operators are words that no number looks like. -/
theorem Scanned.bare {t : Token} (h : t.Scanned) (hk : isWord t.kind = true) :
    Form.bare t.lexeme.toList = true := by
  have hsymbols : ∀ s ∈ symbols, isWord s.2 = true → Form.bare s.1 = true := by decide
  obtain ⟨hspelling, -⟩ := h
  generalize t.kind = k at hspelling hk
  generalize t.lexeme.toList = w at hspelling
  cases hspelling with
  | symbol h => exact hsymbols _ h hk
  | @word c cs hc hcs =>
    have hdigit : c.isDigit = false := Lexical.not_isDigit_of_startsWord hc
    have hminus : c ≠ '-' := by
      rintro rfl
      cases hc
    refine Form.bare_iff.mpr ⟨⟨nofun, fun d hd => plain_of_inWord ?_⟩, ?_⟩
    · obtain rfl | hd := List.mem_cons.mp hd
      · simp [Piece.inWord, hc]
      · exact hcs d hd
    · simp [Form.numeric, hminus, hdigit]
  | whole | decimal | string => cases hk

end Token

end Treewalk
