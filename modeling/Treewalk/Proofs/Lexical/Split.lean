import Treewalk.Proofs.Lexical.Extent

/-!
# A text has one split

Results:

* `split_iff`: the pieces of a text are the only way to split it into pieces that
  fit.
* `scan_maximal_munch`: the tokens are the lexemes of this split with an end token
  after them, the errors its faulty pieces.
-/
namespace Treewalk

namespace Lexical

open Piece

/-! ## Only one piece fits -/

/-- A piece of the text that `extent` looks at, and what comes after it. -/
def Found (c : Char) (cs : List Char) (shape : Shape) (w rest : List Char) : Prop :=
  (extent c cs).1 = shape ∧ cs.take (extent c cs).2 = w ∧ cs.drop (extent c cs).2 = rest

/-- What `extent` finds when it gives the length of the piece. -/
theorem found_append {c : Char} {shape : Shape} {w rest : List Char}
    (h : extent c (w ++ rest) = (shape, w.length)) : Found c (w ++ rest) shape w rest := by
  rw [Found, h]
  exact ⟨rfl, List.take_left, List.drop_left⟩

theorem extent_blank {c : Char} (h : isBlank c = true) (cs : List Char) :
    extent c cs = (.blank, 0) := by
  simp only [isBlank, Bool.or_eq_true, decide_eq_true_eq, or_assoc] at h
  obtain rfl | rfl | rfl | rfl := h <;> rfl

/-- No lexeme starts with a blank. -/
theorem Lexeme.not_blank {k : Kind} {c : Char} {w : List Char} (h : Lexeme k (c :: w)) :
    isBlank c = false := by
  cases hb : isBlank c with
  | false => rfl
  | true =>
    have hs := h.of_cons
    simp only [isBlank, Bool.or_eq_true, decide_eq_true_eq, or_assoc] at hb
    have hi : initial c = .symbol := by obtain rfl | rfl | rfl | rfl := hb <;> rfl
    rw [hi] at hs
    have hmem := symbols_head _ hs
    obtain rfl | rfl | rfl | rfl := hb <;> cases hmem

/-- A slash is a lexeme. -/
theorem lexeme_slash : Lexeme .slash ['/'] := .symbol (by decide)

theorem found_lexeme {k : Kind} {c : Char} {w rest : List Char}
    (hopen : ¬ OpensComment (c :: w ++ rest)) (h : Lexeme k (c :: w))
    (longest : ∀ k' w', Lexeme k' w' → w' <+: c :: w ++ rest → w'.length ≤ (c :: w).length) :
    Found c (w ++ rest) (.lexeme k) w rest := by
  have hf := fits_extent c (w ++ rest)
  unfold Found
  generalize hw' : (w ++ rest).take (extent c (w ++ rest)).2 = w' at hf ⊢
  generalize hr' : (w ++ rest).drop (extent c (w ++ rest)).2 = rest' at hf ⊢
  have htext : w' ++ rest' = w ++ rest := by rw [← hw', ← hr', List.take_append_drop]
  generalize (extent c (w ++ rest)).1 = shape at hf ⊢
  rw [List.cons_append, ← htext] at hopen
  have hpre : c :: w <+: c :: (w' ++ rest') := by
    rw [htext]
    exact List.prefix_append (c :: w) rest
  generalize hv : c :: w' = v at hf
  cases hf with
  | blank hb =>
    cases hv
    rw [h.not_blank] at hb
    cases hb
  | lineComment =>
    cases hv
    exact absurd (.inl ⟨_, rfl⟩) hopen
  | blockComment =>
    cases hv
    exact absurd (.inr ⟨_, rfl⟩) hopen
  | unterminatedComment =>
    cases hv
    exact absurd (.inr ⟨_, rfl⟩) hopen
  | lexeme hopen' h' longest' =>
    subst hv
    have hle : (c :: w').length ≤ (c :: w).length := by
      refine longest _ _ h' ?_
      rw [List.cons_append, ← htext]
      exact List.prefix_append (c :: w') rest'
    have hge : (c :: w).length ≤ (c :: w').length := longest' _ _ h hpre
    have hcons := (List.prefix_of_prefix_length_le hpre
      (List.prefix_append (c :: w') rest') hge).eq_of_length (by omega)
    obtain rfl := (List.cons.inj hcons).2
    rw [h'.kind_unique h]
    exact ⟨rfl, rfl, List.append_cancel_left htext⟩
  | unexpected hb hq hnone =>
    cases hv
    exact absurd hpre (hnone k _ h)
  | @unterminatedString body hbody =>
    cases hv
    obtain ⟨-, cs, -, rfl⟩ : Sorted '"' w k .quote := h.of_cons
    rw [List.append_nil] at htext
    exact absurd (by simp [htext]) hbody

theorem found_unexpected {c : Char} {rest : List Char} (hb : isBlank c = false) (hq : c ≠ '"')
    (hnone : ∀ k w, Lexeme k w → ¬ w <+: c :: rest) : Found c rest .unexpected [] rest := by
  have hf := fits_extent c rest
  unfold Found
  generalize hw' : rest.take (extent c rest).2 = w' at hf ⊢
  generalize hr' : rest.drop (extent c rest).2 = rest' at hf ⊢
  have htext : w' ++ rest' = rest := by rw [← hw', ← hr', List.take_append_drop]
  generalize (extent c rest).1 = shape at hf ⊢
  -- A comment would start with a slash, which is a lexeme.
  have hslash : c ≠ '/' := by
    rintro rfl
    exact hnone _ _ lexeme_slash ⟨rest, rfl⟩
  generalize hv : c :: w' = v at hf
  cases hf with
  | blank hb' =>
    cases hv
    rw [hb] at hb'
    cases hb'
  | lineComment | blockComment | unterminatedComment =>
    cases hv
    exact absurd rfl hslash
  | lexeme hopen' h' longest' =>
    subst hv
    refine absurd ?_ (hnone _ _ h')
    rw [← htext]
    exact List.prefix_append (c :: w') rest'
  | unexpected =>
    cases hv
    exact ⟨rfl, rfl, htext⟩
  | unterminatedString =>
    cases hv
    exact absurd rfl hq

/-- A piece that fits is the one that is found. -/
theorem found_of_fits {shape : Shape} {c : Char} {w rest : List Char}
    (h : Fits shape (c :: w) rest) : Found c (w ++ rest) shape w rest := by
  generalize hv : c :: w = v at h
  cases h with
  | blank hb =>
    cases hv
    exact found_append (extent_blank hb _)
  | @lineComment body _ hbody hrest =>
    cases hv
    have hrun : run (· ≠ '\n') (body ++ rest) = body.length := by
      refine run_append (fun x hx => decide_eq_true ?_) fun x hx => decide_eq_false ?_
      · rintro rfl
        exact hbody hx
      · exact fun hne => hne (hrest x hx)
    refine found_append ?_
    show afterSlash ('/' :: (body ++ rest)) = _
    rw [afterSlash, hrun, Nat.add_comm]
    rfl
  | @blockComment body _ hbody =>
    cases hv
    refine found_append ?_
    show afterSlash ('*' :: (body ++ ['*', '/'] ++ rest)) = _
    rw [afterSlash, commentEnd_append hbody]
    simp [Nat.add_comm]
  | lexeme hopen h longest =>
    subst hv
    exact found_lexeme hopen h longest
  | unexpected hb hq hnone =>
    cases hv
    exact found_unexpected hb hq hnone
  | unterminatedString hbody =>
    cases hv
    have hidx : w.findIdx? (· = '"') = none := by
      rw [List.findIdx?_eq_none_iff]
      rintro x hx
      exact decide_eq_false fun e => hbody (e ▸ hx)
    refine found_append ?_
    show afterQuote (w ++ []) = _
    rw [List.append_nil, afterQuote, hidx]
  | @unterminatedComment body hbody =>
    cases hv
    refine found_append ?_
    show afterSlash ('*' :: (body ++ [])) = _
    rw [List.append_nil, afterSlash, commentEnd_of_not_infix hbody]
    simp [Nat.add_comm]

/-! ## Splits -/

/-- The pieces of a text fit. -/
theorem split_pieces (cs : List Char) : Split cs (pieces cs) := by
  fun_induction pieces cs with
  | case1 => exact .nil
  | case2 c cs shape n h ih =>
    have hf := fits_extent c cs
    rw [h] at hf
    have := Split.cons (p := ⟨shape, c, cs.take n⟩) hf ih
    rwa [Piece.text, List.cons_append, List.take_append_drop] at this

/-- Pieces that fit are the pieces of the text. -/
theorem Split.eq_pieces {cs : List Char} {ps : List Piece} (h : Split cs ps) : ps = pieces cs := by
  induction h with
  | nil => rw [pieces]
  | @cons p rest ps h hs ih =>
    obtain ⟨shape, c, w⟩ := p
    obtain ⟨hshape, hw, hrest⟩ := found_of_fits h
    rw [Piece.text, List.cons_append, pieces_cons]
    dsimp only at hshape hw hrest ⊢
    rw [hshape, hw, hrest, ih]

theorem split_iff {cs : List Char} {ps : List Piece} : Split cs ps ↔ ps = pieces cs :=
  ⟨Split.eq_pieces, fun h => h ▸ split_pieces cs⟩

/-! ## Tokens and errors -/

end Lexical

namespace Piece

/-- The kind, the spelling and the value of a piece that is a lexeme. -/
def token? (p : Piece) : Option (Kind × String × Option Literal) :=
  match p.shape with
  | .lexeme kind => some (kind, String.ofList p.text, literalOf kind p.text)
  | _ => none

/-- What is wrong with a faulty piece. -/
def problem? (p : Piece) : Option LexProblem :=
  match p.shape with
  | .unexpected => some (.unexpectedCharacter p.first)
  | .unterminatedString => some .unterminatedString
  | .unterminatedComment => some .unterminatedComment
  | _ => none

end Piece

namespace Lexical

theorem readings_tokens (line : Nat) (ps : List Piece) :
    ((readingsFrom line ps).filterMap fun r => r.toOption).map
        (fun t => (t.kind, t.lexeme, t.literal)) =
      ps.filterMap Piece.token? ++ [(.eof, "", none)] := by
  have hok (t : Token) : (Except.ok t : Reading).toOption = some t := rfl
  have herror (e : LexError) : (Except.error e : Reading).toOption = none := rfl
  induction ps generalizing line with
  | nil => rfl
  | cons p ps ih =>
    cases hs : p.shape <;> simp [readingsFrom, Piece.reading?, Piece.token?, hs, hok, herror, ih]

theorem readings_problems (line : Nat) (ps : List Piece) :
    ((readingsFrom line ps).filterMap fun
        | .ok _ => none
        | .error e => some e).map LexError.problem =
      ps.filterMap Piece.problem? := by
  induction ps generalizing line with
  | nil => rfl
  | cons p ps ih =>
    cases hs : p.shape <;> simp [readingsFrom, Piece.reading?, Piece.problem?, hs, ih]

/-- The tokens of a text up to their lines. -/
theorem scan_spellings (source : String) :
    (scan source).tokens.map (fun t => (t.kind, t.lexeme, t.literal)) =
      (pieces source.toList).filterMap Piece.token? ++ [(.eof, "", none)] :=
  readings_tokens 1 _

/-- The errors of a text up to their lines. -/
theorem scan_problems (source : String) :
    (scan source).errors.map LexError.problem = (pieces source.toList).filterMap Piece.problem? :=
  readings_problems 1 _

/-- Nothing comes after an unterminated piece. -/
theorem Fits.terminated {shape : Shape} {w rest : List Char} (h : Fits shape w rest)
    (hne : rest ≠ []) : shape ≠ .unterminatedString ∧ shape ≠ .unterminatedComment := by
  cases h <;> first | exact absurd rfl hne | exact ⟨nofun, nofun⟩

/-- Only the last piece can be unterminated. -/
theorem Split.dropLast {cs : List Char} {ps : List Piece} (h : Split cs ps) :
    ∀ p ∈ ps.dropLast, ∀ q ∈ p.problem?, ∃ c, q = .unexpectedCharacter c := by
  induction h with
  | nil => exact List.forall_mem_nil _
  | @cons p rest ps hp hs ih =>
    cases hs with
    | nil => exact List.forall_mem_nil _
    | @cons p' rest' ps' hp' hs' =>
      intro x hx q hq
      rw [List.dropLast_cons_cons, List.mem_cons] at hx
      obtain rfl | hx := hx
      · obtain ⟨hstring, hcomment⟩ := hp.terminated nofun
        unfold Piece.problem? at hq
        cases hs : x.shape with
        | unexpected => rw [hs] at hq; cases hq; exact ⟨_, rfl⟩
        | unterminatedString => exact absurd hs hstring
        | unterminatedComment => exact absurd hs hcomment
        | _ => rw [hs] at hq; cases hq
      · exact ih x hx q hq

/-- What is found before the last one of all is found in what comes before the last. -/
theorem mem_dropLast_filterMap {α β : Type} (f : α → Option β) {xs : List α} {b : β}
    (h : b ∈ (xs.filterMap f).dropLast) : ∃ a ∈ xs.dropLast, f a = some b := by
  cases hx : xs.getLast? with
  | none =>
    rw [List.getLast?_eq_none_iff.mp hx] at h
    cases h
  | some a =>
    obtain ⟨ys, rfl⟩ := List.getLast?_eq_some_iff.mp hx
    rw [List.filterMap_append] at h
    rw [List.dropLast_concat]
    refine List.mem_filterMap.mp ?_
    cases hf : f a with
    | none => simpa [hf] using List.dropLast_subset _ h
    | some c => simpa [hf] using h

end Lexical

/-- A text has one split into fitting pieces, and scanning is that split: the tokens are
its lexemes followed by an end token, the errors its faulty pieces, and only the last
error can be about something unterminated. -/
theorem scan_maximal_munch (source : String) :
    ∃ ps : List Piece,
      (∀ ps', Lexical.Split source.toList ps' ↔ ps' = ps) ∧
      ps.flatMap Piece.text = source.toList ∧
      (scan source).tokens.map (fun t => (t.kind, t.lexeme, t.literal)) =
        ps.filterMap Piece.token? ++ [(.eof, "", none)] ∧
      (scan source).errors.map LexError.problem = ps.filterMap Piece.problem? ∧
      ∀ e ∈ (scan source).errors.dropLast, ∃ c, e.problem = .unexpectedCharacter c := by
  have hproblems : (scan source).errors.map LexError.problem =
      (pieces source.toList).filterMap Piece.problem? := Lexical.readings_problems 1 _
  refine ⟨pieces source.toList, fun ps' => Lexical.split_iff, text_pieces _,
    Lexical.readings_tokens 1 _, hproblems, fun e he => ?_⟩
  have hmem : e.problem ∈ ((pieces source.toList).filterMap Piece.problem?).dropLast := by
    rw [← hproblems, ← List.map_dropLast]
    exact List.mem_map_of_mem he
  obtain ⟨p, hp, hq⟩ := Lexical.mem_dropLast_filterMap _ hmem
  exact (Lexical.split_pieces source.toList).dropLast p hp _ hq

end Treewalk
