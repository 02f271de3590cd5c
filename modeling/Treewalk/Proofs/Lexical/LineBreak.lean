import Treewalk.Proofs.Lexical.Split
import Treewalk.Tree.Parser.Program
import Treewalk.Proofs.Lines.Relabel

/-!
# Scanning across a line break

A line break ends every piece before it except a string or a comment that still
waits for its end. So two texts with a line break between them are scanned one
after the other, and the second one starts further down.

Results:

* `pieces_newline`: the pieces of two texts with a line break between them.
* `scan_newline`: their tokens and errors.
* `scan_tokens`: no token but the last is an end token.
-/
namespace Treewalk

namespace Lexical

/-! ## Pieces -/

/-- What starts a text and does not contain the character `x` starts the part before `x`. -/
theorem prefix_of_not_mem {x : Char} {b : List Char} : ∀ {v cs : List Char}, x ∉ v →
    v <+: cs ++ x :: b → v <+: cs
  | [], _, _, _ => List.nil_prefix
  | c :: v, [], hv, hp => by
    obtain ⟨rfl, -⟩ := List.cons_prefix_cons.mp hp
    exact absurd (.head _) hv
  | c :: v, d :: cs, hv, hp => by
    obtain ⟨rfl, htail⟩ := List.cons_prefix_cons.mp hp
    rw [List.cons_prefix_cons]
    exact ⟨rfl, prefix_of_not_mem (fun h => hv (.tail _ h)) htail⟩

/-- A lexeme at the start of a text does not reach across a blank, unless it is a string. -/
theorem Lexeme.prefix_blank {k : Kind} {c x : Char} {w cs b : List Char} (h : Lexeme k (c :: w))
    (hx : isBlank x = true) (hc : c ≠ '"') (hp : c :: w <+: cs ++ x :: b) : c :: w <+: cs := by
  refine prefix_of_not_mem (fun hmem => ?_) hp
  have := h.quoted hx hmem
  simp only [List.head?_cons, Option.some.injEq] at this
  exact hc this

/-- A lexeme that has ended still fits when a blank comes after its text. -/
theorem Fits.blank_after {k : Kind} {x : Char} {w rest : List Char} (h : Fits (.lexeme k) w rest)
    (hx : isBlank x = true) (b : List Char) : Fits (.lexeme k) w (rest ++ x :: b) := by
  cases h with
  | lexeme hopen h longest =>
    cases w with
    | nil => exact absurd rfl h.ne_nil
    | cons c w =>
      refine .lexeme ?_ h fun k' w' h' hp => ?_
      · have hslash : x ≠ '/' := by
          rintro rfl
          cases hx
        have hstar : x ≠ '*' := by
          rintro rfl
          cases hx
        rw [← List.append_assoc]
        rintro (hp | hp)
        · exact hopen (.inl (prefix_of_not_mem (by simp [hslash]) hp))
        · exact hopen (.inr (prefix_of_not_mem (by simp [hslash, hstar]) hp))
      · cases w' with
        | nil => exact absurd rfl h'.ne_nil
        | cons d w' =>
          obtain ⟨rfl, htail⟩ := List.cons_prefix_cons.mp hp
          by_cases hq : d = '"'
          · -- Both are strings, and a string ends at the first quote.
            subst hq
            obtain ⟨-, cs, hcs, rfl⟩ : Sorted '"' w _ .quote := h.of_cons
            obtain ⟨-, cs', hcs', rfl⟩ : Sorted '"' w' k' .quote := h'.of_cons
            have htail' : cs' ++ ['"'] <+: cs ++ '"' :: (rest ++ x :: b) := by simpa using htail
            obtain rfl := eq_of_until hcs' hcs htail'
            exact Nat.le_refl _
          · rw [← List.append_assoc] at hp
            exact longest _ _ h' (h'.prefix_blank hx hq hp)

/-- A piece that has ended still fits when a line break comes after its text. -/
theorem Fits.newline {shape : Shape} {w rest : List Char} (h : Fits shape w rest)
    (hs : shape ≠ .unterminatedString) (hc : shape ≠ .unterminatedComment) (b : List Char) :
    Fits shape w (rest ++ '\n' :: b) := by
  cases h with
  | blank hb => exact .blank hb
  | lineComment hbody hrest =>
    refine .lineComment hbody ?_
    cases rest with
    | nil =>
      intro c hc
      cases hc
      rfl
    | cons d rest => exact hrest
  | blockComment hbody => exact .blockComment hbody
  | lexeme hopen h longest => exact (Fits.lexeme hopen h longest).blank_after (by decide) b
  | unexpected hb hq hnone =>
    refine .unexpected hb hq fun k w hw hp => ?_
    cases w with
    | nil => exact hw.ne_nil rfl
    | cons d w =>
      obtain ⟨rfl, -⟩ := List.cons_prefix_cons.mp hp
      exact hnone k _ hw (hw.prefix_blank (by decide) hq hp)
  | unterminatedString => exact absurd rfl hs
  | unterminatedComment => exact absurd rfl hc

/-- The piece that is a line break. -/
def lineBreak : Piece := ⟨.blank, '\n', []⟩

/-- No piece waits for its end. -/
def Terminated (ps : List Piece) : Prop :=
  ∀ p ∈ ps, p.shape ≠ .unterminatedString ∧ p.shape ≠ .unterminatedComment

theorem Split.newline {a b : List Char} {ps qs : List Piece} (h : Split a ps)
    (ht : Terminated ps) (h' : Split b qs) : Split (a ++ '\n' :: b) (ps ++ lineBreak :: qs) := by
  induction h with
  | nil => exact .cons (p := lineBreak) (.blank (by decide)) h'
  | @cons p rest ps hp hs ih =>
    obtain ⟨hstring, hcomment⟩ := ht p (.head _)
    rw [List.append_assoc]
    exact .cons (hp.newline hstring hcomment b) (ih fun q hq => ht q (.tail _ hq))

/-- The pieces of two texts with a line break between them. -/
theorem pieces_newline {a b : List Char} (ht : Terminated (pieces a)) :
    pieces (a ++ '\n' :: b) = pieces a ++ lineBreak :: pieces b :=
  ((split_pieces a).newline ht (split_pieces b)).eq_pieces.symm

/-! ## Readings -/

/-- A reading on another line. -/
def relabelReading (f : Nat → Nat) : Reading → Reading
  | .ok t => .ok (t.relabel f)
  | .error e => .error { e with line := f e.line }

/-- The same pieces further down. -/
theorem readingsFrom_add (line k : Nat) (ps : List Piece) :
    readingsFrom (line + k) ps = (readingsFrom line ps).map (relabelReading (· + k)) := by
  induction ps generalizing line with
  | nil => rfl
  | cons p ps ih =>
    have hline : line + k + p.breaks = line + p.breaks + k := by omega
    simp only [readingsFrom, hline, ih]
    cases hs : p.shape <;> simp [Piece.reading?, hs, relabelReading, Token.relabel]

/-- The readings of a sequence of pieces, whatever comes after it. -/
theorem readingsFrom_append (line : Nat) (ps : List Piece) :
    ∃ rs, ∀ qs, readingsFrom line (ps ++ qs) =
      rs ++ readingsFrom (line + (ps.flatMap Piece.text).count '\n') qs := by
  induction ps generalizing line with
  | nil => exact ⟨[], fun qs => by simp⟩
  | cons p ps ih =>
    obtain ⟨rs, hrs⟩ := ih (line + p.breaks)
    have hline : line + p.breaks + (ps.flatMap Piece.text).count '\n' =
        line + ((p :: ps).flatMap Piece.text).count '\n' := by
      simp [Piece.breaks, Nat.add_assoc]
    rw [hline] at hrs
    cases hr : p.reading? (line + p.breaks) with
    | none => exact ⟨rs, fun qs => by simp only [List.cons_append, readingsFrom, hr, hrs]⟩
    | some r => exact ⟨r :: rs, fun qs => by simp only [List.cons_append, readingsFrom, hr, hrs]⟩

theorem readings_newline (a b : String) (ht : Terminated (pieces a.toList)) :
    ∃ rs, readings a = rs ++ [.ok (Token.eof (endLine a))] ∧
      readings (a ++ "\n" ++ b) = rs ++ (readings b).map (relabelReading (· + endLine a)) := by
  obtain ⟨rs, hrs⟩ := readingsFrom_append 1 (pieces a.toList)
  rw [text_pieces] at hrs
  have htext : (a ++ "\n" ++ b).toList = a.toList ++ '\n' :: b.toList := by
    simp [String.toList_append]
  refine ⟨rs, ?_, ?_⟩
  · have := hrs []
    rwa [List.append_nil] at this
  · rw [readings, htext, pieces_newline ht, hrs]
    congr 1
    show readingsFrom (endLine a + lineBreak.breaks) (pieces b.toList) = _
    rw [show endLine a + lineBreak.breaks = 1 + endLine a from Nat.add_comm _ _, readingsFrom_add]
    rfl

theorem terminated_of_errors {a : String}
    (h : ∀ e ∈ (scan a).errors, e.problem ≠ .unterminatedString ∧
      e.problem ≠ .unterminatedComment) : Terminated (pieces a.toList) := by
  -- What is wrong with a piece is the problem of an error.
  have hmem : ∀ p ∈ pieces a.toList, ∀ q ∈ p.problem?, q ≠ .unterminatedString ∧
      q ≠ .unterminatedComment := by
    intro p hp q hq
    have : q ∈ (scan a).errors.map LexError.problem := by
      rw [scan_problems]
      exact List.mem_filterMap.mpr ⟨p, hp, hq⟩
    obtain ⟨e, he, rfl⟩ := List.mem_map.mp this
    exact h e he
  intro p hp
  constructor
  · intro hs
    exact (hmem p hp .unterminatedString (by simp [Piece.problem?, hs])).1 rfl
  · intro hs
    exact (hmem p hp .unterminatedComment (by simp [Piece.problem?, hs])).2 rfl

/-- The tokens and errors of two texts with a line break between them. -/
theorem scan_newline (a b : String)
    (h : ∀ e ∈ (scan a).errors, e.problem ≠ .unterminatedString ∧
      e.problem ≠ .unterminatedComment) :
    (scan (a ++ "\n" ++ b)).tokens =
        (scan a).tokens.dropLast ++ (scan b).tokens.map (Token.relabel (· + endLine a)) ∧
      (scan (a ++ "\n" ++ b)).errors =
        (scan a).errors ++ (scan b).errors.map fun e => { e with line := e.line + endLine a } := by
  obtain ⟨rs, ha, hab⟩ := readings_newline a b (terminated_of_errors h)
  constructor
  · simp only [scan, ha, hab, List.filterMap_append, List.filterMap_map, List.map_filterMap]
    rw [show [Except.ok (Token.eof (endLine a))].filterMap (fun r : Reading => r.toOption) =
      [Token.eof (endLine a)] from rfl, List.dropLast_concat]
    congr 2
    funext r
    cases r <;> rfl
  · simp only [scan, ha, hab, List.filterMap_append, List.filterMap_map, List.map_filterMap]
    rw [List.append_assoc]
    congr 2
    funext r
    cases r <;> rfl

/-! ## The end token -/

/-- No lexeme is an end token. -/
theorem Lexeme.kind_ne_eof {k : Kind} {w : List Char} (h : Lexeme k w) : k ≠ .eof := by
  cases h with
  | symbol h =>
    have hk : ∀ s ∈ symbols, s.2 ≠ .eof := by decide
    exact hk _ h
  | word => exact wordKind_ne (by decide) (by decide) _
  | whole | decimal | string => decide

theorem Split.kind_ne_eof {cs : List Char} {ps : List Piece} (h : Split cs ps) :
    ∀ p ∈ ps, ∀ k, p.shape = .lexeme k → k ≠ .eof := by
  induction h with
  | nil => exact List.forall_mem_nil _
  | @cons p rest ps hp hs ih =>
    intro q hq k hk
    obtain _ | ⟨_, hq⟩ := hq
    · rw [hk] at hp
      cases hp with
      | lexeme hopen h longest => exact h.kind_ne_eof
    · exact ih q hq k hk

/-- No token but the last is an end token. -/
theorem scan_tokens (a : String) : programTokens (scan a).tokens = (scan a).tokens.dropLast := by
  have htokens := scan_spellings a
  obtain ⟨ts, t, hts⟩ : ∃ ts t, (scan a).tokens = ts ++ [t] := by
    obtain ⟨rs, hrs⟩ := readings_eq_append a
    exact ⟨_, _, by simp only [scan, hrs, List.filterMap_append]; rfl⟩
  rw [hts, List.map_append, List.map_singleton] at htokens
  obtain ⟨hinit, hlast⟩ := List.append_inj' htokens rfl
  have hne : ∀ u ∈ ts, decide (u.kind ≠ .eof) = true := by
    intro u hu
    have hu' := List.mem_map_of_mem (f := fun t : Token => (t.kind, t.lexeme, t.literal)) hu
    rw [hinit] at hu'
    obtain ⟨p, hp, hq⟩ := List.mem_filterMap.mp hu'
    unfold Piece.token? at hq
    split at hq
    · next k hk =>
      obtain ⟨rfl, -⟩ := Prod.mk.inj (Option.some.inj hq)
      exact decide_eq_true ((split_pieces a.toList).kind_ne_eof p hp _ hk)
    · cases hq
  have ht : t.kind = .eof := congrArg Prod.fst (List.cons.inj hlast).1
  rw [hts, programTokens, List.takeWhile_append_of_pos hne, List.dropLast_concat]
  simp [ht]

end Lexical

end Treewalk
