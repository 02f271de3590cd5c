import Treewalk.Proofs.Grammar.InPlace

/-!
# The cursor stays on the tokens

Reading keeps its cursor on a token of the program or on the end token after them, never
goes back, and leaves every malformed declaration behind. So a program is read to its end,
whatever its tokens are, and nothing after the first end token matters.

Results:

* `onward_moves`: no reader takes the cursor off the tokens or moves it back.
* `declaration_onward`, `declaration_ends`: a declaration takes at least one token, whether
  it is read or skipped, and always ends.
* `reading_within_tokens`: both of these, the end of reading, and what it does not depend on.
-/
namespace Treewalk

open Grammar Parse

/-- What is read and reported depends on the tokens of the program and its end token only. -/
theorem parse_congr {as bs : List Token} (hprogram : programTokens as = programTokens bs)
    (hend : endToken as = endToken bs) : parse as = parse bs := by
  unfold parse
  rw [hprogram, hend]

/-! ## The cursor -/

/-- The cursor is on a token of the program or right after the last one, and the tokens from
there on are still to be read. -/
structure OnTokens (tokens : List Token) (s : ParseState) : Prop where
  ahead : s.rest = (programTokens tokens).drop s.position
  bound : s.position ≤ (programTokens tokens).length

variable {tokens : List Token} {s s' : ParseState}

theorem onTokens_initial (tokens : List Token) :
    OnTokens tokens (.initial (programTokens tokens)) :=
  ⟨rfl, Nat.zero_le _⟩

theorem OnTokens.length_ahead (h : OnTokens tokens s) :
    s.position + s.rest.length = (programTokens tokens).length := by
  have hbound := h.bound
  rw [h.ahead, List.length_drop]
  omega

/-- The token at hand is the one under the cursor, the end token after all others. -/
theorem OnTokens.token (h : OnTokens tokens s) :
    (terminated tokens)[s.position]? = some (s.rest.head?.getD (endToken tokens)) := by
  have hbound := h.bound
  rw [h.ahead, List.head?_drop]
  by_cases hin : s.position < (programTokens tokens).length
  · obtain ⟨more, hmore⟩ := programTokens_begins (terminated tokens)
    rw [programTokens_terminated] at hmore
    rw [← hmore, List.getElem?_append_left hin, List.getElem?_eq_getElem hin]
    rfl
  · have hend : s.position = (programTokens tokens).length := by omega
    rw [hend, List.getElem?_eq_none (Nat.le_refl _), Option.getD_none, ← find?_terminated,
      ← getElem_programTokens_length, programTokens_terminated]

theorem OnTokens.before (h : OnTokens tokens s) :
    ∀ t ∈ (terminated tokens).take s.position, t.kind ≠ .eof := by
  intro t ht
  rw [← take_programTokens (terminated tokens) (by rw [programTokens_terminated]; exact h.bound)]
    at ht
  exact programTokens_kind (List.mem_of_mem_take ht)

/-- Nothing is ahead exactly if the cursor is on an end token. -/
theorem OnTokens.rest_eq_nil (h : OnTokens tokens s) :
    s.rest = [] ↔ (s.rest.head?.getD (endToken tokens)).kind = .eof := by
  cases hrest : s.rest with
  | nil => simp [endToken_kind]
  | cons t ts =>
    have hmem : t ∈ (programTokens tokens).drop s.position := by
      rw [← h.ahead, hrest]
      exact List.mem_cons_self
    simp [programTokens_kind (List.mem_of_mem_drop hmem)]

/-- The cursor stays on the tokens and does not go back. -/
def Onward (tokens : List Token) (s s' : ParseState) : Prop :=
  OnTokens tokens s → OnTokens tokens s' ∧ s.position ≤ s'.position

theorem Advances.onward (h : Advances s s') : Onward tokens s s' := by
  intro hs
  obtain ⟨read, hrest, hposition, -⟩ := h
  have hlength := hs.length_ahead
  rw [hrest, List.length_append] at hlength
  refine ⟨⟨?_, by omega⟩, by omega⟩
  rw [hposition, ← List.drop_drop, ← hs.ahead, hrest, List.drop_left]

theorem onward_moves : Moves (Onward tokens) GivesUp where
  refl s := (advances_moves.refl s).onward
  trans h h' hs := by
    obtain ⟨hs', hle⟩ := h hs
    obtain ⟨hs'', hle'⟩ := h' hs'
    exact ⟨hs'', Nat.le_trans hle hle'⟩
  advance s := (advances_moves.advance s).onward
  record s b := (advances_moves.record s b).onward
  resynced s := (advances_moves.resynced s).onward
  function s s' h hs := by
    obtain ⟨hs', hle⟩ := h ⟨hs.ahead, hs.bound⟩
    exact ⟨⟨hs'.ahead, hs'.bound⟩, hle⟩
  fatal := keeps_moves.fatal
  outOfFuel := keeps_moves.outOfFuel
  leave := keeps_moves.leave

/-! ## Declarations -/

/-- A declaration that is read or skipped takes at least one token. -/
theorem declaration_onward {fuel : Nat} {r : Option Stmt} (hs : OnTokens tokens s)
    (hrest : s.rest ≠ []) (h : declaration fuel s = .ok r s') :
    OnTokens tokens s' ∧ s.position < s'.position := by
  have hkept : Kept (Onward tokens) GivesUp s (declaration fuel s) :=
    (obeysStatements onward_moves fuel).declaration s
  rw [h] at hkept
  obtain ⟨hs', -⟩ : OnTokens tokens s' ∧ _ := hkept hs
  have htaken := (ProceedsStatementsAt.all fuel).declaration s.rest.length
    (List.length_pos_iff.mpr hrest) s rfl
  rw [h] at htaken
  have htaken : s'.rest.length + 1 ≤ s.rest.length := htaken
  have hbefore := hs.length_ahead
  have hafter := hs'.length_ahead
  exact ⟨hs', by omega⟩

theorem declaration_ends {fuel : Nat} (hrest : s.rest ≠ [])
    (hfuel : 32 * s.rest.length + 20 ≤ fuel) : ∃ r s', declaration fuel s = .ok r s' := by
  have htaken := (ProceedsStatementsAt.all fuel).declaration s.rest.length
    (List.length_pos_iff.mpr hrest) s rfl
  cases h : declaration fuel s with
  | ok r s' => exact ⟨r, s', rfl⟩
  | error halt s' =>
    cases halt with
    | outOfFuel =>
      rw [h] at htaken
      exact absurd hfuel htaken
    | fatal b =>
      cases fuel with
      | zero => cases h
      | succ fuel => exact (recovers_recovering _ s b s' h).elim

/-- Any tokens are read within their bounds. Every step that readers are composed of, and every
reader with any fuel, keeps the cursor on the tokens, in front of the first end token or on it,
and never moves it back; a declaration that does not start on an end token moves it forward,
read or skipped. So reading ends, on the first end token, and does not depend on any token after
that. All readers do the same with an index into all tokens, which has these bounds built in. -/
theorem reading_within_tokens (tokens : List Token) :
    (∀ s, OnTokens tokens s →
      (terminated tokens)[s.position]? = some (s.rest.head?.getD (endToken tokens)) ∧
      (∀ t ∈ (terminated tokens).take s.position, t.kind ≠ .eof) ∧
      (s.rest = [] ↔ (s.rest.head?.getD (endToken tokens)).kind = .eof)) ∧
    OnTokens tokens (.initial (programTokens tokens)) ∧
    Composed (Single (Obeys (Onward tokens) GivesUp)) ∧
    (∀ fuel, ReadersAt (Single (Obeys (Onward tokens) GivesUp)) fuel ∧
      StatementReadersAt (Single (Obeys (Onward tokens) GivesUp)) fuel) ∧
    (∀ s fuel, OnTokens tokens s → s.rest ≠ [] →
      (∀ r s', declaration fuel s = .ok r s' →
        OnTokens tokens s' ∧ s.position < s'.position) ∧
      (32 * s.rest.length + 20 ≤ fuel → ∃ r s', declaration fuel s = .ok r s')) ∧
    (∃ p s, readProgram (programTokens tokens) = .ok p s ∧ OnTokens tokens s ∧ s.rest = [] ∧
      ∀ fuel, Parse.fuel (programTokens tokens).length ≤ fuel →
        declarations fuel false (.initial (programTokens tokens)) = .ok p s) ∧
    (∀ fuel, EveryReaderAt (InPlace tokens) fuel) ∧
    parseInPlace tokens = parse tokens ∧
    parse (terminated tokens) = parse tokens ∧
    (∀ before e after after', e.kind = .eof → tokens = before ++ e :: after →
      parse tokens = parse (before ++ e :: after')) := by
  refine ⟨fun s hs => ⟨hs.token, hs.before, hs.rest_eq_nil⟩, onTokens_initial tokens,
    composed_obeys onward_moves,
    fun fuel => ⟨.all (composed_obeys onward_moves) fuel, obeysStatements onward_moves fuel⟩,
    fun s fuel hs hrest => ⟨fun r s' => declaration_onward hs hrest, declaration_ends hrest⟩,
    ?_, .all composed_inPlace, parseInPlace_eq tokens, ?_, ?_⟩
  · obtain ⟨p, s, hread, -⟩ := readProgram_ends (programTokens tokens)
    have hkept : Kept (Onward tokens) GivesUp _ (readProgram (programTokens tokens)) :=
      (obeysStatements onward_moves _).declarations false _
    rw [hread] at hkept
    exact ⟨p, s, hread, (hkept (onTokens_initial tokens)).1, declarations_rest hread,
      fun fuel hfuel => declarations_more_fuel hfuel hread⟩
  · refine parse_congr (programTokens_terminated tokens) ?_
    rw [endToken, find?_terminated]
    rfl
  · rintro before e after after' he rfl
    refine parse_congr ?_ ?_
    · rw [programTokens_append_eof before he, programTokens_append_eof before he]
    · rw [endToken, endToken, find?_append_eof before he, find?_append_eof before he]
      rfl

end Treewalk
