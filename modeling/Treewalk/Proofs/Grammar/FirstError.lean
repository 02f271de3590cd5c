import Treewalk.Proofs.Grammar.Recovery
import Treewalk.Proofs.Grammar.Viable

/-!
# The first fatal error

A reader that gives up does so at the first token with which no sentence can go on: what
it has read so far begins a sentence, and with the token at hand it does not. Without a
fatal error the tokens are a sentence.

Results:

* `apt_of_firstFatal`: the tokens before the first fatal problem begin a sentence.
* `not_sentence_of_fatal`: those up to a fatal problem do not.
* `first_error_at_first_impossible_token`: the first fatal syntax error of any tokens.
-/
namespace Treewalk

open Grammar Parse

/-! ## More fuel than necessary -/

/-- Reading declarations does not change with more fuel. -/
theorem declarations_more_fuel {fuel fuel' : Nat} (hfuel : fuel ≤ fuel') {ts : List Token}
    {p : List Stmt} {s : ParseState} (h : declarations fuel false (.initial ts) = .ok p s) :
    declarations fuel' false (.initial ts) = .ok p s := by
  let whole : Context := ⟨[], 0, #[]⟩
  have hsame : ∀ u, whole.embed u = u := by
    intro u
    simp [whole, Context.embed, Blame.map_shift_zero]
  have hnoElse : NoElse whole.behind := by
    intro t ht
    cases ht
  have hread := ((CompletesAt.all hnoElse hfuel).declarations false).inside (.initial ts)
    (by rw [h]; exact .inl rfl)
  rw [h, hsame] at hread
  rw [hread, Context.result, hsame]

/-! ## The tokens before a problem, and those up to it -/

section Program

variable {ts : List Token} {p : Program} {s : ParseState} (hread : readProgram ts = .ok p s)

include hread

theorem apt_of_firstFatal {b : Blame} (hb : firstFatal? s.problems.toList = some b) :
    Apt ts b := by
  have hready : Ready ts [] Anything (.initial ts) :=
    ⟨fun c hc => (Option.some_ne_none c hc.symm).elim, fun _ => rfl, fun _ => rfl, fun _ => trivial⟩
  have hwords : ∀ d : Decls, Viable ([] ++ d.tokens) := fun d => ⟨[], d, by simp⟩
  refine (SticksStatementsAt.all (Parse.fuel ts.length)).declarations false [] hwords
    (.initial ts) hready b ?_
  rw [show declarations (Parse.fuel ts.length) false (.initial ts) = .ok p s from hread]
  exact hb

/-- No sentence begins with the tokens up to a fatal problem. -/
theorem not_sentence_of_fatal {b : Blame} (hb : b ∈ s.problems.toList)
    (hfatal : b.problem.fatal = true) {us : List Token}
    (hsame : ts.take (b.index + 1) = us.take (b.index + 1)) : ¬ Sentence us := by
  intro hsentence
  let enough := Parse.fuel ts.length + (32 * us.length + 21)
  obtain ⟨q, t, hq, hmild⟩ := declarations_of_sentence hsentence
    (show 32 * us.length + 21 ≤ enough by omega)
  have hts : declarations enough false (.initial ts) = .ok p s :=
    declarations_more_fuel (show Parse.fuel ts.length ≤ enough by omega) hread
  have hearly := early_declarations hsame enough false
  rw [hts, hq] at hearly
  -- The problem is an early one of `ts`, and `us` has no fatal one.
  have hmem : b ∈ early (b.index + 1) s.problems.toList := by
    simp [early, hfatal, Array.mem_toList_iff.mp hb]
  rw [show early (b.index + 1) s.problems.toList = early (b.index + 1) t.problems.toList from
    hearly, early, List.mem_filter] at hmem
  have hnot := hmild b hmem.1
  rw [hfatal] at hnot
  cases hnot

theorem sentence_of_noFatal (hnone : firstFatal? s.problems.toList = none) : Sentence ts := by
  have hmild : NoFatal s := mild_problems.mp (firstFatal?_eq_none.mp hnone)
  obtain ⟨d, -, hspans, -⟩ := declarations_sound hread hmild
  refine ⟨d, ?_⟩
  have hrest := hspans.rest
  rw [declarations_rest hread, List.append_nil] at hrest
  exact hrest.symm

end Program

/-! ## Tokens and the end token -/

theorem programTokens_begins (tokens : List Token) : programTokens tokens <+: tokens :=
  List.takeWhile_prefix _

/-- After the tokens of a program comes its end token, if there is one. -/
theorem getElem_programTokens_length (tokens : List Token) :
    tokens[(programTokens tokens).length]? = tokens.find? (·.kind = .eof) := by
  induction tokens with
  | nil => rfl
  | cons t ts ih =>
    by_cases hk : t.kind = .eof
    · simp [programTokens, hk]
    · simpa [programTokens, hk] using ih

theorem programTokens_kind {tokens : List Token} {t : Token} (h : t ∈ programTokens tokens) :
    t.kind ≠ .eof := by
  have hall := List.all_takeWhile (p := fun t : Token => decide (t.kind ≠ .eof)) (l := tokens)
  simpa using List.all_eq_true.mp hall t h

theorem take_programTokens (tokens : List Token) {n : Nat}
    (h : n ≤ (programTokens tokens).length) :
    (programTokens tokens).take n = tokens.take n := by
  obtain ⟨more, hmore⟩ := programTokens_begins tokens
  rw [← List.take_append_of_le_length h, hmore]

/-- An apt problem is one of a token of the program or of its end. -/
theorem Apt.error_token {tokens : List Token} {b : Blame} (h : Apt (programTokens tokens) b) :
    let e := b.error (endToken tokens)
    e.token = tokens[e.index]?.getD (endToken tokens) ∧
      (e.index < (programTokens tokens).length ∧ e.token.kind ≠ .eof ∨
        e.index = (programTokens tokens).length ∧ e.token.kind = .eof) := by
  have hbound := h.bound
  have htoken := h.token
  dsimp only [Blame.error]
  by_cases hin : b.index < (programTokens tokens).length
  · obtain ⟨more, hmore⟩ := programTokens_begins tokens
    have hsame : tokens[b.index]? = (programTokens tokens)[b.index]? := by
      calc tokens[b.index]? = (programTokens tokens ++ more)[b.index]? := by rw [hmore]
        _ = (programTokens tokens)[b.index]? := List.getElem?_append_left hin
    rw [htoken, hsame, List.getElem?_eq_getElem hin]
    exact ⟨rfl, .inl ⟨hin, programTokens_kind (List.getElem_mem hin)⟩⟩
  · have hindex : b.index = (programTokens tokens).length := by omega
    have hfinish : tokens[b.index]?.getD (endToken tokens) = endToken tokens := by
      rw [hindex, getElem_programTokens_length]
      unfold endToken
      cases tokens.find? (fun t => decide (t.kind = .eof)) <;> rfl
    rw [htoken, List.getElem?_eq_none (by omega), hfinish]
    exact ⟨rfl, .inr ⟨hindex, endToken_kind tokens⟩⟩

/-- The first fatal syntax error is at the first token with which no sentence goes on, or at the
end of tokens that are not a sentence; without a fatal one, the tokens up to the first end token
are a sentence. -/
theorem first_error_at_first_impossible_token (tokens : List Token) :
    (∀ e, (syntaxErrors tokens).find? (·.problem.fatal) = some e →
      (∃ more, Sentence (tokens.take e.index ++ more)) ∧
      e.token = tokens[e.index]?.getD (endToken tokens) ∧
      (e.token.kind ≠ .eof → ∀ more, ¬ Sentence (tokens.take (e.index + 1) ++ more)) ∧
      (e.token.kind = .eof → ¬ Sentence (tokens.take e.index))) ∧
    ((syntaxErrors tokens).find? (·.problem.fatal) = none → Sentence (programTokens tokens)) := by
  obtain ⟨p, s, hread, -⟩ := readProgram_ends (programTokens tokens)
  have hfind : (syntaxErrors tokens).find? (·.problem.fatal) =
      (firstFatal? s.problems.toList).map (·.error (endToken tokens)) := by
    rw [syntaxErrors_of_read hread, List.find?_map]
    rfl
  rw [hfind]
  refine ⟨fun e he => ?_, fun hnone => ?_⟩
  · obtain ⟨b, hb, rfl⟩ := Option.map_eq_some_iff.mp he
    have hapt := apt_of_firstFatal hread hb
    obtain ⟨hmem, hfatal⟩ := firstFatal?_eq_some hb
    have hbefore : tokens.take b.index = (programTokens tokens).take b.index :=
      (take_programTokens tokens hapt.bound).symm
    obtain ⟨htoken, hplace⟩ := hapt.error_token
    refine ⟨?_, htoken, fun hkind more => ?_, fun hkind => ?_⟩
    · show Viable (tokens.take b.index)
      rw [hbefore]
      exact hapt.viable
    · obtain ⟨hin, -⟩ : b.index < (programTokens tokens).length ∧ _ :=
        hplace.resolve_right fun h => hkind h.2
      have hupTo := take_programTokens tokens (Nat.succ_le_of_lt hin)
      refine not_sentence_of_fatal hread hmem hfatal ?_
      rw [show (b.error (endToken tokens)).index = b.index from rfl, ← hupTo,
        List.take_append_of_le_length (by rw [List.length_take]; omega), List.take_take,
        Nat.min_self]
    · obtain ⟨hindex, -⟩ : b.index = (programTokens tokens).length ∧ _ :=
        hplace.resolve_left fun h => h.2 hkind
      refine not_sentence_of_fatal hread hmem hfatal ?_
      rw [show (b.error (endToken tokens)).index = b.index from rfl, hbefore, hindex,
        List.take_length]
  · exact sentence_of_noFatal hread (Option.map_eq_none_iff.mp hnone)

end Treewalk
