import Treewalk.Proofs.Grammar.Completeness
import Treewalk.Proofs.Grammar.Soundness
import Treewalk.Proofs.Grammar.Static
import Treewalk.Proofs.Grammar.Uniqueness

/-!
# The grammar of programs

What is read as a program is exactly what the grammar derives.

Results:

* `parse_sound`, `parse_complete`: a token sequence is accepted with the trees of a
  lawful derivation of the tokens before its first end token, and every lawful
  derivation is accepted.
* `lawful_unique`: a token sequence has at most one lawful derivation.
* `parse_characterizes_grammar`: all of it together.
-/
namespace Treewalk

open Grammar

theorem parse_eq_ok {tokens : List Token} {p : Program} :
    parse tokens = .ok p ↔
      ∃ s, readProgram (programTokens tokens) = .ok p s ∧ s.problems = #[] := by
  unfold parse
  cases h : readProgram (programTokens tokens) with
  | ok q s =>
    cases hs : s.problems.isEmpty with
    | true =>
      have hs' : s.problems = #[] := Array.isEmpty_iff.mp hs
      simp only [hs, if_true, Except.ok.injEq, EStateM.Result.ok.injEq]
      constructor
      · exact fun h => ⟨s, ⟨h, rfl⟩, hs'⟩
      · rintro ⟨-, ⟨h, -⟩, -⟩
        exact h
    | false =>
      have hs' : s.problems ≠ #[] := by simpa using hs
      simp [hs']
  | error e s => simp

/-- A program that is accepted has a lawful derivation. -/
theorem parse_sound {tokens : List Token} {p : Program} (h : parse tokens = .ok p) :
    ∃ d : Decls, d.tokens = programTokens tokens ∧ d.Lawful ∧ d.trees = p := by
  obtain ⟨s, hread, hs⟩ := parse_eq_ok.mp h
  have hn : NoFatal s := by simp [NoFatal, hs]
  obtain ⟨d, rfl, rd, hd⟩ := declarations_sound hread hn
  have hrest : programTokens tokens = d.tokens ++ s.rest := rd.rest
  rw [declarations_rest hread, List.append_nil] at hrest
  have hproblems : s.problems = #[] ++ (d.violations 0 0).toArray := rd.problems
  refine ⟨d, hrest.symm, ⟨hd, (d.violations_eq_nil 0 0).mp ?_⟩, rfl⟩
  rw [hs] at hproblems
  simpa using hproblems.symm

/-- The tokens of a derivation are read as its trees, and its violations are recorded. -/
theorem readProgram_of_nearest {d : Decls} (hd : d.Nearest) :
    ∃ s, readProgram d.tokens = .ok d.trees s ∧ s.problems = (d.violations 0 0).toArray := by
  have hrest : (ParseState.initial d.tokens).rest = d.tokens ++ [] := by
    rw [List.append_nil]
    rfl
  have hfuel : 32 * d.tokens.length + 21 ≤ Parse.fuel d.tokens.length := by
    rw [Parse.fuel]
    omega
  obtain ⟨s, hread, rd⟩ := d.readable hd false hrest rfl _ hfuel
  have hproblems : s.problems = #[] ++ (d.violations 0 0).toArray := rd.problems
  exact ⟨s, hread, by rw [hproblems, Array.empty_append]⟩

/-- A program with a lawful derivation is accepted with its trees. -/
theorem parse_complete {tokens : List Token} {d : Decls} (hd : d.Lawful)
    (h : d.tokens = programTokens tokens) : parse tokens = .ok d.trees := by
  obtain ⟨s, hread, hproblems⟩ := readProgram_of_nearest hd.nearest
  rw [h] at hread
  refine parse_eq_ok.mpr ⟨s, hread, ?_⟩
  rw [hproblems, (d.violations_eq_nil 0 0).mpr hd.static]

/-- A token sequence has one derivation in which every `else` belongs to the nearest `if`. -/
theorem nearest_unique {d d' : Decls} (h : d.tokens = d'.tokens) (hd : d.Nearest)
    (hd' : d'.Nearest) : d = d' := by
  have h' : d.tokens ++ [] = d'.tokens ++ [] := by rw [h]
  exact (d.unique hd d' false h' hd' rfl rfl).1

theorem lawful_unique {d d' : Decls} (h : d.tokens = d'.tokens) (hd : d.Lawful)
    (hd' : d'.Lawful) : d = d' :=
  nearest_unique h hd.nearest hd'.nearest

/-- A token sequence is accepted as a program exactly if the tokens before its first end
token have a lawful derivation, which is then unique, and the program is its trees. -/
theorem parse_characterizes_grammar (tokens : List Token) :
    (∀ p, parse tokens = .ok p ↔
      ∃ d : Decls, d.tokens = programTokens tokens ∧ d.Lawful ∧ d.trees = p) ∧
    ∀ d d' : Decls, d.tokens = programTokens tokens → d'.tokens = programTokens tokens →
      d.Lawful → d'.Lawful → d = d' := by
  refine ⟨fun p => ⟨parse_sound, ?_⟩, fun d d' h h' => lawful_unique (h.trans h'.symm)⟩
  rintro ⟨d, h, hd, rfl⟩
  exact parse_complete hd h

end Treewalk
