import Treewalk.Proofs.Grammar.FirstError

/-!
# Violations of static rules

A sentence that breaks static rules is read to its end, and every violation is reported
once, at the token that is to blame for it, without any other error.

Results:

* `Phrase.tree_eq_name`: a phrase denotes a name exactly if it is a single identifier.
* `sentence_reports_violations`: the syntax errors of a sentence.
-/
namespace Treewalk

namespace Grammar

/-! ## Names -/

/-- No operator makes a name. -/
theorem Tail.tree_eq_name {l : Level} : (d : Tail l) → {left : Expr} → {t : Token} →
    d.tree left = .name t → d = .done ∧ left = .name t
  | .done, _, _, h => ⟨rfl, h⟩
  | .more operator right rest, left, t, h => by
    obtain ⟨-, hjoin⟩ := rest.tree_eq_name h
    cases l <;> cases hjoin

/-- No call makes a name. -/
theorem Suffixes.tree_eq_name : (d : Suffixes) → {callee : Expr} → {t : Token} →
    d.tree callee = .name t → d = .done ∧ callee = .name t
  | .done, _, _, h => ⟨rfl, h⟩
  | .empty _ closing rest, callee, t, h => by
    obtain ⟨-, hcall⟩ := rest.tree_eq_name h
    cases hcall
  | .applied _ args closing rest, callee, t, h => by
    obtain ⟨-, hcall⟩ := rest.tree_eq_name h
    cases hcall

theorem assigned_ne_name (target value : Expr) (t : Token) : assigned target value ≠ .name t := by
  cases target <;> simp [assigned]

/-- A phrase of one token goes on with nothing. -/
theorem Phrase.tokens_append_eq_one {r : Rule} {d : Phrase r} {us : List Token} {t : Token}
    (h : d.tokens ++ us = [t]) : d.tokens = [t] ∧ us = [] := by
  obtain ⟨u, ts, htokens, -⟩ := d.head
  rw [htokens] at h ⊢
  simp only [List.cons_append, List.cons.injEq, List.append_eq_nil_iff] at h
  obtain ⟨rfl, rfl, rfl⟩ := h
  exact ⟨rfl, rfl⟩

/-- A phrase denotes a name exactly if it is a single identifier. -/
theorem Phrase.tree_eq_name : {r : Rule} → (d : Phrase r) → (t : Token) →
    (d.tree = .name t ↔ d.tokens = [t] ∧ t.kind = .identifier)
  | _, .plain d, t => d.tree_eq_name t
  | _, .assign target equals value, t => by
    refine ⟨fun h => absurd h (assigned_ne_name _ _ t), fun h => ?_⟩
    cases (Phrase.tokens_append_eq_one h.1).2
  | _, .chain first tail, t => by
    constructor
    · intro h
      obtain ⟨rfl, hfirst⟩ := tail.tree_eq_name h
      rw [Phrase.tokens, Tail.tokens, List.append_nil]
      exact (first.tree_eq_name t).mp hfirst
    · rintro ⟨htokens, hkind⟩
      obtain ⟨hfirst, htail⟩ := Phrase.tokens_append_eq_one htokens
      cases tail with
      | done => exact (first.tree_eq_name t).mpr ⟨hfirst, hkind⟩
      | more operator right rest => cases htail
  | _, .simple d, t => d.tree_eq_name t
  | _, .ternary c question whenTrue colon whenFalse, t => by
    refine ⟨fun h => (by cases h), fun h => ?_⟩
    cases (Phrase.tokens_append_eq_one h.1).2
  | _, .signed operator right, t => by
    refine ⟨fun h => (by cases h), fun h => ?_⟩
    obtain ⟨u, ts, htokens, -⟩ := right.head
    simp [Phrase.tokens, htokens] at h
  | _, .unsigned d, t => d.tree_eq_name t
  | _, .call callee suffixes, t => by
    constructor
    · intro h
      obtain ⟨rfl, hcallee⟩ := suffixes.tree_eq_name h
      rw [Phrase.tokens, Suffixes.tokens, List.append_nil]
      exact (callee.tree_eq_name t).mp hcallee
    · rintro ⟨htokens, hkind⟩
      obtain ⟨hcallee, hsuffixes⟩ := Phrase.tokens_append_eq_one htokens
      cases suffixes with
      | done => exact (callee.tree_eq_name t).mpr ⟨hcallee, hkind⟩
      | empty opening closing rest => cases hsuffixes
      | applied opening args closing rest => cases hsuffixes
  | _, .constant token, t => by
    refine ⟨fun h => (by cases h), ?_⟩
    rintro ⟨htokens, hkind⟩
    cases htokens
    have hconstant := token.2
    rw [hkind] at hconstant
    cases hconstant
  | _, .name token, t => by
    simp only [Phrase.tree, Phrase.tokens, Expr.name.injEq, List.cons.injEq, and_true]
    refine ⟨?_, And.left⟩
    rintro rfl
    exact ⟨rfl, token.2⟩
  | _, .group opening inner closing, t => by
    refine ⟨fun h => (by cases h), fun h => ?_⟩
    simp [Phrase.tokens] at h

/-- The left side of an assignment breaks no rule exactly if it is a single identifier. -/
theorem targetViolations_eq_nil_iff {e : Extent} (target : Phrase e.target) (n : Nat)
    (equals : Token) : targetViolations target.tree n equals = [] ↔
      ∃ name, target.tokens = [name] ∧ name.kind = .identifier := by
  rw [targetViolations_eq_nil]
  exact exists_congr target.tree_eq_name

end Grammar

open Grammar

/-! ## Errors of a sentence -/

/-- An error that blames a token for breaking a static rule. -/
def ParseError.Violation (e : ParseError) : Prop :=
  e.message = "Invalid assignment target." ∧ e.token.kind = .equal ∨
  e.message = "Can't have more than 255 arguments." ∧ startsExpression e.token.kind = true ∨
  e.message = "Can't have more than 255 parameters." ∧ e.token.kind = .identifier ∨
  e.message = "Can't return from top-level code." ∧ e.token.kind = .returnKw

theorem ParseError.violation_of_blames {e : ParseError}
    (h : e.problem.blames e.token.kind = true) : e.Violation := by
  obtain ⟨problem, index, token⟩ := e
  cases problem with
  | missing what => cases h
  | noExpression => cases h
  | assignmentTarget => exact .inl ⟨rfl, of_decide_eq_true h⟩
  | tooManyArguments => exact .inr (.inl ⟨rfl, h⟩)
  | tooManyParameters => exact .inr (.inr (.inl ⟨rfl, of_decide_eq_true h⟩))
  | topLevelReturn => exact .inr (.inr (.inr ⟨rfl, of_decide_eq_true h⟩))

/-- An error that comes from a placed problem is at the token that it blames. -/
theorem Grammar.Placed.error {tokens : List Token} {bs : List Blame} {b : Blame} {finish : Token}
    (h : Placed (programTokens tokens) 0 bs) (hb : b ∈ bs) :
    tokens[(b.error finish).index]? = some (b.error finish).token ∧
      (b.error finish).Violation := by
  obtain ⟨i, t, hi, ht, htoken, hblames⟩ := h.token b hb
  obtain ⟨more, hmore⟩ := programTokens_begins tokens
  have herror : b.error finish = ⟨b.problem, i, t⟩ := by simp [Blame.error, htoken, hi]
  rw [herror]
  refine ⟨?_, ParseError.violation_of_blames hblames⟩
  rw [← hmore, List.getElem?_append_left (List.getElem?_eq_some_iff.mp ht).1, ht]

/-- A sentence has one derivation in which every `else` belongs to the nearest `if`. Its syntax
errors are the violations of that derivation, each one reported once and in the order in which
`violations` lists them, and it is accepted exactly if there are none. An assignment breaks the
rule about its left side exactly if that is not a single identifier. -/
theorem sentence_reports_violations {tokens : List Token} (h : Sentence (programTokens tokens)) :
    (∃ d : Decls, d.tokens = programTokens tokens ∧ d.Nearest ∧
      (∀ d' : Decls, d'.tokens = programTokens tokens → d'.Nearest → d' = d) ∧
      syntaxErrors tokens = (d.violations 0 0).map (·.error (endToken tokens)) ∧
      ((syntaxErrors tokens).map (·.index)).Nodup ∧
      (∀ e ∈ syntaxErrors tokens, tokens[e.index]? = some e.token ∧ e.Violation) ∧
      ∀ p, parse tokens = .ok p ↔ d.violations 0 0 = [] ∧ d.trees = p) ∧
    ∀ (e : Extent) (target : Phrase e.target) n equals,
      targetViolations target.tree n equals = [] ↔
        ∃ name, target.tokens = [name] ∧ name.kind = .identifier := by
  refine ⟨?_, fun e => targetViolations_eq_nil_iff⟩
  obtain ⟨d₀, hd₀⟩ := h
  obtain ⟨d, hnearest, hsame⟩ := d₀.exists_nearest
  have htokens : d.tokens = programTokens tokens := hsame.trans hd₀
  obtain ⟨s, hread, hproblems⟩ := readProgram_of_nearest hnearest
  rw [htokens] at hread
  have herrors : syntaxErrors tokens = (d.violations 0 0).map (·.error (endToken tokens)) := by
    rw [syntaxErrors_of_read hread, hproblems]
  have hplaced : Placed (programTokens tokens) 0 (d.violations 0 0) := by
    rw [← htokens]
    exact d.placed 0 0
  refine ⟨d, htokens, hnearest, ?_, herrors, ?_, ?_, fun p => ?_⟩
  · intro d' hd' hnearest'
    exact nearest_unique (hd'.trans htokens.symm) hnearest' hnearest
  · rw [herrors, List.map_map]
    exact hplaced.distinct
  · rw [herrors, List.forall_mem_map]
    exact fun b hb => hplaced.error hb
  · rw [parse_eq_ok]
    constructor
    · rintro ⟨s', hread', hnone⟩
      rw [hread] at hread'
      cases hread'
      exact ⟨by simpa [hproblems] using hnone, rfl⟩
    · rintro ⟨hnone, rfl⟩
      exact ⟨s, hread, by rw [hproblems, hnone]⟩

/-- Two assignments, one inside the value of the other, and a `return` outside of functions. -/
theorem sentence_reports_violations_nested :
    let tokens := (scan "a + b = (c) = d; return e = f;").tokens
    Sentence (programTokens tokens) ∧ ∃ d : Decls, d.tokens = programTokens tokens ∧
      (d.violations 0 0).map (·.index) = [7, 3, 10] := by
  intro tokens
  have hmild : ∀ e ∈ syntaxErrors tokens, e.problem.fatal = false := by decide +kernel
  have hindices : (syntaxErrors tokens).map (·.index) = [7, 3, 10] := by decide +kernel
  obtain ⟨p, s, hread, -⟩ := readProgram_ends (programTokens tokens)
  rw [syntaxErrors_of_read hread, List.forall_mem_map] at hmild
  have hsentence := sentence_of_noFatal hread (firstFatal?_eq_none.mpr hmild)
  obtain ⟨⟨d, htokens, -, -, herrors, -⟩, -⟩ := sentence_reports_violations hsentence
  rw [herrors, List.map_map] at hindices
  exact ⟨hsentence, d, htokens, hindices⟩

end Treewalk
