import Treewalk.Proofs.Grammar.Completeness
import Treewalk.Proofs.Grammar.Placement

/-!
# Derivations with a dangling `else`

The grammar lets an `else` belong to any `if` before it, the reader gives it to the
nearest one. No token sequence is lost by that: an `else` can be moved to the nearest
`if`, and the tokens stay the same. So every sentence is read to its end, and breaks static
rules at worst.

Results:

* `Decls.exists_nearest`: every derivation can be rearranged.
* `Placed.mild`: its violations are not fatal.
* `declarations_of_sentence`: every sentence is read without a fatal problem.
-/
namespace Treewalk

namespace Grammar

/-! ## The nearest `if` -/

/-- An `else` after an open statement can be given to the nearest `if` in it. -/
theorem Statement.exists_attached (otherwise : Tok .elseKw) {e : Statement} (he : e.Nearest) :
    (d : Statement) → d.open = true → d.Nearest →
      ∃ d' : Statement, d'.Nearest ∧ d'.tokens = d.tokens ++ otherwise.1 :: e.tokens
  | .ifThen keyword opening condition closing whenTrue, _, hd => by
    by_cases hopen : whenTrue.open = true
    · obtain ⟨t, ht, htokens⟩ := Statement.exists_attached otherwise he whenTrue hopen hd
      exact ⟨.ifThen keyword opening condition closing t, ht, by simp [Statement.tokens, htokens]⟩
    · exact ⟨.ifElse keyword opening condition closing whenTrue otherwise e,
        ⟨Bool.eq_false_iff.mpr hopen, hd, he⟩, by simp [Statement.tokens]⟩
  | .ifElse keyword opening condition closing whenTrue other whenFalse, hopen, hd => by
    obtain ⟨f, hf, htokens⟩ := Statement.exists_attached otherwise he whenFalse hopen hd.2.2
    exact ⟨.ifElse keyword opening condition closing whenTrue other f, ⟨hd.1, hd.2.1, hf⟩,
      by simp [Statement.tokens, htokens]⟩
  | .forLoop keyword opening first condition semicolon last closing body, hopen, hd => by
    obtain ⟨b, hb, htokens⟩ := Statement.exists_attached otherwise he body hopen hd
    exact ⟨.forLoop keyword opening first condition semicolon last closing b, hb,
      by simp [Statement.tokens, htokens]⟩
  | .whileLoop keyword opening condition closing body, hopen, hd => by
    obtain ⟨b, hb, htokens⟩ := Statement.exists_attached otherwise he body hopen hd
    exact ⟨.whileLoop keyword opening condition closing b, hb, by simp [Statement.tokens, htokens]⟩
  | .expr _, h, _ | .print _ _ _, h, _ | .ret _ _ _, h, _ | .block _ _ _, h, _ => by cases h

mutual

theorem Statement.exists_nearest : (d : Statement) →
    ∃ d' : Statement, d'.Nearest ∧ d'.tokens = d.tokens
  | .expr clause => ⟨.expr clause, trivial, rfl⟩
  | .forLoop keyword opening first condition semicolon last closing body => by
    obtain ⟨b, hb, htokens⟩ := body.exists_nearest
    exact ⟨.forLoop keyword opening first condition semicolon last closing b, hb,
      by simp [Statement.tokens, htokens]⟩
  | .ifThen keyword opening condition closing whenTrue => by
    obtain ⟨t, ht, htokens⟩ := whenTrue.exists_nearest
    exact ⟨.ifThen keyword opening condition closing t, ht, by simp [Statement.tokens, htokens]⟩
  | .ifElse keyword opening condition closing whenTrue otherwise whenFalse => by
    obtain ⟨t, ht, htrue⟩ := whenTrue.exists_nearest
    obtain ⟨f, hf, hfalse⟩ := whenFalse.exists_nearest
    by_cases hopen : t.open = true
    · -- The branch takes the `else`, so the outer `if` has none.
      obtain ⟨u, hu, hboth⟩ := Statement.exists_attached otherwise hf t hopen ht
      exact ⟨.ifThen keyword opening condition closing u, hu,
        by simp [Statement.tokens, hboth, htrue, hfalse]⟩
    · exact ⟨.ifElse keyword opening condition closing t otherwise f,
        ⟨Bool.eq_false_iff.mpr hopen, ht, hf⟩, by simp [Statement.tokens, htrue, hfalse]⟩
  | .print keyword value semicolon => ⟨.print keyword value semicolon, trivial, rfl⟩
  | .ret keyword value semicolon => ⟨.ret keyword value semicolon, trivial, rfl⟩
  | .whileLoop keyword opening condition closing body => by
    obtain ⟨b, hb, htokens⟩ := body.exists_nearest
    exact ⟨.whileLoop keyword opening condition closing b, hb, by simp [Statement.tokens, htokens]⟩
  | .block opening body closing => by
    obtain ⟨b, hb, htokens⟩ := body.exists_nearest
    exact ⟨.block opening b closing, hb, by simp [Statement.tokens, htokens]⟩

theorem Decl.exists_nearest : (d : Decl) → ∃ d' : Decl, d'.Nearest ∧ d'.tokens = d.tokens
  | .function keyword name opening params closing before body after => by
    obtain ⟨b, hb, htokens⟩ := body.exists_nearest
    exact ⟨.function keyword name opening params closing before b after, hb,
      by simp [Decl.tokens, htokens]⟩
  | .var clause => ⟨.var clause, trivial, rfl⟩
  | .statement d => by
    obtain ⟨d', hd', htokens⟩ := d.exists_nearest
    exact ⟨.statement d', hd', by simp [Decl.tokens, htokens]⟩

theorem Decls.exists_nearest : (d : Decls) → ∃ d' : Decls, d'.Nearest ∧ d'.tokens = d.tokens
  | .nil => ⟨.nil, trivial, rfl⟩
  | .cons first others => by
    obtain ⟨f, hf, hfirst⟩ := first.exists_nearest
    obtain ⟨o, ho, hothers⟩ := others.exists_nearest
    exact ⟨.cons f o, ⟨hf, ho⟩, by simp [Decls.tokens, hfirst, hothers]⟩

end

/-! ## Violations -/

/-- None of the problems is fatal. -/
def Mild (bs : List Blame) : Prop := ∀ b ∈ bs, b.problem.fatal = false

theorem Placed.mild {ts : List Token} {n : Nat} {bs : List Blame} (h : Placed ts n bs) :
    Mild bs := by
  intro b hb
  obtain ⟨i, t, -, -, -, hblames⟩ := h.token b hb
  exact Problem.not_fatal_of_blames hblames

/-! ## Reading sentences -/

/-- The tokens form a program of the grammar, whatever static rules it breaks. -/
def Sentence (ts : List Token) : Prop := ∃ d : Decls, d.tokens = ts

/-- Every sentence is read without a fatal problem. -/
theorem declarations_of_sentence {ts : List Token} (h : Sentence ts) {fuel : Nat}
    (hfuel : 32 * ts.length + 21 ≤ fuel) :
    ∃ p s, Parse.declarations fuel false (ParseState.initial ts) = .ok p s ∧ Mild s.problems.toList := by
  obtain ⟨d, rfl⟩ := h
  obtain ⟨d', hnearest, htokens⟩ := d.exists_nearest
  rw [← htokens] at hfuel ⊢
  have hrest : (ParseState.initial d'.tokens).rest = d'.tokens ++ [] := by
    rw [List.append_nil]
    rfl
  obtain ⟨s, hread, hspans⟩ := d'.readable hnearest false hrest rfl fuel hfuel
  refine ⟨d'.trees, s, hread, ?_⟩
  have hproblems : s.problems = #[] ++ (d'.violations 0 0).toArray := hspans.problems
  rw [hproblems]
  simpa using (d'.placed 0 0).mild

end Grammar

end Treewalk
