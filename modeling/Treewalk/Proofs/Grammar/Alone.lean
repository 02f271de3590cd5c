import Treewalk.Proofs.Grammar.Program

/-!
# One operand on its own

An operand without an operator after it is an expression, and with a semicolon a program. Where
something comes after it that neither goes on with the expression nor ends the statement, there
is no program.

Results:

* `parse_alone`: an operand and a semicolon.
* `parse_interrupted`: an operand and what cannot come after it.
-/
namespace Treewalk

namespace Grammar

/-! ## Operands as expressions -/

/-- An operand as an expression, all chains of which stop after it. -/
def Phrase.asExpression (d : Phrase .unary) : Exp :=
  .plain (.chain (.simple (.chain (.chain (.chain (.chain (.chain (.chain d .done) .done) .done)
    .done) .done) .done)) .done)

@[simp]
theorem Phrase.tokens_asExpression (d : Phrase .unary) : d.asExpression.tokens = d.tokens := by
  simp only [Phrase.asExpression, Phrase.tokens, Tail.tokens, List.append_nil]
  rfl

@[simp]
theorem Phrase.tree_asExpression (d : Phrase .unary) : d.asExpression.tree = d.tree := by
  simp only [Phrase.asExpression, Phrase.tree, Tail.tree]
  rfl

theorem Phrase.static_asExpression {d : Phrase .unary} (h : d.Static) : d.asExpression.Static := by
  simp only [Phrase.asExpression, Phrase.Static, Tail.Static, and_true]
  exact h

/-- A constant as an operand. -/
def operand (t : TokIn isConstant) : Phrase .unary := .unsigned (.call (.constant t) .done)

theorem tokens_operand (t : TokIn isConstant) : (operand t).tokens = [t.1] := by
  simp [operand, Phrase.tokens, Suffixes.tokens]

theorem tree_operand (t : TokIn isConstant) : (operand t).tree = .literal (constant t.1) := by
  simp [operand, Phrase.tree, Suffixes.tree]

theorem static_operand (t : TokIn isConstant) : (operand t).Static := by
  simp [operand, Phrase.Static, Suffixes.Static]

/-! ## Operands as programs -/

/-- A statement that starts like an expression is one. -/
theorem expr_of_head {d : Statement} {t : Token} {ts : List Token} (h : d.tokens = t :: ts)
    (ht : startsExpression t.kind = true) : ∃ clause, d = .expr clause := by
  have hnot := not_opening ht
  cases d with
  | expr clause => exact ⟨clause, rfl⟩
  | forLoop keyword | ifThen keyword | ifElse keyword | print keyword | ret keyword
  | whileLoop keyword | block keyword =>
    rw [Statement.tokens] at h
    rw [← (List.cons.inj h).1, keyword.2] at hnot
    cases hnot

/-- So is a declaration. -/
theorem Decl.expr_of_head {d : Decl} {t : Token} {ts : List Token} (h : d.tokens = t :: ts)
    (ht : startsExpression t.kind = true) : ∃ clause, d = .statement (.expr clause) := by
  have hnot := not_closing ht
  cases d with
  | function keyword =>
    rw [Decl.tokens] at h
    rw [← (List.cons.inj h).1, keyword.2] at hnot
    exact absurd rfl hnot.2.2.2.1
  | var clause =>
    rw [Decl.tokens, VarClause.tokens] at h
    rw [← (List.cons.inj h).1, clause.keyword.2] at hnot
    exact absurd rfl hnot.2.2.1
  | statement d =>
    obtain ⟨clause, rfl⟩ := Grammar.expr_of_head h ht
    exact ⟨clause, rfl⟩

end Grammar

open Grammar

variable {tokens : List Token} {d : Phrase .unary}

/-- An operand and a semicolon are a program. -/
theorem parse_alone (hd : d.Static) (semicolon : Tok .semicolon)
    (h : programTokens tokens = d.tokens ++ [semicolon.1]) :
    parse tokens = .ok [.expr d.tree] := by
  let ds : Decls := .cons (.statement (.expr ⟨d.asExpression, semicolon⟩)) .nil
  have htokens : ds.tokens = programTokens tokens := by
    simp [ds, Decls.tokens, Decl.tokens, Statement.tokens, ExprClause.tokens, h]
  have hlawful : ds.Lawful := ⟨⟨trivial, trivial⟩, ⟨Phrase.static_asExpression hd, trivial⟩⟩
  rw [parse_complete hlawful htokens]
  simp [ds, Decls.trees, Decl.tree, Statement.tree, ExprClause.tree]

/-- There is no program where an operand is followed by what neither goes on with the expression
nor ends the statement. -/
theorem parse_interrupted {t : Token} {ts : List Token}
    (h : programTokens tokens = d.tokens ++ t :: ts)
    (hstops : Stops (.assignment .full) (t :: ts)) (hsemicolon : t.kind ≠ .semicolon)
    (p : Program) : parse tokens ≠ .ok p := by
  intro hparse
  obtain ⟨ds, hds, -, -⟩ := parse_sound hparse
  obtain ⟨u, us, hhead, hu⟩ := d.head
  rw [h] at hds
  cases ds with
  | nil =>
    rw [hhead] at hds
    cases hds
  | cons first others =>
    -- The first declaration starts like the operand, so it is an expression.
    obtain ⟨v, vs, hfirst, -⟩ := first.head
    have hv : v = u := by
      rw [Decls.tokens, hfirst, hhead] at hds
      exact (List.cons.inj hds).1
    obtain ⟨clause, rfl⟩ := Decl.expr_of_head hfirst (hv ▸ hu)
    have hboth : clause.value.tokens ++ clause.semicolon.1 :: others.tokens =
        d.asExpression.tokens ++ t :: ts := by
      rw [Phrase.tokens_asExpression, ← hds]
      simp [Decls.tokens, Decl.tokens, Statement.tokens, ExprClause.tokens]
    have hends : Stops (.assignment .full) (clause.semicolon.1 :: others.tokens) :=
      stops_tok clause.semicolon rfl
    obtain ⟨-, hrest⟩ := clause.value.unique d.asExpression hboth hends hstops
    exact hsemicolon ((List.cons.inj hrest).1 ▸ clause.semicolon.2)

end Treewalk
