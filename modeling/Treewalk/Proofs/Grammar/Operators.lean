import Treewalk.Proofs.Grammar.Sourced

/-!
# Operators and loops of accepted programs

An operator of an accepted program is one that its kind of expression has, and the
program has a loop exactly if its text has the keyword of one.

Results:

* `parse_operates`: accepted programs have no other operators.
* `parse_loopFree_iff`: they have loops exactly where `while` or `for` stands.
-/
namespace Treewalk

/-! ## Operators -/

/-- If the expression has an operator, it is one that its kind of expression has. -/
def Expr.Operates : Expr → Prop
  | .unary op _ => op.kind.isUnary = true
  | .binary _ op _ => op.kind.isBinary = true
  | .logical _ op _ => op.kind.isLogical = true
  | _ => True

/-- So have all expressions in the statement, up to those in statements in it. -/
def Stmt.Operates (s : Stmt) : Prop := ∀ e ∈ s.exprs, e.Everywhere Expr.Operates

theorem Expr.Sourced.operates {S : Token → Prop} {e : Expr} (h : e.Sourced S) : e.Operates := by
  cases e with
  | unary op e | binary l op r | logical l op r => exact h.2
  | _ => trivial

/-- Accepted programs have no other operators. -/
theorem parse_operates {tokens : List Token} {p : Program} (h : parse tokens = .ok p) :
    Stmt.EverywhereAll Stmt.Operates p := by
  have hsourced : Stmt.EverywhereAll (Stmt.Sourced fun _ => True) p :=
    parse_sourced h fun _ _ => trivial
  exact hsourced.imp fun s hs e he => (hs.2 e he).imp fun _ => Expr.Sourced.operates

/-! ## Loops -/

/-- The keywords of loops. -/
def Kind.isLoop (k : Kind) : Bool := k = .whileKw || k = .forKw

/-- The statement itself is not a loop. -/
def Stmt.Straight : Stmt → Prop
  | .whileLoop _ _ => False
  | _ => True

/-- The program has no loop, not even in a function body. -/
def Program.LoopFree (p : Program) : Prop := Stmt.EverywhereAll Stmt.Straight p

namespace Grammar

/-- No token is the keyword of a loop. -/
def Loopless (ts : List Token) : Prop := ∀ t ∈ ts, t.kind.isLoop = false

@[simp]
theorem loopless_nil : Loopless [] := List.forall_mem_nil _

@[simp]
theorem loopless_cons {t : Token} {ts : List Token} :
    Loopless (t :: ts) ↔ t.kind.isLoop = false ∧ Loopless ts := List.forall_mem_cons

@[simp]
theorem loopless_append {ts us : List Token} : Loopless (ts ++ us) ↔ Loopless ts ∧ Loopless us :=
  List.forall_mem_append

theorem isLoop_of_prefix {k : Kind} (h : Parse.isPrefixOperator k = true) : k.isLoop = false := by
  cases k <;> first | rfl | cases h

theorem isLoop_of_constant {k : Kind} (h : isConstant k = true) : k.isLoop = false := by
  cases k <;> first | rfl | cases h

theorem isLoop_of_has {l : Level} {k : Kind} (h : l.has k = true) : k.isLoop = false := by
  rw [has_iff] at h
  cases k <;> first | rfl | (cases l <;> cases h)

@[simp]
theorem tok_kind {k : Kind} (t : Tok k) : t.1.kind = k := t.2

mutual

/-- Expressions have no keywords of loops. -/
theorem Phrase.loopless : {r : Rule} → (d : Phrase r) → Loopless d.tokens
  | _, .plain d => d.loopless
  | _, .assign target equals value => by
    simp [Phrase.tokens, target.loopless, value.loopless, Kind.isLoop]
  | _, .chain first tail => by simp [Phrase.tokens, first.loopless, tail.loopless]
  | _, .simple d => d.loopless
  | _, .ternary c question t colon f => by
    simp [Phrase.tokens, c.loopless, t.loopless, f.loopless, Kind.isLoop]
  | _, .signed operator right => by
    simp [Phrase.tokens, right.loopless, isLoop_of_prefix operator.2]
  | _, .unsigned d => d.loopless
  | _, .call callee suffixes => by simp [Phrase.tokens, callee.loopless, suffixes.loopless]
  | _, .constant t => by simp [Phrase.tokens, isLoop_of_constant t.2]
  | _, .name t => by simp [Phrase.tokens, Kind.isLoop]
  | _, .group opening inner closing => by
    simp [Phrase.tokens, inner.loopless, Kind.isLoop]

theorem Tail.loopless : {l : Level} → (d : Tail l) → Loopless d.tokens
  | _, .done => by simp [Tail.tokens]
  | _, .more operator right rest => by
    simp [Tail.tokens, right.loopless, rest.loopless, isLoop_of_has operator.2]

theorem Suffixes.loopless : (d : Suffixes) → Loopless d.tokens
  | .done => by simp [Suffixes.tokens]
  | .empty opening closing rest => by
    simp [Suffixes.tokens, rest.loopless, Kind.isLoop]
  | .applied opening args closing rest => by
    simp [Suffixes.tokens, args.loopless, rest.loopless, Kind.isLoop]

theorem Arguments.loopless : (d : Arguments) → Loopless d.tokens
  | .one d => d.loopless
  | .more first comma rest => by
    simp [Arguments.tokens, first.loopless, rest.loopless, Kind.isLoop]

end

theorem optional_loopless (d : Option Exp) : Loopless (optional d) := by
  cases d with
  | none => exact loopless_nil
  | some d => exact d.loopless

theorem VarClause.loopless (d : VarClause) : Loopless d.tokens := by
  have h : Loopless (initialTokens d.initial) := by
    cases d.initial with
    | none => exact loopless_nil
    | some i => simp [initialTokens, i.2.loopless, Kind.isLoop]
  simp [VarClause.tokens, h, Kind.isLoop]

theorem ExprClause.loopless (d : ExprClause) : Loopless d.tokens := by
  simp [ExprClause.tokens, d.value.loopless, Kind.isLoop]

theorem Parameters.loopless : (d : Parameters) → Loopless d.tokens
  | .one t => by simp [Parameters.tokens, Kind.isLoop]
  | .more t comma rest => by
    simp [Parameters.tokens, rest.loopless, Kind.isLoop]

theorem parameterTokens_loopless (d : Option Parameters) : Loopless (parameterTokens d) := by
  cases d with
  | none => exact loopless_nil
  | some d => exact d.loopless

theorem forLoop_not_loopFree (first : Option Stmt) (condition last : Option Expr) (body : Stmt) :
    ¬ (Stmt.forLoop first condition last body).Everywhere Stmt.Straight := by
  unfold Stmt.forLoop
  intro h
  cases first with
  | none => exact h.1
  | some s => exact h.2.2.1.1

mutual

theorem Statement.loopFree_iff : (d : Statement) →
    (d.tree.Everywhere Stmt.Straight ↔ Loopless d.tokens)
  | .expr d => iff_of_true trivial d.loopless
  | .forLoop keyword _ _ _ _ _ _ _ => by
    rw [Statement.tree_forLoop]
    refine iff_of_false (forLoop_not_loopFree _ _ _ _) ?_
    simp [Statement.tokens, Kind.isLoop]
  | .ifThen keyword opening condition closing whenTrue => by
    simp [Statement.tree, Stmt.Everywhere, Stmt.Straight, whenTrue.loopFree_iff, Statement.tokens,
      condition.loopless, Kind.isLoop]
  | .ifElse keyword opening condition closing whenTrue otherwise whenFalse => by
    simp [Statement.tree, Stmt.Everywhere, Stmt.Straight, whenTrue.loopFree_iff,
      whenFalse.loopFree_iff, Statement.tokens, condition.loopless, Kind.isLoop]
  | .print keyword value semicolon => by
    simp [Statement.tree, Stmt.Everywhere, Stmt.Straight, Statement.tokens, value.loopless,
      Kind.isLoop]
  | .ret keyword value semicolon => by
    simp [Statement.tree, Stmt.Everywhere, Stmt.Straight, Statement.tokens,
      optional_loopless value, Kind.isLoop]
  | .whileLoop keyword _ _ _ _ => by
    simp [Statement.tree, Stmt.Everywhere, Stmt.Straight, Statement.tokens, Kind.isLoop]
  | .block opening body closing => by
    simp [Statement.tree, Stmt.Everywhere, Stmt.Straight, body.loopFree_iff, Statement.tokens,
      Kind.isLoop]

theorem Decl.loopFree_iff : (d : Decl) →
    (d.tree.Everywhere Stmt.Straight ↔ Loopless d.tokens)
  | .function keyword name opening params closing before body after => by
    simp [Decl.tree, Stmt.Everywhere, Stmt.Straight, body.loopFree_iff, Decl.tokens,
      parameterTokens_loopless params, Kind.isLoop]
  | .var d => iff_of_true trivial d.loopless
  | .statement d => d.loopFree_iff

theorem Decls.loopFree_iff : (d : Decls) →
    (Stmt.EverywhereAll Stmt.Straight d.trees ↔ Loopless d.tokens)
  | .nil => iff_of_true trivial loopless_nil
  | .cons first others => by
    simp [Decls.trees, Stmt.EverywhereAll, first.loopFree_iff, others.loopFree_iff, Decls.tokens]

end

end Grammar

/-! ## Accepted programs -/

open Grammar

/-- Accepted programs have a loop exactly if `while` or `for` stands among their tokens. -/
theorem parse_loopFree_iff {tokens : List Token} {p : Program} (h : parse tokens = .ok p) :
    Program.LoopFree p ↔ Loopless (programTokens tokens) := by
  obtain ⟨d, htokens, -, rfl⟩ := parse_sound h
  rw [← htokens]
  exact d.loopFree_iff

end Treewalk
