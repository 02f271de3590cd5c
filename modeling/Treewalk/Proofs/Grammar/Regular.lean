import Treewalk.Proofs.Grammar.Program

/-!
# The shape of accepted programs

In the trees of a program a declaration stands directly in a list of statements,
never as a branch or as the body of a loop, and every `return` is in a function
body.

Results:

* `parse_regular`: a program that is accepted has this shape.
-/
namespace Treewalk

/-- A statement that binds a name in the scope it stands in. -/
def Stmt.isDeclaration : Stmt → Bool
  | .var .. | .function .. => true
  | _ => false

mutual

/-- A statement, inside or outside of functions, with all that it holds. -/
def Stmt.Regular : Stmt → Bool → Prop
  | .expr _, _ | .print _, _ | .var _ _, _ => True
  | .block body, inFunction => Stmt.RegularAll body inFunction
  | .ifThen _ whenTrue, inFunction =>
    whenTrue.isDeclaration = false ∧ whenTrue.Regular inFunction
  | .ifElse _ whenTrue whenFalse, inFunction =>
    (whenTrue.isDeclaration = false ∧ whenTrue.Regular inFunction) ∧
      whenFalse.isDeclaration = false ∧ whenFalse.Regular inFunction
  | .whileLoop _ body, inFunction => body.isDeclaration = false ∧ body.Regular inFunction
  | .function _ _ body, _ => Stmt.RegularAll body true
  | .ret _ _, inFunction => inFunction = true

def Stmt.RegularAll : List Stmt → Bool → Prop
  | [], _ => True
  | s :: ss, inFunction => s.Regular inFunction ∧ Stmt.RegularAll ss inFunction

end

theorem Stmt.regularAll_iff {ss : List Stmt} {inFunction : Bool} :
    Stmt.RegularAll ss inFunction ↔ ∀ s ∈ ss, s.Regular inFunction := by
  induction ss with
  | nil => simp [Stmt.RegularAll]
  | cons s ss ih => simp [Stmt.RegularAll, ih]

theorem Stmt.forLoop_isDeclaration (first : Option Stmt) (condition last : Option Expr)
    (body : Stmt) : (Stmt.forLoop first condition last body).isDeclaration = false := by
  cases first <;> rfl

theorem Stmt.forLoop_regular {first : Option Stmt} (condition last : Option Expr) {body : Stmt}
    {inFunction : Bool} (hfirst : ∀ s ∈ first, s.Regular inFunction)
    (hdecl : body.isDeclaration = false) (hbody : body.Regular inFunction) :
    (Stmt.forLoop first condition last body).Regular inFunction := by
  cases last with
  | none =>
    cases first with
    | none => exact ⟨hdecl, hbody⟩
    | some s => exact ⟨hfirst s rfl, ⟨hdecl, hbody⟩, trivial⟩
  | some e =>
    cases first with
    | none => exact ⟨rfl, hbody, trivial, trivial⟩
    | some s => exact ⟨hfirst s rfl, ⟨rfl, hbody, trivial, trivial⟩, trivial⟩

namespace Grammar

theorem Statement.isDeclaration_tree (d : Statement) : d.tree.isDeclaration = false := by
  cases d with
  | forLoop _ _ first condition _ last _ body =>
    rw [Statement.tree_forLoop]
    exact Stmt.forLoop_isDeclaration ..
  | _ => rfl

theorem FirstClause.regular_tree (d : FirstClause) (inFunction : Bool) :
    ∀ s ∈ d.tree, s.Regular inFunction := by
  intro s hs
  cases d with
  | absent _ => cases hs
  | var _ | expr _ => cases hs; trivial

mutual

theorem Statement.regular_tree : (d : Statement) → {fs : Nat} → d.Static fs → {b : Bool} →
    (0 < fs → b = true) → d.tree.Regular b
  | .expr _, _, _, _, _ | .print _ _ _, _, _, _, _ => trivial
  | .forLoop _ _ first _ _ _ _ body, _, h, b, hb => by
    rw [Statement.tree_forLoop]
    exact Stmt.forLoop_regular _ _ (first.regular_tree b) body.isDeclaration_tree
      (body.regular_tree h.2.2.2 hb)
  | .ifThen _ _ _ _ whenTrue, _, h, _, hb =>
    ⟨whenTrue.isDeclaration_tree, whenTrue.regular_tree h.2 hb⟩
  | .ifElse _ _ _ _ whenTrue _ whenFalse, _, h, _, hb =>
    ⟨⟨whenTrue.isDeclaration_tree, whenTrue.regular_tree h.2.1 hb⟩,
      whenFalse.isDeclaration_tree, whenFalse.regular_tree h.2.2 hb⟩
  | .ret _ _ _, _, h, _, hb => hb h.1
  | .whileLoop _ _ _ _ body, _, h, _, hb => ⟨body.isDeclaration_tree, body.regular_tree h.2 hb⟩
  | .block _ body _, _, h, _, hb => body.regular_trees h hb

theorem Decl.regular_tree : (d : Decl) → {fs : Nat} → d.Static fs → {b : Bool} →
    (0 < fs → b = true) → d.tree.Regular b
  | .function _ _ _ _ _ _ body _, _, h, _, _ => body.regular_trees h.2 fun _ => rfl
  | .var _, _, _, _, _ => trivial
  | .statement d, _, h, _, hb => d.regular_tree h hb

theorem Decls.regular_trees : (d : Decls) → {fs : Nat} → d.Static fs → {b : Bool} →
    (0 < fs → b = true) → Stmt.RegularAll d.trees b
  | .nil, _, _, _, _ => trivial
  | .cons first others, _, h, _, hb => ⟨first.regular_tree h.1 hb, others.regular_trees h.2 hb⟩

end

end Grammar

theorem parse_regular {tokens : List Token} {p : Program} (h : parse tokens = .ok p) :
    Stmt.RegularAll p false := by
  obtain ⟨d, -, hd, rfl⟩ := parse_sound h
  exact d.regular_trees hd.static fun h => absurd h (Nat.lt_irrefl 0)

end Treewalk
