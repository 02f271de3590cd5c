import Treewalk.Proofs.Grammar.Program
import Treewalk.Proofs.Machine.Operator
import Treewalk.Proofs.Tree.Everywhere

/-!
# Tokens of accepted programs

The trees of an accepted program hold tokens of its text only, each of a kind that belongs
where it stands, and their literals are the values of such tokens. Only the condition of a
`for` loop that has none is made up.

Results:

* `parse_sourced`: this holds everywhere in an accepted program.
-/
namespace Treewalk

variable {S : Token → Prop}

/-- The tokens of the expression itself are as `S` says and of the right kind. -/
def Expr.Sourced (S : Token → Prop) : Expr → Prop
  | .literal l =>
    l = .bool true ∨ ∃ t, S t ∧ Grammar.isConstant t.kind = true ∧ l = Grammar.constant t
  | .grouping _ => True
  | .unary op _ => S op ∧ op.kind.isUnary = true
  | .binary _ op _ => S op ∧ op.kind.isBinary = true
  | .logical _ op _ => S op ∧ op.kind.isLogical = true
  | .ternary op _ _ _ => S op ∧ op.kind = .question
  | .name t | .assign t _ => S t ∧ t.kind = .identifier
  | .call _ paren _ => S paren ∧ paren.kind = .rightParen

/-- The tokens of the statement itself are as `S` says and of the right kind. -/
def Stmt.Names (S : Token → Prop) : Stmt → Prop
  | .var name _ => S name ∧ name.kind = .identifier
  | .function name params _ => ∀ t ∈ name :: params, S t ∧ t.kind = .identifier
  | .ret keyword _ => S keyword ∧ keyword.kind = .returnKw
  | _ => True

/-- So are those of the expressions in it, up to those in statements in it. -/
def Stmt.Sourced (S : Token → Prop) (s : Stmt) : Prop :=
  s.Names S ∧ ∀ e ∈ s.exprs, e.Everywhere (Expr.Sourced S)

namespace Grammar

/-! ## Expressions -/

/-- The operators of a level are those of its expressions. -/
theorem sourced_of_has {l : Level} {op : Token} (hop : l.has op.kind = true) (hS : S op)
    (left right : Expr) : (l.join left op right).Sourced S := by
  cases l <;>
    (simp only [Level.has, Bool.or_eq_true, decide_eq_true_eq] at hop
     refine ⟨hS, ?_⟩
     simp only [Kind.isLogical, Kind.isBinary, Bool.or_eq_true, decide_eq_true_eq]
     grind)

theorem join_sourced {l : Level} {left right : Expr} {op : Token} (hop : l.has op.kind = true)
    (hS : S op) (hl : left.Everywhere (Expr.Sourced S)) (hr : right.Everywhere (Expr.Sourced S)) :
    (l.join left op right).Everywhere (Expr.Sourced S) := by
  have hjoin := sourced_of_has hop hS left right
  cases l <;> exact ⟨hjoin, hl, hr⟩

theorem assigned_sourced {target value : Expr} (ht : target.Everywhere (Expr.Sourced S))
    (hv : value.Everywhere (Expr.Sourced S)) :
    (assigned target value).Everywhere (Expr.Sourced S) := by
  cases target with
  | name t => exact ⟨ht, hv⟩
  | _ => exact ht

mutual

theorem Phrase.sourced : {r : Rule} → (d : Phrase r) → (∀ t ∈ d.tokens, S t) →
    d.tree.Everywhere (Expr.Sourced S)
  | _, .plain d, h => d.sourced h
  | _, .assign target equals value, h => by
    simp only [Phrase.tokens, List.forall_mem_append, List.forall_mem_cons] at h
    exact assigned_sourced (target.sourced h.1) (value.sourced h.2.2)
  | _, .chain first tail, h => by
    simp only [Phrase.tokens, List.forall_mem_append] at h
    exact tail.sourced h.2 (first.sourced h.1)
  | _, .simple d, h => d.sourced h
  | _, .ternary c question t colon f, h => by
    simp only [Phrase.tokens, List.forall_mem_append, List.forall_mem_cons] at h
    exact ⟨⟨h.2.1, question.2⟩, c.sourced h.1, t.sourced h.2.2.1, f.sourced h.2.2.2.2⟩
  | _, .signed operator right, h => by
    simp only [Phrase.tokens, List.forall_mem_cons] at h
    exact ⟨⟨h.1, operator.2⟩, right.sourced h.2⟩
  | _, .unsigned d, h => d.sourced h
  | _, .call callee suffixes, h => by
    simp only [Phrase.tokens, List.forall_mem_append] at h
    exact suffixes.sourced h.2 (callee.sourced h.1)
  | _, .constant t, h => .inr ⟨t.1, h t.1 (.head _), t.2, rfl⟩
  | _, .name t, h => ⟨h t.1 (.head _), t.2⟩
  | _, .group opening inner closing, h => by
    simp only [Phrase.tokens, List.forall_mem_append, List.forall_mem_cons] at h
    exact ⟨trivial, inner.sourced h.2.1⟩

theorem Tail.sourced : {l : Level} → (d : Tail l) → (∀ t ∈ d.tokens, S t) → {left : Expr} →
    left.Everywhere (Expr.Sourced S) → (d.tree left).Everywhere (Expr.Sourced S)
  | _, .done, _, _, hl => hl
  | _, .more operator right rest, h, _, hl => by
    simp only [Tail.tokens, List.forall_mem_append, List.forall_mem_cons] at h
    rw [Tail.tree_more]
    exact rest.sourced h.2.2 (join_sourced operator.2 h.1 hl (right.sourced h.2.1))

theorem Suffixes.sourced : (d : Suffixes) → (∀ t ∈ d.tokens, S t) → {callee : Expr} →
    callee.Everywhere (Expr.Sourced S) → (d.tree callee).Everywhere (Expr.Sourced S)
  | .done, _, _, hc => hc
  | .empty opening closing rest, h, _, hc => by
    simp only [Suffixes.tokens, List.forall_mem_cons] at h
    exact rest.sourced h.2.2 ⟨⟨h.2.1, closing.2⟩, hc, trivial⟩
  | .applied opening args closing rest, h, _, hc => by
    simp only [Suffixes.tokens, List.forall_mem_append, List.forall_mem_cons] at h
    exact rest.sourced h.2.2.2 ⟨⟨h.2.2.1, closing.2⟩, hc, args.sourced h.2.1⟩

theorem Arguments.sourced : (d : Arguments) → (∀ t ∈ d.tokens, S t) →
    Expr.EverywhereAll (Expr.Sourced S) d.trees
  | .one d, h => ⟨d.sourced h, trivial⟩
  | .more first comma rest, h => by
    simp only [Arguments.tokens, List.forall_mem_append, List.forall_mem_cons] at h
    exact ⟨first.sourced h.1, rest.sourced h.2.2⟩

end

theorem optional_sourced (d : Option Exp) (h : ∀ t ∈ optional d, S t) :
    ∀ e ∈ d.map Phrase.tree, e.Everywhere (Expr.Sourced S) := by
  cases d with
  | none => exact nofun
  | some d =>
    rintro e ⟨⟩
    exact d.sourced h

/-! ## Statements -/

theorem Parameters.sourced : (d : Parameters) → (∀ t ∈ d.tokens, S t) →
    ∀ t ∈ d.names, S t ∧ t.kind = .identifier
  | .one t, h => List.forall_mem_singleton.mpr ⟨h t.1 (.head _), t.2⟩
  | .more t comma rest, h => by
    simp only [Parameters.tokens, List.forall_mem_cons] at h
    exact List.forall_mem_cons.mpr ⟨⟨h.1, t.2⟩, rest.sourced h.2.2⟩

theorem parameters_sourced (d : Option Parameters) (h : ∀ t ∈ parameterTokens d, S t) :
    ∀ t ∈ parameterNames d, S t ∧ t.kind = .identifier := by
  cases d with
  | none => exact List.forall_mem_nil _
  | some d => exact d.sourced h

theorem VarClause.sourced (d : VarClause) (h : ∀ t ∈ d.tokens, S t) :
    d.tree.Everywhere (Stmt.Sourced S) := by
  obtain ⟨keyword, name, initial, semicolon⟩ := d
  simp only [VarClause.tokens, List.forall_mem_append, List.forall_mem_cons] at h
  refine ⟨⟨h.2.1, name.2⟩, fun e he => ?_⟩
  cases initial with
  | none => cases he
  | some i =>
    obtain rfl := List.mem_singleton.mp he
    simp only [initialTokens, List.forall_mem_cons] at h
    exact i.2.sourced h.2.2.1.2

theorem ExprClause.sourced (d : ExprClause) (h : ∀ t ∈ d.tokens, S t) :
    d.value.tree.Everywhere (Expr.Sourced S) := by
  simp only [ExprClause.tokens, List.forall_mem_append] at h
  exact d.value.sourced h.1

theorem Stmt.sourced_expr {e : Expr} (h : e.Everywhere (Expr.Sourced S)) :
    (Stmt.expr e).Sourced S := ⟨trivial, List.forall_mem_singleton.mpr h⟩

theorem FirstClause.sourced (d : FirstClause) (h : ∀ t ∈ d.tokens, S t) :
    ∀ s ∈ d.tree, s.Everywhere (Stmt.Sourced S) := by
  intro s hs
  cases d with
  | absent semicolon => cases hs
  | var d =>
    cases hs
    exact d.sourced h
  | expr d =>
    cases hs
    exact Stmt.sourced_expr (d.sourced h)

theorem forLoop_sourced {first : Option Stmt} {condition last : Option Expr} {body : Stmt}
    (hfirst : ∀ s ∈ first, s.Everywhere (Stmt.Sourced S))
    (hcondition : ∀ e ∈ condition, e.Everywhere (Expr.Sourced S))
    (hlast : ∀ e ∈ last, e.Everywhere (Expr.Sourced S))
    (hbody : body.Everywhere (Stmt.Sourced S)) :
    (Stmt.forLoop first condition last body).Everywhere (Stmt.Sourced S) := by
  have htest : (condition.getD (.literal (.bool true))).Everywhere (Expr.Sourced S) := by
    cases condition with
    | none => exact .inl rfl
    | some e => exact hcondition e rfl
  exact Stmt.forLoop_everywhere hfirst (fun e he => Stmt.sourced_expr (hlast e he))
    (fun _ => ⟨trivial, List.forall_mem_nil _⟩)
    (fun _ => ⟨trivial, List.forall_mem_singleton.mpr htest⟩) hbody

mutual

theorem Statement.sourced : (d : Statement) → (∀ t ∈ d.tokens, S t) →
    d.tree.Everywhere (Stmt.Sourced S)
  | .expr d, h => Stmt.sourced_expr (d.sourced h)
  | .forLoop keyword opening first condition semicolon last closing body, h => by
    simp only [Statement.tokens, List.forall_mem_append, List.forall_mem_cons] at h
    obtain ⟨-, -, hfirst, hcondition, -, hlast, -, hbody⟩ := h
    rw [Statement.tree_forLoop]
    exact forLoop_sourced (first.sourced hfirst) (optional_sourced condition hcondition)
      (optional_sourced last hlast) (body.sourced hbody)
  | .ifThen keyword opening condition closing whenTrue, h => by
    simp only [Statement.tokens, List.forall_mem_append, List.forall_mem_cons] at h
    obtain ⟨-, -, hcondition, -, htrue⟩ := h
    exact ⟨⟨trivial, List.forall_mem_singleton.mpr (condition.sourced hcondition)⟩,
      whenTrue.sourced htrue⟩
  | .ifElse keyword opening condition closing whenTrue otherwise whenFalse, h => by
    simp only [Statement.tokens, List.forall_mem_append, List.forall_mem_cons] at h
    obtain ⟨-, -, hcondition, -, htrue, -, hfalse⟩ := h
    exact ⟨⟨trivial, List.forall_mem_singleton.mpr (condition.sourced hcondition)⟩,
      whenTrue.sourced htrue, whenFalse.sourced hfalse⟩
  | .print keyword value semicolon, h => by
    simp only [Statement.tokens, List.forall_mem_append, List.forall_mem_cons] at h
    exact ⟨trivial, List.forall_mem_singleton.mpr (value.sourced h.2.1)⟩
  | .ret keyword value semicolon, h => by
    simp only [Statement.tokens, List.forall_mem_append, List.forall_mem_cons] at h
    refine ⟨⟨h.1, keyword.2⟩, fun e he => ?_⟩
    exact optional_sourced value h.2.1 e (Option.mem_toList.mp he)
  | .whileLoop keyword opening condition closing body, h => by
    simp only [Statement.tokens, List.forall_mem_append, List.forall_mem_cons] at h
    obtain ⟨-, -, hcondition, -, hbody⟩ := h
    exact ⟨⟨trivial, List.forall_mem_singleton.mpr (condition.sourced hcondition)⟩,
      body.sourced hbody⟩
  | .block opening body closing, h => by
    simp only [Statement.tokens, List.forall_mem_append, List.forall_mem_cons] at h
    exact ⟨⟨trivial, List.forall_mem_nil _⟩, body.sourced h.2.1⟩

theorem Decl.sourced : (d : Decl) → (∀ t ∈ d.tokens, S t) → d.tree.Everywhere (Stmt.Sourced S)
  | .function keyword name opening params closing before body after, h => by
    simp only [Decl.tokens, List.forall_mem_append, List.forall_mem_cons] at h
    obtain ⟨-, hname, -, hparams, -, -, hbody, -⟩ := h
    have hnames := parameters_sourced params hparams
    exact ⟨⟨List.forall_mem_cons.mpr ⟨⟨hname, name.2⟩, hnames⟩, List.forall_mem_nil _⟩,
      body.sourced hbody⟩
  | .var d, h => d.sourced h
  | .statement d, h => d.sourced h

theorem Decls.sourced : (d : Decls) → (∀ t ∈ d.tokens, S t) →
    Stmt.EverywhereAll (Stmt.Sourced S) d.trees
  | .nil, _ => trivial
  | .cons first others, h => by
    simp only [Decls.tokens, List.forall_mem_append] at h
    exact ⟨first.sourced h.1, others.sourced h.2⟩

end

end Grammar

/-- Everything in an accepted program stems from the tokens that it was read from. -/
theorem parse_sourced {tokens : List Token} {p : Program} (h : parse tokens = .ok p)
    (hS : ∀ t ∈ programTokens tokens, S t) : Stmt.EverywhereAll (Stmt.Sourced S) p := by
  obtain ⟨d, htokens, -, rfl⟩ := parse_sound h
  exact d.sourced fun t ht => hS t (htokens ▸ ht)

end Treewalk
