import Treewalk.Tree.Parser.Program

/-!
# All readers

Readers are put together from a few steps that look at the token at hand, take it,
report a problem or give up, and from four ways to combine them: one after the other,
inside a function body, with recovery, and with less fuel. So a relation between a reader on
states of one kind and the same reader on states of another kind that the steps have and that is
passed on by the combinations (`Composed`) holds of every reader, and so does one that the steps
have as far as readers use them (`Assembled`). Readers that read no statements inside others use
less than that (`Plain`). A property of readers is such a relation as well (`Single`).

Results:

* `ReadersAt.all`, `ReadersAt.plain`: of all readers of expressions.
* `StatementReadersAt.all`, `StatementReadersAt.assembled`: of all readers of statements.
* `EveryReaderAt.all`: of both, and of the readers of clauses.
-/
namespace Treewalk

open Parse

variable {σ τ : Type} [ReadState σ] [ReadState τ]

/-- The relation between a reader on the one kind of states and itself on the other kind. -/
abbrev Both (C : ∀ {α : Type}, Reader σ α → Reader τ α → Prop) {α : Type}
    (x : ∀ {ρ : Type} [ReadState ρ], Reader ρ α) : Prop := C x x

/-- A relation that the steps of readers of expressions and clauses have and that is passed on by
their combinations: these readers report nothing about `return`s and use neither function bodies
nor recovery, and of the problems that are recorded later than they are met there are only those
of assignment targets. -/
structure Plain (C : ∀ {α : Type}, Reader σ α → Reader τ α → Prop) : Prop where
  pure : ∀ {α : Type} (a : α), Both C (Pure.pure a)
  bind : ∀ {α β : Type} {x : Reader σ α} {y : Reader τ α} {f : α → Reader σ β}
    {g : α → Reader τ β}, C x y → (∀ a, C (f a) (g a)) → C (x >>= f) (y >>= g)
  outOfFuel : ∀ {α : Type}, C (Parse.outOfFuel : Reader σ α) Parse.outOfFuel
  fail : ∀ {α : Type} {p : Problem}, p.fatal = true → C (Parse.fail p : Reader σ α) (Parse.fail p)
  peek : Both C peek?
  check : ∀ k, Both C (Parse.check k)
  skip : Both C Parse.skip
  accept : ∀ p, Both C (accept? p)
  expect : ∀ what, Both C (Parse.expect what)
  reportIf : ∀ c {p : Problem}, p.fatal = false → p ≠ .topLevelReturn →
    Both C (Parse.reportIf c p)
  blame : ∀ {α : Type} {p : Problem} {f : Blame → Reader σ α} {g : Blame → Reader τ α},
    (∀ b, b.problem = p → C (f b) (g b)) → C (Parse.blame p >>= f) (Parse.blame p >>= g)
  record : ∀ {b : Blame}, b.problem = .assignmentTarget → Both C (Parse.record b)

/-- The same for all readers. -/
structure Assembled (C : ∀ {α : Type}, Reader σ α → Reader τ α → Prop) : Prop
    extends Plain C where
  inFunction : Both C Parse.inFunction
  reportReturn : ∀ c, Both C (Parse.reportIf c .topLevelReturn)
  enterFunction : ∀ {α : Type} {x : Reader σ α} {y : Reader τ α}, C x y →
    C (Parse.enterFunction x) (Parse.enterFunction y)
  recovering : ∀ {α : Type} {x : Reader σ α} {y : Reader τ α}, C x y →
    C (Parse.recovering x) (Parse.recovering y)

/-- The same, whatever problem is recorded later than it is met, unless it is a fatal one. -/
structure Composed (C : ∀ {α : Type}, Reader σ α → Reader τ α → Prop) : Prop
    extends Assembled C where
  recordMild : ∀ {b : Blame}, b.problem.fatal = false → Both C (Parse.record b)

/-- A property of the first of two readers. -/
abbrev Single (P : ∀ {α : Type}, Reader σ α → Prop) {α : Type} (x _ : Reader σ α) : Prop := P x

variable {C : ∀ {α : Type}, Reader σ α → Reader τ α → Prop}

/-! ## Expressions -/

/-- With this much fuel, all readers of expressions have the property. -/
structure ReadersAt (C : ∀ {α : Type}, Reader σ α → Reader τ α → Prop) (fuel : Nat) : Prop where
  assignment : ∀ e, Both C (Parse.assignment fuel e)
  chain : ∀ l, Both C (Parse.chain fuel l)
  chainTail : ∀ l left, Both C (Parse.chainTail fuel l left)
  operand : ∀ l, Both C (Parse.operand fuel l)
  conditional : Both C (Parse.conditional fuel)
  unary : Both C (Parse.unary fuel)
  callTail : ∀ callee, Both C (Parse.callTail fuel callee)
  arguments : ∀ count, Both C (Parse.arguments fuel count)
  primary : Both C (Parse.primary fuel)

namespace ReadersAt

variable {fuel : Nat}

theorem zero (hC : Plain C) : ReadersAt C 0 where
  assignment _ := hC.outOfFuel
  chain _ := hC.outOfFuel
  chainTail _ _ := hC.outOfFuel
  operand _ := hC.outOfFuel
  conditional := hC.outOfFuel
  unary := hC.outOfFuel
  callTail _ := hC.outOfFuel
  arguments _ := hC.outOfFuel
  primary := hC.outOfFuel

theorem assignment_succ (hC : Plain C) (ih : ReadersAt C fuel) (e : Extent) :
    Both C (Parse.assignment (fuel + 1) e) := by
  unfold Parse.assignment
  cases e
  case' full => refine hC.bind (ih.chain _) fun target => ?_
  case' argument => refine hC.bind ih.conditional fun target => ?_
  -- What follows the left side is the same for both extents.
  all_goals
    refine hC.bind (hC.check _) fun found => ?_
    cases found with
    | false => exact hC.pure _
    | true =>
      refine hC.blame fun b hb => hC.bind hC.skip fun _ =>
        hC.bind (ih.assignment _) fun value => ?_
      split
      · exact hC.pure _
      · exact hC.bind (hC.record hb) fun _ => hC.pure _

theorem chainTail_succ (hC : Plain C) (ih : ReadersAt C fuel) (l : Level) (left : Expr) :
    Both C (Parse.chainTail (fuel + 1) l left) := by
  refine hC.bind (hC.accept _) fun r => ?_
  cases r with
  | none => exact hC.pure _
  | some t => exact hC.bind (ih.operand l) fun right => ih.chainTail l _

theorem operand_succ (ih : ReadersAt C fuel) (l : Level) : Both C (Parse.operand (fuel + 1) l) := by
  cases l with
  | series => exact ih.conditional
  | factor => exact ih.unary
  | _ => exact ih.chain _

theorem conditional_succ (hC : Plain C) (ih : ReadersAt C fuel) :
    Both C (Parse.conditional (fuel + 1)) := by
  refine hC.bind (ih.chain _) fun c => hC.bind (hC.accept _) fun r => ?_
  cases r with
  | none => exact hC.pure _
  | some t =>
    exact hC.bind (ih.assignment _) fun _ => hC.bind (hC.expect _) fun _ =>
      hC.bind ih.conditional fun _ => hC.pure _

theorem unary_succ (hC : Plain C) (ih : ReadersAt C fuel) : Both C (Parse.unary (fuel + 1)) := by
  refine hC.bind (hC.accept _) fun r => ?_
  cases r with
  | none => exact hC.bind ih.primary fun callee => ih.callTail callee
  | some t => exact hC.bind ih.unary fun _ => hC.pure _

theorem callTail_succ (hC : Plain C) (ih : ReadersAt C fuel) (callee : Expr) :
    Both C (Parse.callTail (fuel + 1) callee) := by
  refine hC.bind (hC.accept _) fun r => ?_
  cases r with
  | none => exact hC.pure _
  | some t =>
    have hclose : ∀ args, Both C (do
        let paren ← Parse.expect .parenAfterArguments
        Parse.callTail fuel (.call callee paren args)) :=
      fun args => hC.bind (hC.expect _) fun _ => ih.callTail _
    refine hC.bind (hC.check _) fun found => ?_
    cases found with
    | false => exact hC.bind (ih.arguments 0) hclose
    | true => exact hC.bind (hC.pure []) hclose

theorem arguments_succ (hC : Plain C) (ih : ReadersAt C fuel) (count : Nat) :
    Both C (Parse.arguments (fuel + 1) count) := by
  refine hC.bind (hC.reportIf _ rfl nofun) fun _ => hC.bind (ih.assignment _) fun first =>
    hC.bind (hC.accept _) fun r => ?_
  cases r with
  | none => exact hC.pure _
  | some t => exact hC.bind (ih.arguments _) fun _ => hC.pure _

theorem primary_succ (hC : Plain C) (ih : ReadersAt C fuel) :
    Both C (Parse.primary (fuel + 1)) := by
  refine hC.bind hC.peek fun r => ?_
  cases r with
  | none => exact hC.fail rfl
  | some t =>
    dsimp only
    split
    · exact hC.bind hC.skip fun _ => hC.bind (ih.assignment _) fun _ =>
        hC.bind (hC.expect _) fun _ => hC.pure _
    · split
      · exact hC.fail rfl
      · exact hC.bind hC.skip fun _ => hC.pure _

theorem plain (hC : Plain C) : ∀ fuel, ReadersAt C fuel
  | 0 => zero hC
  | fuel + 1 =>
    let ih := plain hC fuel
    ⟨ih.assignment_succ hC, fun l => hC.bind (ih.operand l) fun left => ih.chainTail l left,
      ih.chainTail_succ hC, ih.operand_succ, ih.conditional_succ hC, ih.unary_succ hC,
      ih.callTail_succ hC, ih.arguments_succ hC, ih.primary_succ hC⟩

theorem all (hC : Composed C) (fuel : Nat) : ReadersAt C fuel := plain hC.toPlain fuel

end ReadersAt

/-! ## Statements -/

section Clauses

variable (hC : Plain C) (fuel : Nat)

include hC

theorem plain_expression : Both C (expression fuel) := (ReadersAt.plain hC fuel).assignment .full

theorem plain_parameters : ∀ fuel count, Both C (parameters fuel count)
  | 0, _ => hC.outOfFuel
  | fuel + 1, count => by
    refine hC.bind (hC.reportIf _ rfl nofun) fun _ => hC.bind (hC.expect _) fun first =>
      hC.bind (hC.accept _) fun r => ?_
    cases r with
    | none => exact hC.pure _
    | some t => exact hC.bind (plain_parameters fuel _) fun _ => hC.pure _

theorem plain_expressionUnless (k : Kind) : Both C (expressionUnless fuel k) := by
  refine hC.bind (hC.check _) fun found => ?_
  cases found with
  | false => exact hC.bind (plain_expression hC fuel) fun _ => hC.pure _
  | true => exact hC.pure _

theorem plain_varDeclaration : Both C (varDeclaration fuel) := by
  have hclose : ∀ name initial, Both C (do
      let _ ← Parse.expect .semicolonAfterVariable
      return Stmt.var name initial) :=
    fun name initial => hC.bind (hC.expect _) fun _ => hC.pure _
  refine hC.bind (hC.expect _) fun name => hC.bind (hC.accept _) fun r => ?_
  cases r with
  | none => exact hC.bind (hC.pure none) (hclose name)
  | some t =>
    exact hC.bind (plain_expression hC fuel) fun e => hC.bind (hC.pure (some e)) (hclose name)

theorem plain_expressionStatement : Both C (expressionStatement fuel) :=
  hC.bind (plain_expression hC fuel) fun _ => hC.bind (hC.expect _) fun _ => hC.pure _

theorem plain_printStatement : Both C (printStatement fuel) :=
  hC.bind (plain_expression hC fuel) fun _ => hC.bind (hC.expect _) fun _ => hC.pure _

theorem plain_firstClause : Both C (firstClause fuel) := by
  refine hC.bind (hC.accept _) fun r => ?_
  cases r with
  | none => exact hC.bind (plain_expressionStatement hC fuel) fun _ => hC.pure _
  | some t =>
    dsimp only
    split
    · exact hC.pure _
    · exact hC.bind (plain_varDeclaration hC fuel) fun _ => hC.pure _

end Clauses

/-- With this much fuel, all readers of clauses have the property. -/
structure ClauseReadersAt (C : ∀ {α : Type}, Reader σ α → Reader τ α → Prop) (fuel : Nat) : Prop where
  expression : Both C (Parse.expression fuel)
  parameters : ∀ count, Both C (Parse.parameters fuel count)
  expressionUnless : ∀ k, Both C (Parse.expressionUnless fuel k)
  varDeclaration : Both C (Parse.varDeclaration fuel)
  expressionStatement : Both C (Parse.expressionStatement fuel)
  printStatement : Both C (Parse.printStatement fuel)
  returnStatement : ∀ keyword, Both C (Parse.returnStatement fuel keyword)
  firstClause : Both C (Parse.firstClause fuel)

theorem assembled_returnStatement (hC : Assembled C) (fuel : Nat) (keyword : Token) :
    Both C (returnStatement fuel keyword) :=
  hC.bind hC.inFunction fun _ => hC.bind (hC.reportReturn _) fun _ => hC.bind hC.skip fun _ =>
    hC.bind (plain_expressionUnless hC.toPlain fuel _) fun _ => hC.bind (hC.expect _) fun _ =>
      hC.pure _

theorem ClauseReadersAt.assembled (hC : Assembled C) (fuel : Nat) : ClauseReadersAt C fuel where
  expression := plain_expression hC.toPlain fuel
  parameters := plain_parameters hC.toPlain fuel
  expressionUnless := plain_expressionUnless hC.toPlain fuel
  varDeclaration := plain_varDeclaration hC.toPlain fuel
  expressionStatement := plain_expressionStatement hC.toPlain fuel
  printStatement := plain_printStatement hC.toPlain fuel
  returnStatement := assembled_returnStatement hC fuel
  firstClause := plain_firstClause hC.toPlain fuel

/-- With this much fuel, all readers of statements have the property. -/
structure StatementReadersAt (C : ∀ {α : Type}, Reader σ α → Reader τ α → Prop) (fuel : Nat) : Prop where
  declaration : Both C (Parse.declaration fuel)
  declarations : ∀ inBlock, Both C (Parse.declarations fuel inBlock)
  block : Both C (Parse.block fuel)
  functionDeclaration : Both C (Parse.functionDeclaration fuel)
  statement : Both C (Parse.statement fuel)
  forStatement : Both C (Parse.forStatement fuel)
  ifStatement : Both C (Parse.ifStatement fuel)
  whileStatement : Both C (Parse.whileStatement fuel)

/-- A declaration, as long as nothing has to be skipped. -/
def Parse.unrecovered (fuel : Nat) : Reader σ Stmt := do
  match ← accept? (fun k => k = .funKw || k = .varKw) with
  | none => statement fuel
  | some t => if t.kind = .funKw then functionDeclaration fuel else varDeclaration fuel

theorem declaration_succ (fuel : Nat) :
    (declaration (fuel + 1) : Reader σ _) = Parse.recovering (Parse.unrecovered fuel) := rfl

namespace StatementReadersAt

variable {fuel : Nat}

theorem zero (hC : Assembled C) : StatementReadersAt C 0 where
  declaration := hC.outOfFuel
  declarations _ := hC.outOfFuel
  block := hC.outOfFuel
  functionDeclaration := hC.outOfFuel
  statement := hC.outOfFuel
  forStatement := hC.outOfFuel
  ifStatement := hC.outOfFuel
  whileStatement := hC.outOfFuel

theorem unrecovered (hC : Assembled C) (ih : StatementReadersAt C fuel) :
    Both C (Parse.unrecovered fuel) := by
  refine hC.bind (hC.accept _) fun r => ?_
  cases r with
  | none => exact ih.statement
  | some t =>
    dsimp only
    split
    · exact ih.functionDeclaration
    · exact plain_varDeclaration hC.toPlain fuel

theorem declarations_succ (hC : Assembled C) (ih : StatementReadersAt C fuel) (inBlock : Bool) :
    Both C (Parse.declarations (fuel + 1) inBlock) := by
  refine hC.bind hC.peek fun r => ?_
  cases r with
  | none => exact hC.pure _
  | some t =>
    dsimp only
    split
    · exact hC.pure _
    · exact hC.bind ih.declaration fun _ => hC.bind (ih.declarations _) fun _ => hC.pure _

theorem functionDeclaration_succ (hC : Assembled C) (ih : StatementReadersAt C fuel) :
    Both C (Parse.functionDeclaration (fuel + 1)) := by
  have hbody : ∀ name params, Both C (do
      let _ ← Parse.expect .parenAfterParameters
      let _ ← Parse.expect .braceBeforeBody
      let body ← Parse.enterFunction (Parse.block fuel)
      return Stmt.function name params body) :=
    fun name params => hC.bind (hC.expect _) fun _ => hC.bind (hC.expect _) fun _ =>
      hC.bind (hC.enterFunction ih.block) fun _ => hC.pure _
  refine hC.bind (hC.expect _) fun name => hC.bind (hC.expect _) fun _ =>
    hC.bind (hC.check _) fun found => ?_
  cases found with
  | false => exact hC.bind (plain_parameters hC.toPlain fuel 0) (hbody name)
  | true => exact hC.bind (hC.pure []) (hbody name)

theorem statement_succ (hC : Assembled C) (ih : StatementReadersAt C fuel) :
    Both C (Parse.statement (fuel + 1)) := by
  refine hC.bind hC.peek fun r => ?_
  cases r with
  | none => exact plain_expressionStatement hC.toPlain fuel
  | some t =>
    dsimp only
    split
    · exact hC.bind hC.skip fun _ => ih.forStatement
    · exact hC.bind hC.skip fun _ => ih.ifStatement
    · exact hC.bind hC.skip fun _ => plain_printStatement hC.toPlain fuel
    · exact assembled_returnStatement hC fuel t
    · exact hC.bind hC.skip fun _ => ih.whileStatement
    · exact hC.bind hC.skip fun _ => hC.bind ih.block fun _ => hC.pure _
    · exact plain_expressionStatement hC.toPlain fuel

theorem forStatement_succ (hC : Assembled C) (ih : StatementReadersAt C fuel) :
    Both C (Parse.forStatement (fuel + 1)) :=
  hC.bind (hC.expect _) fun _ => hC.bind (plain_firstClause hC.toPlain fuel) fun _ =>
    hC.bind (plain_expressionUnless hC.toPlain fuel _) fun _ => hC.bind (hC.expect _) fun _ =>
      hC.bind (plain_expressionUnless hC.toPlain fuel _) fun _ => hC.bind (hC.expect _) fun _ =>
        hC.bind ih.statement fun _ => hC.pure _

theorem ifStatement_succ (hC : Assembled C) (ih : StatementReadersAt C fuel) :
    Both C (Parse.ifStatement (fuel + 1)) := by
  refine hC.bind (hC.expect _) fun _ => hC.bind (plain_expression hC.toPlain fuel) fun c =>
    hC.bind (hC.expect _) fun _ => hC.bind ih.statement fun t =>
      hC.bind (hC.accept _) fun r => ?_
  cases r with
  | none => exact hC.pure _
  | some u => exact hC.bind ih.statement fun _ => hC.pure _

theorem succ (hC : Assembled C) (ih : StatementReadersAt C fuel) :
    StatementReadersAt C (fuel + 1) where
  declaration := hC.recovering (ih.unrecovered hC)
  declarations := ih.declarations_succ hC
  block := hC.bind (ih.declarations true) fun _ => hC.bind (hC.expect _) fun _ => hC.pure _
  functionDeclaration := ih.functionDeclaration_succ hC
  statement := ih.statement_succ hC
  forStatement := ih.forStatement_succ hC
  ifStatement := ih.ifStatement_succ hC
  whileStatement := hC.bind (hC.expect _) fun _ => hC.bind (plain_expression hC.toPlain fuel) fun _ =>
    hC.bind (hC.expect _) fun _ => hC.bind ih.statement fun _ => hC.pure _

theorem assembled (hC : Assembled C) : ∀ fuel, StatementReadersAt C fuel
  | 0 => zero hC
  | fuel + 1 => (assembled hC fuel).succ hC

theorem all (hC : Composed C) (fuel : Nat) : StatementReadersAt C fuel :=
  assembled hC.toAssembled fuel

end StatementReadersAt

/-! ## All of them -/

/-- With this much fuel, all readers have the property. -/
structure EveryReaderAt (C : ∀ {α : Type}, Reader σ α → Reader τ α → Prop) (fuel : Nat) : Prop where
  expressions : ReadersAt C fuel
  clauses : ClauseReadersAt C fuel
  statements : StatementReadersAt C fuel

theorem EveryReaderAt.all (hC : Composed C) (fuel : Nat) : EveryReaderAt C fuel where
  expressions := .all hC fuel
  clauses := .assembled hC.toAssembled fuel
  statements := .all hC fuel

end Treewalk
