import Treewalk.Proofs.Grammar.Moves
import Treewalk.Proofs.Grammar.Program
import Treewalk.Proofs.Lines.Relabel

/-!
# Reading tokens with other line numbers

Readers look at the kinds of tokens and keep the tokens themselves, but never look at their
lines. So reading commutes with relabelling: the program and all problems of relabelled
tokens are those of the tokens, relabelled.

Results:

* `RereadsAt.all`, `RereadsStatementsAt.all`: all readers commute with relabelling.
* `parse_relabel`: relabelled tokens are accepted with the relabelled program.
* `parse_map_relabel`: whatever tokens are read as, errors included.
-/
namespace Treewalk

open Parse

section Relabel

variable (f : Nat → Nat)

def Blame.relabel (b : Blame) : Blame := { b with token := b.token.map (Token.relabel f) }

def ParseError.relabel (e : ParseError) : ParseError := { e with token := e.token.relabel f }

def ParseState.relabel (s : ParseState) : ParseState :=
  { s with
    rest := s.rest.map (Token.relabel f)
    problems := s.problems.map (Blame.relabel f) }

def Halt.relabel : Halt → Halt
  | .fatal b => .fatal (b.relabel f)
  | .outOfFuel => .outOfFuel

/-- The result with another one in its place, and everything relabelled. -/
def relabelRead {α : Type} (g : α → α) :
    EStateM.Result Halt ParseState α → EStateM.Result Halt ParseState α
  | .ok a s => .ok (g a) (s.relabel f)
  | .error h s => .error (h.relabel f) (s.relabel f)

/-- The second reader does with relabelled tokens what the first one does. -/
def Rereads {α : Type} (g : α → α) (x y : Parse α) : Prop :=
  ∀ s : ParseState, y (s.relabel f) = relabelRead f g (x s)

end Relabel

variable {f : Nat → Nat} {α β : Type} {g : α → α} {h : β → β}

/-! ## Steps -/

@[simp]
theorem Token.kind_relabel (t : Token) : (t.relabel f).kind = t.kind := rfl

section Steps

variable (s : ParseState)

theorem ParseState.head?_relabel :
    (s.relabel f).rest.head? = s.rest.head?.map (Token.relabel f) := List.head?_map

theorem ParseState.blame_relabel (p : Problem) :
    (s.relabel f).blame p = (s.blame p).relabel f := by
  rw [ParseState.blame, s.head?_relabel]
  rfl

theorem ParseState.advance_relabel : (s.relabel f).advance = s.advance.relabel f := by
  obtain ⟨rest, n, fs, bs⟩ := s
  cases rest <;> rfl

theorem ParseState.record_relabel (b : Blame) :
    (s.relabel f).record (b.relabel f) = (s.record b).relabel f := by
  simp [ParseState.record, ParseState.relabel]

theorem resync_relabel : ∀ ts : List Token,
    resync (ts.map (Token.relabel f)) =
      ((resync ts).1, (resync ts).2.map (Token.relabel f))
  | [] => rfl
  | [_] => rfl
  | t :: u :: rest => by
    have ih := resync_relabel (u :: rest)
    simp only [List.map_cons] at ih
    by_cases hstop : (t.kind = .semicolon || u.kind.startsStatement) = true
    · simp only [List.map_cons, resync, Token.kind_relabel, if_pos hstop]
      exact if_pos hstop
    · simp only [List.map_cons, resync, Token.kind_relabel, if_neg hstop, ih]
      exact if_neg hstop

theorem ParseState.resynced_relabel : (s.relabel f).resynced = s.resynced.relabel f := by
  unfold ParseState.resynced
  rw [show (s.relabel f).rest = s.rest.map (Token.relabel f) from rfl, resync_relabel]
  rfl

end Steps

theorem rereads_bind {x y : Parse α} {k k' : α → Parse β} (hx : Rereads f g x y)
    (hk : ∀ a, Rereads f h (k a) (k' (g a))) : Rereads f h (x >>= k) (y >>= k') := by
  intro s
  cases hs : x s with
  | ok a s₁ =>
    have hy : y (s.relabel f) = .ok (g a) (s₁.relabel f) := by rw [hx s, hs]; rfl
    rw [bind_of_ok hs, bind_of_ok hy]
    exact hk a s₁
  | error e s₁ =>
    have hy : y (s.relabel f) = .error (e.relabel f) (s₁.relabel f) := by rw [hx s, hs]; rfl
    rw [bind_of_error hs, bind_of_error hy]
    rfl

theorem rereads_pure (a : α) : Rereads f g (pure a) (pure (g a)) := fun _ => rfl

theorem rereads_outOfFuel : Rereads f g outOfFuel outOfFuel := fun _ => rfl

theorem rereads_fail (p : Problem) : Rereads f g (fail p) (fail p) := by
  intro s
  rw [fail_apply, s.blame_relabel]
  rfl

theorem rereads_peek : Rereads f (Option.map (Token.relabel f)) peek? peek? := by
  intro s
  rw [peek?_apply, s.head?_relabel]
  rfl

theorem rereads_check (k : Kind) : Rereads f id (check k) (check k) := by
  intro s
  rw [check_apply, s.head?_relabel]
  simp only [Option.any_map]
  rfl

theorem rereads_skip : Rereads f id skip skip := by
  intro s
  rw [skip_apply, s.advance_relabel]
  rfl

theorem rereads_accept (p : Kind → Bool) :
    Rereads f (Option.map (Token.relabel f)) (accept? p) (accept? p) := by
  rintro ⟨rest, n, fs, bs⟩
  cases rest with
  | nil => rfl
  | cons t ts =>
    by_cases hp : p t.kind = true
    · simp [accept?_apply, ParseState.relabel, hp, relabelRead, ParseState.advance]
    · simp [accept?_apply, ParseState.relabel, hp, relabelRead]

theorem rereads_expect (what : Missing) :
    Rereads f (Token.relabel f) (expect what) (expect what) := by
  rintro ⟨rest, n, fs, bs⟩
  cases rest with
  | nil => rfl
  | cons t ts =>
    by_cases hkind : t.kind = what.kind
    · simp [expect_apply, ParseState.relabel, hkind, relabelRead, ParseState.advance]
    · simp [expect_apply, ParseState.relabel, hkind, relabelRead, Halt.relabel, Blame.relabel,
        ParseState.blame]

theorem rereads_blame (p : Problem) :
    Rereads f (Blame.relabel f) (Parse.blame p) (Parse.blame p) := by
  intro s
  rw [Parse.blame_apply, s.blame_relabel]
  rfl

theorem rereads_record (b : Blame) :
    Rereads f id (Parse.record b) (Parse.record (b.relabel f)) := by
  intro s
  rw [Parse.record_apply, s.record_relabel]
  rfl

theorem rereads_reportIf (c : Bool) (p : Problem) :
    Rereads f id (reportIf c p) (reportIf c p) := by
  intro s
  cases c with
  | false => rfl
  | true =>
    simp only [reportIf_apply, if_true]
    rw [s.blame_relabel, s.record_relabel]
    rfl

theorem rereads_inFunction : Rereads f id inFunction inFunction := fun _ => rfl

theorem rereads_enterFunction {x y : Parse α} (hx : Rereads f g x y) :
    Rereads f g (enterFunction x) (enterFunction y) := by
  intro s
  have hbody : y { s.relabel f with functions := (s.relabel f).functions + 1 } =
      relabelRead f g (x { s with functions := s.functions + 1 }) :=
    hx { s with functions := s.functions + 1 }
  cases hs : x { s with functions := s.functions + 1 } with
  | ok a s₁ =>
    rw [hs] at hbody
    rw [enterFunction_of_ok hs, enterFunction_of_ok hbody]
    rfl
  | error e s₁ =>
    rw [hs] at hbody
    rw [enterFunction_of_error hs, enterFunction_of_error hbody]
    rfl

theorem rereads_recovering {x y : Parse α} (hx : Rereads f g x y) :
    Rereads f (Option.map g) (recovering x) (recovering y) := by
  intro s
  have hy := hx s
  cases hs : x s with
  | ok a s₁ =>
    rw [hs] at hy
    rw [recovering_eq_some.mpr hs]
    exact recovering_eq_some.mpr hy
  | error e s₁ =>
    rw [hs] at hy
    cases e with
    | outOfFuel =>
      rw [recovering_of_outOfFuel hs]
      exact recovering_of_outOfFuel hy
    | fatal b =>
      rw [recovering_eq_none.mpr ⟨b, s₁, hs, rfl⟩]
      refine recovering_eq_none.mpr ⟨b.relabel f, s₁.relabel f, hy, ?_⟩
      rw [s₁.record_relabel, ParseState.resynced_relabel]

/-! ## Expressions -/

theorem atom?_relabel (t : Token) : atom? (t.relabel f) = (atom? t).map (Expr.relabel f) := by
  obtain ⟨kind, lexeme, literal, line⟩ := t
  cases kind <;> rfl

theorem join_relabel (l : Level) (a b : Expr) (op : Token) :
    l.join (a.relabel f) (op.relabel f) (b.relabel f) = (l.join a op b).relabel f := by
  cases l <;> rfl

/-- With this much fuel, all readers of expressions commute with relabelling. -/
structure RereadsAt (f : Nat → Nat) (fuel : Nat) : Prop where
  assignment : ∀ e, Rereads f (Expr.relabel f) (Parse.assignment fuel e) (Parse.assignment fuel e)
  chain : ∀ l, Rereads f (Expr.relabel f) (Parse.chain fuel l) (Parse.chain fuel l)
  chainTail : ∀ l left, Rereads f (Expr.relabel f) (Parse.chainTail fuel l left)
    (Parse.chainTail fuel l (left.relabel f))
  operand : ∀ l, Rereads f (Expr.relabel f) (Parse.operand fuel l) (Parse.operand fuel l)
  conditional : Rereads f (Expr.relabel f) (Parse.conditional fuel) (Parse.conditional fuel)
  unary : Rereads f (Expr.relabel f) (Parse.unary fuel) (Parse.unary fuel)
  callTail : ∀ callee, Rereads f (Expr.relabel f) (Parse.callTail fuel callee)
    (Parse.callTail fuel (callee.relabel f))
  arguments : ∀ count, Rereads f (Expr.relabelAll f) (Parse.arguments fuel count)
    (Parse.arguments fuel count)
  primary : Rereads f (Expr.relabel f) (Parse.primary fuel) (Parse.primary fuel)

namespace RereadsAt

variable {fuel : Nat}

theorem zero : RereadsAt f 0 where
  assignment _ := rereads_outOfFuel
  chain _ := rereads_outOfFuel
  chainTail _ _ := rereads_outOfFuel
  operand _ := rereads_outOfFuel
  conditional := rereads_outOfFuel
  unary := rereads_outOfFuel
  callTail _ := rereads_outOfFuel
  arguments _ := rereads_outOfFuel
  primary := rereads_outOfFuel

theorem assignment_succ (ih : RereadsAt f fuel) (e : Extent) :
    Rereads f (Expr.relabel f) (Parse.assignment (fuel + 1) e)
      (Parse.assignment (fuel + 1) e) := by
  unfold Parse.assignment
  cases e
  case' full => refine rereads_bind (ih.chain _) fun target => ?_
  case' argument => refine rereads_bind ih.conditional fun target => ?_
  -- What follows the left side is the same for both extents.
  all_goals
    refine rereads_bind (rereads_check _) fun found => ?_
    cases found with
    | false => exact rereads_pure target
    | true =>
      refine rereads_bind (rereads_blame _) fun b => rereads_bind rereads_skip fun _ =>
        rereads_bind (ih.assignment _) fun value => ?_
      cases target with
      | name t => exact rereads_pure (Expr.assign t value)
      | _ => exact rereads_bind (rereads_record b) fun _ => rereads_pure _

theorem chainTail_succ (ih : RereadsAt f fuel) (l : Level) (left : Expr) :
    Rereads f (Expr.relabel f) (Parse.chainTail (fuel + 1) l left)
      (Parse.chainTail (fuel + 1) l (left.relabel f)) := by
  refine rereads_bind (rereads_accept _) fun r => ?_
  cases r with
  | none => exact rereads_pure left
  | some t =>
    refine rereads_bind (ih.operand l) fun right => ?_
    have hrest := ih.chainTail l (l.join left t right)
    rwa [← join_relabel] at hrest

theorem operand_succ (ih : RereadsAt f fuel) (l : Level) :
    Rereads f (Expr.relabel f) (Parse.operand (fuel + 1) l) (Parse.operand (fuel + 1) l) := by
  cases l with
  | series => exact ih.conditional
  | factor => exact ih.unary
  | _ => exact ih.chain _

theorem conditional_succ (ih : RereadsAt f fuel) :
    Rereads f (Expr.relabel f) (Parse.conditional (fuel + 1))
      (Parse.conditional (fuel + 1)) := by
  refine rereads_bind (ih.chain _) fun c => rereads_bind (rereads_accept _) fun r => ?_
  cases r with
  | none => exact rereads_pure c
  | some t =>
    exact rereads_bind (ih.assignment _) fun whenTrue => rereads_bind (rereads_expect _) fun _ =>
      rereads_bind ih.conditional fun whenFalse =>
        rereads_pure (Expr.ternary t c whenTrue whenFalse)

theorem unary_succ (ih : RereadsAt f fuel) :
    Rereads f (Expr.relabel f) (Parse.unary (fuel + 1)) (Parse.unary (fuel + 1)) := by
  refine rereads_bind (rereads_accept _) fun r => ?_
  cases r with
  | none => exact rereads_bind ih.primary fun callee => ih.callTail callee
  | some t => exact rereads_bind ih.unary fun right => rereads_pure (Expr.unary t right)

theorem callTail_succ (ih : RereadsAt f fuel) (callee : Expr) :
    Rereads f (Expr.relabel f) (Parse.callTail (fuel + 1) callee)
      (Parse.callTail (fuel + 1) (callee.relabel f)) := by
  refine rereads_bind (rereads_accept _) fun r => ?_
  cases r with
  | none => exact rereads_pure callee
  | some t =>
    have hclose : ∀ args, Rereads f (Expr.relabel f)
        (do
          let paren ← Parse.expect .parenAfterArguments
          Parse.callTail fuel (.call callee paren args))
        (do
          let paren ← Parse.expect .parenAfterArguments
          Parse.callTail fuel (.call (callee.relabel f) paren (Expr.relabelAll f args))) :=
      fun args => rereads_bind (rereads_expect _) fun paren =>
        ih.callTail (.call callee paren args)
    refine rereads_bind (rereads_check _) fun found => ?_
    cases found with
    | false => exact rereads_bind (ih.arguments 0) hclose
    | true => exact rereads_bind (rereads_pure []) hclose

theorem arguments_succ (ih : RereadsAt f fuel) (count : Nat) :
    Rereads f (Expr.relabelAll f) (Parse.arguments (fuel + 1) count)
      (Parse.arguments (fuel + 1) count) := by
  refine rereads_bind (rereads_reportIf _ _) fun _ => rereads_bind (ih.assignment _) fun first =>
    rereads_bind (rereads_accept _) fun r => ?_
  cases r with
  | none => exact rereads_pure [first]
  | some t => exact rereads_bind (ih.arguments _) fun others => rereads_pure (first :: others)

theorem primary_succ (ih : RereadsAt f fuel) :
    Rereads f (Expr.relabel f) (Parse.primary (fuel + 1)) (Parse.primary (fuel + 1)) := by
  refine rereads_bind rereads_peek fun r => ?_
  cases r with
  | none => exact rereads_fail _
  | some t =>
    dsimp only [Option.map_some]
    rw [Token.kind_relabel, atom?_relabel]
    split
    · exact rereads_bind rereads_skip fun _ => rereads_bind (ih.assignment _) fun inner =>
        rereads_bind (rereads_expect _) fun _ => rereads_pure (Expr.grouping inner)
    · cases atom? t with
      | none => exact rereads_fail _
      | some e => exact rereads_bind rereads_skip fun _ => rereads_pure e

theorem all : ∀ fuel, RereadsAt f fuel
  | 0 => zero
  | fuel + 1 =>
    let ih := all fuel
    ⟨ih.assignment_succ, fun l => rereads_bind (ih.operand l) fun left => ih.chainTail l left,
      ih.chainTail_succ, ih.operand_succ, ih.conditional_succ, ih.unary_succ, ih.callTail_succ,
      ih.arguments_succ, ih.primary_succ⟩

end RereadsAt

/-! ## Statements -/

section Clauses

variable (fuel : Nat)

theorem rereads_expression :
    Rereads f (Expr.relabel f) (expression fuel) (expression fuel) :=
  (RereadsAt.all fuel).assignment .full

theorem rereads_parameters : ∀ fuel count,
    Rereads f (List.map (Token.relabel f)) (parameters fuel count) (parameters fuel count)
  | 0, _ => rereads_outOfFuel
  | fuel + 1, count => by
    refine rereads_bind (rereads_reportIf _ _) fun _ => rereads_bind (rereads_expect _)
      fun first => rereads_bind (rereads_accept _) fun r => ?_
    cases r with
    | none => exact rereads_pure [first]
    | some t =>
      exact rereads_bind (rereads_parameters fuel _) fun others => rereads_pure (first :: others)

theorem rereads_expressionUnless (k : Kind) :
    Rereads f (Option.map (Expr.relabel f)) (expressionUnless fuel k)
      (expressionUnless fuel k) := by
  refine rereads_bind (rereads_check _) fun found => ?_
  cases found with
  | false => exact rereads_bind (rereads_expression fuel) fun e => rereads_pure (some e)
  | true => exact rereads_pure none

theorem rereads_varDeclaration :
    Rereads f (Stmt.relabel f) (varDeclaration fuel) (varDeclaration fuel) := by
  have hclose : ∀ name initial, Rereads f (Stmt.relabel f)
      (do
        let _ ← Parse.expect .semicolonAfterVariable
        return .var name initial)
      (do
        let _ ← Parse.expect .semicolonAfterVariable
        return .var (name.relabel f) (initial.map (Expr.relabel f))) :=
    fun name initial => rereads_bind (rereads_expect _) fun _ =>
      rereads_pure (Stmt.var name initial)
  refine rereads_bind (rereads_expect _) fun name => rereads_bind (rereads_accept _) fun r => ?_
  cases r with
  | none => exact rereads_bind (rereads_pure none) (hclose name)
  | some t =>
    exact rereads_bind (rereads_expression fuel) fun e =>
      rereads_bind (rereads_pure (some e)) (hclose name)

theorem rereads_expressionStatement :
    Rereads f (Stmt.relabel f) (expressionStatement fuel) (expressionStatement fuel) :=
  rereads_bind (rereads_expression fuel) fun e => rereads_bind (rereads_expect _) fun _ =>
    rereads_pure (Stmt.expr e)

theorem rereads_printStatement :
    Rereads f (Stmt.relabel f) (printStatement fuel) (printStatement fuel) :=
  rereads_bind (rereads_expression fuel) fun e => rereads_bind (rereads_expect _) fun _ =>
    rereads_pure (Stmt.print e)

theorem rereads_returnStatement (keyword : Token) :
    Rereads f (Stmt.relabel f) (returnStatement fuel keyword)
      (returnStatement fuel (keyword.relabel f)) :=
  rereads_bind rereads_inFunction fun _ => rereads_bind (rereads_reportIf _ _) fun _ =>
    rereads_bind rereads_skip fun _ => rereads_bind (rereads_expressionUnless fuel _)
      fun value => rereads_bind (rereads_expect _) fun _ => rereads_pure (Stmt.ret keyword value)

theorem rereads_firstClause :
    Rereads f (Option.map (Stmt.relabel f)) (firstClause fuel) (firstClause fuel) := by
  refine rereads_bind (rereads_accept _) fun r => ?_
  cases r with
  | none => exact rereads_bind (rereads_expressionStatement fuel) fun s => rereads_pure (some s)
  | some t =>
    dsimp only [Option.map_some]
    rw [Token.kind_relabel]
    split
    · exact rereads_pure none
    · exact rereads_bind (rereads_varDeclaration fuel) fun s => rereads_pure (some s)

end Clauses

theorem forLoop_relabel (first : Option Stmt) (condition last : Option Expr) (body : Stmt) :
    Stmt.forLoop (first.map (Stmt.relabel f)) (condition.map (Expr.relabel f))
      (last.map (Expr.relabel f)) (body.relabel f) =
        (Stmt.forLoop first condition last body).relabel f := by
  cases first <;> cases condition <;> cases last <;> rfl

/-- With this much fuel, all readers of statements commute with relabelling. -/
structure RereadsStatementsAt (f : Nat → Nat) (fuel : Nat) : Prop where
  declaration : Rereads f (Option.map (Stmt.relabel f)) (Parse.declaration fuel)
    (Parse.declaration fuel)
  declarations : ∀ inBlock, Rereads f (Stmt.relabelAll f) (Parse.declarations fuel inBlock)
    (Parse.declarations fuel inBlock)
  block : Rereads f (Stmt.relabelAll f) (Parse.block fuel) (Parse.block fuel)
  functionDeclaration : Rereads f (Stmt.relabel f) (Parse.functionDeclaration fuel)
    (Parse.functionDeclaration fuel)
  statement : Rereads f (Stmt.relabel f) (Parse.statement fuel) (Parse.statement fuel)
  forStatement : Rereads f (Stmt.relabel f) (Parse.forStatement fuel) (Parse.forStatement fuel)
  ifStatement : Rereads f (Stmt.relabel f) (Parse.ifStatement fuel) (Parse.ifStatement fuel)
  whileStatement : Rereads f (Stmt.relabel f) (Parse.whileStatement fuel)
    (Parse.whileStatement fuel)

namespace RereadsStatementsAt

variable {fuel : Nat}

theorem zero : RereadsStatementsAt f 0 where
  declaration := rereads_outOfFuel
  declarations _ := rereads_outOfFuel
  block := rereads_outOfFuel
  functionDeclaration := rereads_outOfFuel
  statement := rereads_outOfFuel
  forStatement := rereads_outOfFuel
  ifStatement := rereads_outOfFuel
  whileStatement := rereads_outOfFuel

theorem declaration_succ (ih : RereadsStatementsAt f fuel) :
    Rereads f (Option.map (Stmt.relabel f)) (Parse.declaration (fuel + 1))
      (Parse.declaration (fuel + 1)) := by
  refine rereads_recovering (rereads_bind (rereads_accept _) fun r => ?_)
  cases r with
  | none => exact ih.statement
  | some t =>
    dsimp only [Option.map_some]
    rw [Token.kind_relabel]
    split
    · exact ih.functionDeclaration
    · exact rereads_varDeclaration fuel

theorem declarations_succ (ih : RereadsStatementsAt f fuel) (inBlock : Bool) :
    Rereads f (Stmt.relabelAll f) (Parse.declarations (fuel + 1) inBlock)
      (Parse.declarations (fuel + 1) inBlock) := by
  refine rereads_bind rereads_peek fun r => ?_
  cases r with
  | none => exact rereads_pure []
  | some t =>
    dsimp only [Option.map_some]
    rw [Token.kind_relabel]
    split
    · exact rereads_pure []
    · refine rereads_bind ih.declaration fun first => rereads_bind (ih.declarations _)
        fun others => ?_
      cases first with
      | none => exact rereads_pure others
      | some s => exact rereads_pure (s :: others)

theorem functionDeclaration_succ (ih : RereadsStatementsAt f fuel) :
    Rereads f (Stmt.relabel f) (Parse.functionDeclaration (fuel + 1))
      (Parse.functionDeclaration (fuel + 1)) := by
  have hbody : ∀ (name : Token) params, Rereads f (Stmt.relabel f)
      (do
        let _ ← Parse.expect .parenAfterParameters
        let _ ← Parse.expect .braceBeforeBody
        let body ← Parse.enterFunction (Parse.block fuel)
        return .function name params body)
      (do
        let _ ← Parse.expect .parenAfterParameters
        let _ ← Parse.expect .braceBeforeBody
        let body ← Parse.enterFunction (Parse.block fuel)
        return .function (name.relabel f) (params.map (Token.relabel f)) body) :=
    fun name params => rereads_bind (rereads_expect _) fun _ => rereads_bind (rereads_expect _)
      fun _ => rereads_bind (rereads_enterFunction ih.block) fun body =>
        rereads_pure (Stmt.function name params body)
  refine rereads_bind (rereads_expect _) fun name => rereads_bind (rereads_expect _) fun _ =>
    rereads_bind (rereads_check _) fun found => ?_
  cases found with
  | false => exact rereads_bind (rereads_parameters fuel 0) (hbody name)
  | true => exact rereads_bind (rereads_pure []) (hbody name)

theorem statement_succ (ih : RereadsStatementsAt f fuel) :
    Rereads f (Stmt.relabel f) (Parse.statement (fuel + 1)) (Parse.statement (fuel + 1)) := by
  refine rereads_bind rereads_peek fun r => ?_
  cases r with
  | none => exact rereads_expressionStatement fuel
  | some t =>
    dsimp only [Option.map_some]
    rw [Token.kind_relabel]
    split
    · exact rereads_bind rereads_skip fun _ => ih.forStatement
    · exact rereads_bind rereads_skip fun _ => ih.ifStatement
    · exact rereads_bind rereads_skip fun _ => rereads_printStatement fuel
    · exact rereads_returnStatement fuel t
    · exact rereads_bind rereads_skip fun _ => ih.whileStatement
    · exact rereads_bind rereads_skip fun _ => rereads_bind ih.block fun body =>
        rereads_pure (Stmt.block body)
    · exact rereads_expressionStatement fuel

theorem forStatement_succ (ih : RereadsStatementsAt f fuel) :
    Rereads f (Stmt.relabel f) (Parse.forStatement (fuel + 1))
      (Parse.forStatement (fuel + 1)) := by
  refine rereads_bind (rereads_expect _) fun _ => rereads_bind (rereads_firstClause fuel)
    fun first => rereads_bind (rereads_expressionUnless fuel _) fun condition =>
      rereads_bind (rereads_expect _) fun _ => rereads_bind (rereads_expressionUnless fuel _)
        fun last => rereads_bind (rereads_expect _) fun _ => rereads_bind ih.statement
          fun body => ?_
  rw [forLoop_relabel]
  exact rereads_pure _

theorem ifStatement_succ (ih : RereadsStatementsAt f fuel) :
    Rereads f (Stmt.relabel f) (Parse.ifStatement (fuel + 1))
      (Parse.ifStatement (fuel + 1)) := by
  refine rereads_bind (rereads_expect _) fun _ => rereads_bind (rereads_expression fuel)
    fun c => rereads_bind (rereads_expect _) fun _ => rereads_bind ih.statement fun whenTrue =>
      rereads_bind (rereads_accept _) fun r => ?_
  cases r with
  | none => exact rereads_pure (Stmt.ifThen c whenTrue)
  | some t =>
    exact rereads_bind ih.statement fun whenFalse =>
      rereads_pure (Stmt.ifElse c whenTrue whenFalse)

theorem succ (ih : RereadsStatementsAt f fuel) : RereadsStatementsAt f (fuel + 1) where
  declaration := ih.declaration_succ
  declarations := ih.declarations_succ
  block := rereads_bind (ih.declarations true) fun body => rereads_bind (rereads_expect _)
    fun _ => rereads_pure body
  functionDeclaration := ih.functionDeclaration_succ
  statement := ih.statement_succ
  forStatement := ih.forStatement_succ
  ifStatement := ih.ifStatement_succ
  whileStatement := rereads_bind (rereads_expect _) fun _ =>
    rereads_bind (rereads_expression fuel) fun c => rereads_bind (rereads_expect _) fun _ =>
      rereads_bind ih.statement fun body => rereads_pure (Stmt.whileLoop c body)

theorem all : ∀ fuel, RereadsStatementsAt f fuel
  | 0 => zero
  | fuel + 1 => (all fuel).succ

end RereadsStatementsAt

/-! ## Programs -/

theorem programTokens_map (f : Nat → Nat) (tokens : List Token) :
    programTokens (tokens.map (Token.relabel f)) =
      (programTokens tokens).map (Token.relabel f) := by
  rw [programTokens, List.takeWhile_map]
  rfl

theorem readProgram_map (f : Nat → Nat) (ts : List Token) :
    readProgram (ts.map (Token.relabel f)) =
      relabelRead f (Stmt.relabelAll f) (readProgram ts) := by
  have hinitial : ParseState.initial (ts.map (Token.relabel f)) =
      (ParseState.initial ts).relabel f := by simp [ParseState.initial, ParseState.relabel]
  rw [readProgram, readProgram, List.length_map, hinitial]
  exact (RereadsStatementsAt.all _).declarations false (.initial ts)

/-- Tokens on other lines are accepted with the relabelled program. -/
theorem parse_relabel (f : Nat → Nat) {tokens : List Token} {p : Program}
    (h : parse tokens = .ok p) :
    parse (tokens.map (Token.relabel f)) = .ok (Stmt.relabelAll f p) := by
  obtain ⟨s, hread, hproblems⟩ := parse_eq_ok.mp h
  refine parse_eq_ok.mpr ⟨s.relabel f, ?_, ?_⟩
  · rw [programTokens_map, readProgram_map, hread]
    rfl
  · simp [ParseState.relabel, hproblems]

theorem endToken_map (f : Nat → Nat) {tokens : List Token} (h : ∃ t ∈ tokens, t.kind = .eof) :
    endToken (tokens.map (Token.relabel f)) = (endToken tokens).relabel f := by
  obtain ⟨e, he⟩ : ∃ e, tokens.find? (·.kind = .eof) = some e := by
    obtain ⟨t, ht, hkind⟩ := h
    exact Option.isSome_iff_exists.mp (List.find?_isSome.mpr ⟨t, ht, decide_eq_true hkind⟩)
  have hmap : (tokens.map (Token.relabel f)).find? (·.kind = .eof) = some (e.relabel f) := by
    rw [List.find?_map]
    exact congrArg (Option.map (Token.relabel f)) he
  rw [endToken, endToken, he, hmap]
  rfl

/-- The error of a relabelled problem. -/
theorem Blame.error_relabel (b : Blame) (finish : Token) :
    (b.relabel f).error (finish.relabel f) = (b.error finish).relabel f := by
  obtain ⟨p, n, t⟩ := b
  cases t <;> rfl

/-- What tokens are read as, with other line numbers. -/
def relabelParse (f : Nat → Nat) :
    Except (List ParseError) Program → Except (List ParseError) Program
  | .ok p => .ok (Stmt.relabelAll f p)
  | .error es => .error (es.map (ParseError.relabel f))

/-- Tokens on other lines are read as the same program with other lines, or with the same
errors on other lines. The end token has to be one of them: without one it would be placed on
the line of the last token, or on the first line. -/
theorem parse_map_relabel (f : Nat → Nat) {tokens : List Token}
    (h : ∃ t ∈ tokens, t.kind = .eof) :
    parse (tokens.map (Token.relabel f)) = relabelParse f (parse tokens) := by
  have herrors : ∀ s : ParseState,
      (s.relabel f).problems.toList.map (·.error ((endToken tokens).relabel f)) =
        (s.problems.toList.map (·.error (endToken tokens))).map (ParseError.relabel f) := by
    intro s
    simp [ParseState.relabel, Function.comp_def, Blame.error_relabel]
  unfold parse
  rw [programTokens_map, readProgram_map, endToken_map f h]
  cases readProgram (programTokens tokens) with
  | ok p s =>
    have hempty : (s.relabel f).problems.isEmpty = s.problems.isEmpty := by
      simp [ParseState.relabel, Array.isEmpty]
    simp only [relabelRead, herrors, hempty]
    split <;> rfl
  | error halt s =>
    simp only [relabelRead, herrors]
    rfl

end Treewalk
