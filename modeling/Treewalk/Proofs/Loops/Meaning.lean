import Treewalk.Proofs.Loops.ForLoop
import Treewalk.Proofs.Loops.WellFormed

/-!
# The meaning of a `for` loop

The statement that is built for a `for` loop may open scopes that the loop as it is written
does not open. They bind nothing, since no declaration can be the body of a loop, so the
two cannot be told apart: one ends if the other does, in the same way and with the same
output, and the bindings of all scopes from before are the same. A function that was made
meanwhile may close over more scopes, but the further ones bind nothing.

Results:

* `Grammar.Statement.bare_tree`: a statement binds nothing in the scope it is run in.
* `forLoop_runs_as_written`: both ways to run a loop have the same effects.
-/
namespace Treewalk

open Grammar

/-! ## Statements bind nothing -/

theorem Stmt.forLoop_bare (first : Option Stmt) (condition last : Option Expr) {body : Stmt}
    (hbody : body.Bare) : (Stmt.forLoop first condition last body).Bare := by
  cases first with
  | none =>
    cases last with
    | none => exact hbody
    | some e => trivial
  | some s => trivial

/-- A statement that is no declaration binds nothing in the scope it is run in. -/
theorem Grammar.Statement.bare_tree : (d : Statement) → d.tree.Bare
  | .forLoop _ _ _ _ _ _ _ body => by
    rw [Statement.tree_forLoop]
    exact Stmt.forLoop_bare _ _ _ body.bare_tree
  | .ifThen _ _ _ _ whenTrue => whenTrue.bare_tree
  | .ifElse _ _ _ _ whenTrue _ whenFalse => ⟨whenTrue.bare_tree, whenFalse.bare_tree⟩
  | .whileLoop _ _ _ _ body => body.bare_tree
  | .expr _ | .print _ _ _ | .ret _ _ _ | .block _ _ _ => trivial

/-! ## Runs that end -/

/-- The run ends, and this is its result. -/
def Ended {α : Type} (x : Nat → Eval α) (m : Machine) (r : EStateM.Result Stop Machine α) : Prop :=
  (∃ fuel, x fuel m = r) ∧ ¬ Spent r

/-- Two results of running something on `m` that cannot be told apart. -/
structure SameOutcome (m : Machine) (spare : ScopeId → Bool)
    (r r' : EStateM.Result Stop Machine Flow) : Prop where
  /-- None of the scopes to spare was there before. -/
  fresh : ∀ i < m.store.scopes.size, spare i = false
  ending : ending r' = (ending r).map (Flow.slim spare)
  printed : (after r').printed = (after r).printed
  bindings : ∀ i < m.store.scopes.size, ∀ name,
    (after r').store.bound? i name = ((after r).store.bound? i name).map (Value.slim spare)
  /-- All else is the same too, up to the scopes to spare, which bind nothing. -/
  padded : Padded spare (after r) (after r')

theorem Matched.sameOutcome {m : Machine} {spare : ScopeId → Bool}
    {r r' : EStateM.Result Stop Machine Flow}
    (hspare : ∀ i : Nat, i < m.store.scopes.size → spare i = false) (h : Matched spare m m r r') :
    SameOutcome m spare r r' where
  fresh := hspare
  ending := h.ending
  printed := (Machine.registers_inj h.padded.registers).1
  bindings i hi name := by
    have hbound := h.padded.store.bound i (Nat.lt_of_lt_of_le hi h.grown.size) (hspare i hi) name
    rwa [rank_eq_self fun k hk => hspare k (Nat.lt_trans hk hi)] at hbound
  padded := h.padded

/-- The run on the given side is out of fuel, or both runs have the same effects. -/
theorem spent_or_matched {side : Side} {a b : Nat} (henough : side.Enough 7 a b) (cfg : Setting)
    {m : Machine} (hm : m.WellFormed) (first : Option Stmt) (condition last : Option Expr)
    {body : Stmt} (hbody : body.Bare) :
    side.Spent (execute cfg a (.forLoop first condition last body) m)
        (runFor cfg b first condition last body m) ∨
      ∃ spare : ScopeId → Bool, (∀ i : Nat, i < m.store.scopes.size → spare i = false) ∧
        Matched spare m m (execute cfg a (.forLoop first condition last body) m)
          (runFor cfg b first condition last body m) := by
  have hfollows : Follows side nothingSpare true []
      (execute cfg a (.forLoop first condition last body))
      (runFor cfg b first condition last body) :=
    follows_forLoop henough first condition last hbody
  exact hfollows m m hm.padded (fun _ => rfl) (List.forall_mem_nil _)

/-- Running the statement that is built for a `for` loop ends exactly if running the loop as
it is written ends, and the two have the same outcome. This holds on every well-formed
machine, and so whenever a session comes to a loop. -/
theorem forLoop_runs_as_written (cfg : Setting) :
    (∀ inputs, ∀ s ∈ (Scoping.watchSession cfg inputs).sights, s.picture.machine.WellFormed) ∧
    ∀ (keyword : Tok .forKw) (opening : Tok .leftParen) (first : FirstClause)
      (condition : Option Exp) (semicolon : Tok .semicolon) (last : Option Exp)
      (closing : Tok .rightParen) (body : Statement) (m : Machine), m.WellFormed →
      let loop := Statement.forLoop keyword opening first condition semicolon last closing body
      let built := fun fuel => execute cfg fuel loop.tree
      let written := fun fuel => runFor cfg fuel first.tree (condition.map Phrase.tree)
        (last.map Phrase.tree) body.tree
      ((∃ r, Ended built m r) ↔ ∃ r', Ended written m r') ∧
        ∀ r r', Ended built m r → Ended written m r' → ∃ spare, SameOutcome m spare r r' := by
  refine ⟨Scoping.wellFormed_sights cfg, ?_⟩
  intro keyword opening first condition semicolon last closing body m hm loop built written
  have hbody := body.bare_tree
  let desugared := Stmt.forLoop first.tree (condition.map Phrase.tree) (last.map Phrase.tree) body.tree
  have hbuilt : built = fun fuel => execute cfg fuel desugared := by
    simp only [built, loop, desugared, Statement.tree_forLoop]
  rw [hbuilt]
  refine ⟨⟨?_, ?_⟩, ?_⟩
  · rintro ⟨_, ⟨a, rfl⟩, hended⟩
    have henough : Side.built.Enough 7 a a := Nat.le_refl a
    obtain ⟨spare, -, hmatched⟩ :=
      (spent_or_matched henough cfg hm first.tree _ _ hbody).resolve_left hended
    exact ⟨_, ⟨a, rfl⟩, mt hmatched.spent.mp hended⟩
  · rintro ⟨_, ⟨b, rfl⟩, hended⟩
    have henough : Side.written.Enough 7 (b + 7) b := Nat.le_refl _
    obtain ⟨spare, -, hmatched⟩ :=
      (spent_or_matched henough cfg hm first.tree _ _ hbody).resolve_left hended
    exact ⟨_, ⟨b + 7, rfl⟩, mt hmatched.spent.mpr hended⟩
  · rintro _ _ ⟨⟨a, rfl⟩, hended⟩ ⟨⟨b, rfl⟩, hended'⟩
    -- With more fuel the first run has the same result, and enough to be compared.
    have hsame : execute cfg (max a (b + 7)) desugared m = execute cfg a desugared m :=
      (extends_spent (fun fuel => (ExtendsAt.all fuel).execute desugared) (Nat.le_max_left ..)
        m).resolve_left hended
    have henough : Side.written.Enough 7 (max a (b + 7)) b := Nat.le_max_right ..
    obtain ⟨spare, hspare, hmatched⟩ :=
      (spent_or_matched henough cfg hm first.tree _ _ hbody).resolve_left hended'
    refine ⟨spare, Matched.sameOutcome hspare ?_⟩
    show Matched spare m m (execute cfg a desugared m) (written b m)
    rw [← hsame]
    exact hmatched

/-- An operand without operators. -/
def Grammar.Phrase.alone (p : Phrase .primary) : Phrase (.chain .series) :=
  .chain (.simple (.chain (.chain (.chain (.chain (.chain (.chain (.unsigned (.call p .done))
    .done) .done) .done) .done) .done) .done)) .done

/-- A function that is made in the loop

    for (var go = true; go; go = false) { fun f() { return go; } clock = f; }

outlives it. It closes over the third scope that the statement has opened, and over the
second one that the loop as it is written has opened. -/
theorem forLoop_runs_as_written_closure :
    let cfg : Setting := { clock := fun _ => 0 }
    let tok := fun (k : Kind) (lexeme : String) => (⟨⟨k, lexeme, none, 1⟩, rfl⟩ : Tok k)
    let name := fun lexeme => (Phrase.name (tok .identifier lexeme)).alone
    let semicolon := tok .semicolon ";"
    let yes : Exp := .plain (Phrase.constant ⟨⟨.trueKw, "true", none, 1⟩, rfl⟩).alone
    let no : Exp := .plain (Phrase.constant ⟨⟨.falseKw, "false", none, 1⟩, rfl⟩).alone
    let first : FirstClause :=
      .var ⟨tok .varKw "var", tok .identifier "go", some (tok .equal "=", yes), semicolon⟩
    let condition : Exp := .plain (name "go")
    let last : Exp := .assign (name "go") (tok .equal "=") no
    let f : Decl := .function (tok .funKw "fun") (tok .identifier "f") (tok .leftParen "(") none
      (tok .rightParen ")") (tok .leftBrace "\x7b")
      (.cons (.statement (.ret (tok .returnKw "return") (some condition) semicolon)) .nil)
      (tok .rightBrace "\x7d")
    let kept : Decl :=
      .statement (.expr ⟨.assign (name "clock") (tok .equal "=") (.plain (name "f")), semicolon⟩)
    let body : Statement :=
      .block (tok .leftBrace "\x7b") (.cons f (.cons kept .nil)) (tok .rightBrace "\x7d")
    let loop : Statement := .forLoop (tok .forKw "for") (tok .leftParen "(") first (some condition)
      semicolon (some last) (tok .rightParen ")") body
    let built := fun fuel => execute cfg fuel loop.tree
    let written := fun fuel => runFor cfg fuel first.tree (some condition.tree) (some last.tree)
      body.tree
    ∃ r r' spare, Ended built Machine.initial r ∧ Ended written Machine.initial r' ∧
      SameOutcome Machine.initial spare r r' ∧
      ((after r).store.bound? Machine.globals "clock").bind Value.closure? = some 3 ∧
      ((after r').store.bound? Machine.globals "clock").bind Value.closure? = some 2 := by
  intro cfg tok name semicolon yes no first condition last f kept body loop built written
  have hbuilt : Ended built Machine.initial (built 20 Machine.initial) :=
    ⟨⟨20, rfl⟩, by decide +kernel⟩
  have hwritten : Ended written Machine.initial (written 20 Machine.initial) :=
    ⟨⟨20, rfl⟩, by decide +kernel⟩
  obtain ⟨spare, hsame⟩ := ((forLoop_runs_as_written cfg).2 (tok .forKw "for")
    (tok .leftParen "(") first (some condition) semicolon (some last) (tok .rightParen ")") body
    Machine.initial Machine.wellFormed_initial).2 _ _ hbuilt hwritten
  exact ⟨_, _, spare, hbuilt, hwritten, hsame, by decide +kernel, by decide +kernel⟩

end Treewalk
