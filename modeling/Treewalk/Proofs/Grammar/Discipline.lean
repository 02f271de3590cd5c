import Treewalk.Proofs.Grammar.Cursor

/-!
# What every reader keeps to

A reader leaves the number of function bodies around it as it was, does not go back and takes
back no recorded problem, whether it succeeds or gives up; and it gives up at the token under
the cursor. With ample fuel it does one of both.

Results:

* `disciplined_moves`: each move of a reader keeps to this.
* `everyReader_concludes`: every reader comes to an end.
-/
namespace Treewalk

open Grammar Parse

variable {s s' s'' : ParseState}

/-! ## States -/

/-- Reading has gone on: tokens have been taken and problems recorded. -/
structure Forward (s s' : ParseState) : Prop where
  cursor : ∃ read, s.rest = read ++ s'.rest ∧ s'.position = s.position + read.length
  problems : s.problems.toList <+: s'.problems.toList

/-- Reading has gone on and is inside as many function bodies as before. -/
structure Disciplined (s s' : ParseState) : Prop extends Forward s s' where
  functions : s'.functions = s.functions

namespace Forward

theorem refl (s : ParseState) : Forward s s := ⟨⟨[], rfl, rfl⟩, List.prefix_rfl⟩

theorem trans (h : Forward s s') (h' : Forward s' s'') : Forward s s'' := by
  obtain ⟨read, hrest, hposition⟩ := h.cursor
  obtain ⟨read', hrest', hposition'⟩ := h'.cursor
  refine ⟨⟨read ++ read', ?_, ?_⟩, h.problems.trans h'.problems⟩
  · rw [hrest, hrest', List.append_assoc]
  · rw [hposition', hposition, List.length_append, Nat.add_assoc]

theorem position_le (h : Forward s s') : s.position ≤ s'.position := by
  obtain ⟨read, -, hposition⟩ := h.cursor
  omega

theorem onTokens {tokens : List Token} (h : Forward s s') (hs : OnTokens tokens s) :
    OnTokens tokens s' := by
  obtain ⟨read, hrest, hposition⟩ := h.cursor
  -- The number of function bodies does not matter for the cursor.
  have hadvances : Advances s { s' with functions := s.functions } :=
    ⟨read, hrest, hposition, rfl⟩
  obtain ⟨hs', -⟩ := hadvances.onward hs
  exact ⟨hs'.ahead, hs'.bound⟩

end Forward

theorem Advances.disciplined (h : Advances s s')
    (hproblems : s.problems.toList <+: s'.problems.toList) : Disciplined s s' := by
  obtain ⟨read, hrest, hposition, hfunctions⟩ := h
  exact ⟨⟨⟨read, hrest, hposition⟩, hproblems⟩, hfunctions⟩

theorem disciplined_moves : Moves Disciplined GivesUp where
  refl s := ⟨.refl s, rfl⟩
  trans h h' := ⟨h.toForward.trans h'.toForward, h'.functions.trans h.functions⟩
  advance s := by
    refine (advances_moves.advance s).disciplined ?_
    unfold ParseState.advance
    split <;> exact List.prefix_rfl
  record s b := by
    refine (advances_moves.record s b).disciplined ?_
    rw [ParseState.record, Array.toList_push]
    exact List.prefix_append _ _
  resynced s := (advances_moves.resynced s).disciplined List.prefix_rfl
  function s s' h := ⟨⟨h.cursor, h.problems⟩, Nat.sub_eq_of_eq_add h.functions⟩
  fatal := keeps_moves.fatal
  outOfFuel := keeps_moves.outOfFuel
  leave := keeps_moves.leave

/-! ## Ends -/

/-- With 32 units of fuel for each token ahead and some more the reader comes to an end. -/
def Concludes (fuel : Nat) {α : Type} (x : Parse α) : Prop :=
  ∀ s, 32 * s.rest.length + 22 ≤ fuel → ∀ s', x s ≠ .error .outOfFuel s'

variable {α : Type} {fuel : Nat}

theorem Concludes.of_proceeds {k d : Nat} {x : Parse α}
    (h : ∀ n, Proceeds (32 * n + k ≤ fuel) n d x) (hk : k ≤ 22) : Concludes fuel x := by
  intro s hfuel s' hx
  have hproceeded := h s.rest.length s rfl
  rw [hx] at hproceeded
  exact hproceeded (by omega)

theorem concludes_expressions (fuel : Nat) : ReadersAt (Single (Concludes fuel)) fuel :=
  let all := ProceedsAt.all fuel
  { assignment := fun e => .of_proceeds (fun n => all.assignment n e) (by decide)
    chain := fun l => .of_proceeds (fun n => all.chain n l) (by cases l <;> decide)
    chainTail := fun l left => .of_proceeds (fun n => all.chainTail n l left) (by decide)
    operand := fun l =>
      .of_proceeds (k := l.operand.cost + 1) (fun n => all.operand n l) (by cases l <;> decide)
    conditional := .of_proceeds all.conditional (by decide)
    unary := .of_proceeds all.unary (by decide)
    callTail := fun callee => .of_proceeds (fun n => all.callTail n callee) (by decide)
    arguments := fun count => .of_proceeds (fun n => all.arguments n count) (by decide)
    primary := .of_proceeds all.primary (by decide) }

/-- Where no token is ahead, none is taken. -/
theorem Proceeds.skip_any {ample : Prop} (n : Nat) : Proceeds ample n 0 Parse.skip := by
  cases n with
  | zero =>
    intro s hs
    show s.advance.rest.length ≤ 0
    rw [ParseState.advance, List.length_eq_zero_iff.mp hs]
    exact Nat.le_of_eq hs
  | succ n => exact (Proceeds.skip n.succ_pos).weaken (Nat.zero_le 1)

theorem concludes_returnStatement (fuel : Nat) (keyword : Token) :
    Concludes fuel (returnStatement fuel keyword) := by
  refine .of_proceeds (k := 18) (d := 0) (fun n => ?_) (by decide)
  refine .still (fun s => ⟨_, s, rfl, rfl⟩) fun _ => .report fun _ =>
    .bind (.skip_any n) fun _ k hk => ?_
  exact .bind ((proceeds_expressionUnless fuel k _).of_imp fun h => by omega) fun _ _ _ =>
    .onward (.expect _) fun _ _ _ => .pure _

theorem concludes_clauses (fuel : Nat) : ClauseReadersAt (Single (Concludes fuel)) fuel where
  expression := .of_proceeds (proceeds_expression fuel) (by decide)
  parameters count := .of_proceeds (fun n => proceeds_parameters fuel n count) (by decide)
  expressionUnless k := .of_proceeds (fun n => proceeds_expressionUnless fuel n k) (by decide)
  varDeclaration := .of_proceeds (proceeds_varDeclaration fuel) (by decide)
  expressionStatement := .of_proceeds (proceeds_expressionStatement fuel) (by decide)
  printStatement := .of_proceeds (proceeds_printStatement fuel) (by decide)
  returnStatement := concludes_returnStatement fuel
  firstClause := .of_proceeds (proceeds_firstClause fuel) (by decide)

theorem concludes_declaration : ∀ fuel, Concludes fuel (declaration fuel)
  | 0 => fun s hfuel => absurd hfuel (by omega)
  | fuel + 1 => by
    intro s hfuel s' hx
    have hproceeded := (ProceedsStatementsAt.all fuel).unrecovered s.rest.length s rfl
    rw [declaration_succ] at hx
    cases hs : unrecovered fuel s with
    | ok a s₁ =>
      rw [recovering_eq_some.mpr hs] at hx
      cases hx
    | error halt s₁ =>
      cases halt with
      | fatal b =>
        rw [recovering_eq_none.mpr ⟨b, s₁, hs, rfl⟩] at hx
        cases hx
      | outOfFuel =>
        rw [hs] at hproceeded
        exact hproceeded (by omega)

theorem concludes_statements (fuel : Nat) : StatementReadersAt (Single (Concludes fuel)) fuel :=
  let all := ProceedsStatementsAt.all fuel
  { declaration := concludes_declaration fuel
    declarations := fun inBlock => .of_proceeds (fun n => all.declarations n inBlock) (by decide)
    block := .of_proceeds all.block (by decide)
    functionDeclaration := .of_proceeds all.functionDeclaration (by decide)
    statement := .of_proceeds all.statement (by decide)
    forStatement := .of_proceeds all.forStatement (by decide)
    ifStatement := .of_proceeds all.ifStatement (by decide)
    whileStatement := .of_proceeds all.whileStatement (by decide) }

/-- Every reader comes to an end, with success or at a token with which it cannot go on. -/
theorem everyReader_concludes (fuel : Nat) : EveryReaderAt (Single (Concludes fuel)) fuel where
  expressions := concludes_expressions fuel
  clauses := concludes_clauses fuel
  statements := concludes_statements fuel

end Treewalk
