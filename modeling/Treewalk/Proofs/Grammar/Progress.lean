import Treewalk.Proofs.Grammar.Completeness
import Treewalk.Proofs.Grammar.Soundness

/-!
# Reading moves on

A reader never goes back, a construct that is read takes at least one token, and so does
the recovery from a malformed declaration. Between two tokens readers call each other
only a bounded number of times, so the fuel that grows with the number of tokens always
suffices.

Results:

* `ProceedsAt.all`, `ProceedsStatementsAt.all`: all readers move on, and end if their fuel
  is ample.
* `readProgram_ends`: a program is read to its end, whatever its tokens are.
-/
namespace Treewalk

open Grammar Parse

variable {α β : Type} {ample : Prop} {n d e : Nat}

/-- At least `d` of `n` tokens were taken with success, none came back without, and with
`ample` fuel there is a result or a fatal problem. -/
def Proceeded (ample : Prop) (n d : Nat) : EStateM.Result Halt ParseState α → Prop
  | .ok _ s => s.rest.length + d ≤ n
  | .error (.fatal _) s => s.rest.length ≤ n
  | .error .outOfFuel _ => ¬ ample

/-- Tokens that were taken before count as well. -/
theorem Proceeded.mono {ample' : Prop} {k : Nat} {r : EStateM.Result Halt ParseState α}
    (h : Proceeded ample' k e r) (himp : ample → ample') (hk : k ≤ n) (hd : k + d ≤ n + e) :
    Proceeded ample n d r := by
  cases r with
  | ok a s =>
    have h : s.rest.length + e ≤ k := h
    show s.rest.length + d ≤ n
    omega
  | error halt s =>
    cases halt with
    | fatal b => exact Nat.le_trans h hk
    | outOfFuel => exact fun ha => h (himp ha)

/-- Where `n` tokens are ahead the reader takes at least `d` of them. -/
def Proceeds (ample : Prop) (n d : Nat) (x : Parse α) : Prop :=
  ∀ s, s.rest.length = n → Proceeded ample n d (x s)

namespace Proceeds

theorem of_imp {ample' : Prop} {x : Parse α} (h : Proceeds ample' n d x) (himp : ample → ample') :
    Proceeds ample n d x :=
  fun s hs => (h s hs).mono himp (Nat.le_refl n) (Nat.le_refl _)

theorem weaken {x : Parse α} (h : Proceeds ample n d x) (hd : e ≤ d) : Proceeds ample n e x :=
  fun s hs => (h s hs).mono id (Nat.le_refl n) (Nat.add_le_add_left hd n)

/-- One reader after another takes what both take. -/
theorem sequence {x : Parse α} {f : α → Parse β} (hx : Proceeds ample n d x)
    (hf : ∀ a k, k + d ≤ n → Proceeds ample k e (f a)) : Proceeds ample n (d + e) (x >>= f) := by
  intro s hs
  have h := hx s hs
  cases hr : x s with
  | error halt s' =>
    rw [hr] at h
    rw [bind_of_error hr]
    cases halt <;> exact h
  | ok a s' =>
    rw [hr] at h
    have h : s'.rest.length + d ≤ n := h
    rw [bind_of_ok hr]
    exact (hf a s'.rest.length h s' rfl).mono id (by omega) (by omega)

/-- What comes next takes at least none. -/
theorem bind {x : Parse α} {f : α → Parse β} (hx : Proceeds ample n d x)
    (hf : ∀ a k, k + d ≤ n → Proceeds ample k 0 (f a)) : Proceeds ample n d (x >>= f) :=
  hx.sequence hf

/-- The same, where nothing has to be taken. -/
theorem onward {x : Parse α} {f : α → Parse β} (hx : Proceeds ample n d x)
    (hf : ∀ a k, k + d ≤ n → Proceeds ample k 0 (f a)) : Proceeds ample n 0 (x >>= f) :=
  (hx.bind hf).weaken (Nat.zero_le d)

/-- What comes next takes some. -/
theorem andThen {x : Parse α} {f : α → Parse β} (hx : Proceeds ample n 0 x)
    (hf : ∀ a k, k ≤ n → Proceeds ample k d (f a)) : Proceeds ample n d (x >>= f) :=
  (hx.sequence hf).weaken (Nat.le_add_left d 0)

/-! ## Steps -/

theorem pure (a : α) : Proceeds ample n 0 (Pure.pure a : Parse α) := by
  rintro s rfl
  exact Nat.le_refl _

theorem outOfFuel (h : ¬ ample) : Proceeds ample n d (Parse.outOfFuel : Parse α) :=
  fun _ _ => h

theorem fail (p : Problem) : Proceeds ample n d (Parse.fail p : Parse α) := by
  rintro s rfl
  exact Nat.le_refl _

/-- A step that leaves the tokens as they are. -/
theorem still {x : Parse α} {f : α → Parse β}
    (h : ∀ s, ∃ a s', x s = .ok a s' ∧ s'.rest = s.rest) (hf : ∀ a, Proceeds ample n d (f a)) :
    Proceeds ample n d (x >>= f) := by
  intro s hs
  obtain ⟨a, s', hx, hrest⟩ := h s
  rw [bind_of_ok hx]
  exact hf a s' (by rw [hrest]; exact hs)

theorem report {c : Bool} {p : Problem} {f : Unit → Parse β}
    (hf : ∀ a, Proceeds ample n d (f a)) : Proceeds ample n d (Parse.reportIf c p >>= f) :=
  still (fun s => ⟨(), _, rfl, by cases c <;> rfl⟩) hf

theorem peek {f : Option Token → Parse β} (hnone : Proceeds ample 0 d (f none))
    (hsome : ∀ t, 0 < n → Proceeds ample n d (f (some t))) : Proceeds ample n d (peek? >>= f) := by
  intro s hs
  rw [bind_of_ok (show peek? s = .ok s.rest.head? s from rfl)]
  cases hrest : s.rest with
  | nil =>
    rw [hrest] at hs
    cases hs
    exact hnone s (by rw [hrest]; rfl)
  | cons t ts =>
    have hn : 0 < n := by
      rw [← hs, hrest]
      exact Nat.succ_pos _
    exact hsome t hn s hs

theorem check {k : Kind} {f : Bool → Parse β} (hfalse : Proceeds ample n d (f false))
    (htrue : 0 < n → Proceeds ample n d (f true)) : Proceeds ample n d (Parse.check k >>= f) := by
  intro s hs
  rw [bind_of_ok (check_apply s k)]
  cases hrest : s.rest with
  | nil => exact hfalse s hs
  | cons t ts =>
    have hn : 0 < n := by
      rw [← hs, hrest]
      exact Nat.succ_pos _
    cases (t :: ts).head?.any (·.kind = k) with
    | false => exact hfalse s hs
    | true => exact htrue hn s hs

theorem skip (hn : 0 < n) : Proceeds ample n 1 Parse.skip := by
  intro s hs
  rw [skip_apply, ParseState.advance]
  cases hrest : s.rest with
  | nil =>
    rw [hrest] at hs
    cases hs
    cases hn
  | cons t ts =>
    rw [hrest] at hs
    exact Nat.le_of_eq hs

theorem expect (what : Missing) : Proceeds ample n 1 (Parse.expect what) := by
  intro s hs
  rw [expect_apply]
  cases hrest : s.rest with
  | nil => exact Nat.le_of_eq hs
  | cons t ts =>
    dsimp only
    split
    · unfold ParseState.advance
      rw [hrest] at hs ⊢
      exact Nat.le_of_eq hs
    · exact Nat.le_of_eq hs

/-- A token that is there only sometimes, with what comes next in either case. -/
theorem accept {p : Kind → Bool} {f : Option Token → Parse β} (hd : d ≤ 1)
    (hnone : Proceeds ample n d (f none))
    (hsome : ∀ t k, k + 1 ≤ n → Proceeds ample k 0 (f (some t))) :
    Proceeds ample n d (accept? p >>= f) := by
  intro s hs
  cases hrest : s.rest with
  | nil =>
    rw [bind_of_ok (show accept? p s = .ok none s by simp [accept?_apply, hrest])]
    exact hnone s hs
  | cons t ts =>
    by_cases hp : p t.kind = true
    · have htake : accept? p s = .ok (some t) s.advance := by simp [accept?_apply, hrest, hp]
      have hadvance : s.advance.rest.length + 1 = n := by
        rw [← hs, ParseState.advance, hrest]
        rfl
      rw [bind_of_ok htake]
      exact (hsome t _ (Nat.le_of_eq hadvance) s.advance rfl).mono id (by omega) (by omega)
    · rw [bind_of_ok (show accept? p s = .ok none s by simp [accept?_apply, hrest, hp])]
      exact hnone s hs

theorem enterFunction {x : Parse α} (hx : Proceeds ample n d x) :
    Proceeds ample n d (Parse.enterFunction x) := by
  intro s hs
  have h := hx { s with functions := s.functions + 1 } hs
  cases hr : x { s with functions := s.functions + 1 } with
  | ok a s' =>
    rw [hr] at h
    rw [enterFunction_of_ok hr]
    exact h
  | error halt s' =>
    rw [hr] at h
    rw [enterFunction_of_error hr]
    cases halt <;> exact h

end Proceeds

/-- Skipping to a statement boundary takes at least one token, if there is one. -/
theorem resync_length : ∀ ts : List Token, (resync ts).2.length ≤ ts.length - 1
  | [] => Nat.le_refl _
  | [_] => Nat.le_refl _
  | t :: u :: rest => by
    unfold resync
    split
    · simp
    · have := resync_length (u :: rest)
      simp only [List.length_cons] at this ⊢
      omega

theorem Proceeds.recovering {x : Parse α} (hn : 0 < n) (hx : Proceeds ample n 1 x) :
    Proceeds ample n 1 (Parse.recovering x) := by
  intro s hs
  have h := hx s hs
  rw [recovering_apply]
  cases hr : x s with
  | ok a s' =>
    rw [hr] at h
    exact h
  | error halt s' =>
    rw [hr] at h
    cases halt with
    | fatal b =>
      have h : s'.rest.length ≤ n := h
      have := resync_length s'.rest
      show (resync s'.rest).2.length + 1 ≤ n
      omega
    | outOfFuel => exact h

/-! ## Expressions -/

/-- Readers of expressions move on, and end if they have 32 units of fuel for each token
and some more. -/
structure ProceedsAt (fuel : Nat) : Prop where
  assignment : ∀ n e, Proceeds (32 * n + 18 ≤ fuel) n 1 (assignment fuel e)
  chain : ∀ n l, Proceeds (32 * n + (Rule.chain l).cost ≤ fuel) n 1 (chain fuel l)
  chainTail : ∀ n l left, Proceeds (32 * n + 1 ≤ fuel) n 0 (chainTail fuel l left)
  operand : ∀ n l, Proceeds (32 * n + l.operand.cost + 1 ≤ fuel) n 1 (operand fuel l)
  conditional : ∀ n, Proceeds (32 * n + 15 ≤ fuel) n 1 (conditional fuel)
  unary : ∀ n, Proceeds (32 * n + 2 ≤ fuel) n 1 (unary fuel)
  callTail : ∀ n callee, Proceeds (32 * n + 1 ≤ fuel) n 0 (callTail fuel callee)
  arguments : ∀ n count, Proceeds (32 * n + 19 ≤ fuel) n 1 (arguments fuel count)
  primary : ∀ n, Proceeds (32 * n + 1 ≤ fuel) n 1 (primary fuel)

namespace ProceedsAt

variable {fuel : Nat}

theorem zero : ProceedsAt 0 where
  assignment _ _ := .outOfFuel (by omega)
  chain _ l := .outOfFuel (by cases l <;> simp [Rule.cost])
  chainTail _ _ _ := .outOfFuel (by omega)
  operand _ _ := .outOfFuel (by omega)
  conditional _ := .outOfFuel (by omega)
  unary _ := .outOfFuel (by omega)
  callTail _ _ := .outOfFuel (by omega)
  arguments _ _ := .outOfFuel (by omega)
  primary _ := .outOfFuel (by omega)

theorem assignment_succ (ih : ProceedsAt fuel) (n : Nat) (e : Extent) :
    Proceeds (32 * n + 18 ≤ fuel + 1) n 1 (Parse.assignment (fuel + 1) e) := by
  have htarget : Proceeds (32 * n + 18 ≤ fuel + 1) n 1 (e.target.read fuel) := by
    cases e with
    | full => exact (ih.chain n .series).of_imp fun h => by simp only [Rule.cost]; omega
    | argument => exact (ih.conditional n).of_imp fun h => by omega
  rw [Treewalk.assignment_succ]
  refine .bind htarget fun target k hk => .check (.pure _) fun hpos => ?_
  refine .still (fun s => ⟨_, s, rfl, rfl⟩) fun b => .onward (.skip hpos) fun _ j hj => ?_
  refine .onward ((ih.assignment j e).of_imp fun h => by omega) fun value i hi => ?_
  split
  · exact .pure _
  · exact .still (fun s => ⟨(), s.record b, rfl, rfl⟩) fun _ => .pure _

theorem chain_succ (ih : ProceedsAt fuel) (n : Nat) (l : Level) :
    Proceeds (32 * n + (Rule.chain l).cost ≤ fuel + 1) n 1 (Parse.chain (fuel + 1) l) := by
  have := cost_operand l
  exact .bind ((ih.operand n l).of_imp fun h => by omega) fun left k hk =>
    (ih.chainTail k l left).of_imp fun h => by omega

theorem chainTail_succ (ih : ProceedsAt fuel) (n : Nat) (l : Level) (left : Expr) :
    Proceeds (32 * n + 1 ≤ fuel + 1) n 0 (Parse.chainTail (fuel + 1) l left) := by
  have := cost_operand_le l
  refine .accept (Nat.zero_le 1) (.pure _) fun t k hk => ?_
  exact .onward ((ih.operand k l).of_imp fun h => by omega) fun right j hj =>
    (ih.chainTail j l _).of_imp fun h => by omega

theorem operand_succ (ih : ProceedsAt fuel) (n : Nat) (l : Level) :
    Proceeds (32 * n + l.operand.cost + 1 ≤ fuel + 1) n 1 (Parse.operand (fuel + 1) l) := by
  cases l with
  | series => exact (ih.conditional n).of_imp Nat.le_of_succ_le_succ
  | factor => exact (ih.unary n).of_imp Nat.le_of_succ_le_succ
  | _ => exact (ih.chain n _).of_imp Nat.le_of_succ_le_succ

theorem conditional_succ (ih : ProceedsAt fuel) (n : Nat) :
    Proceeds (32 * n + 15 ≤ fuel + 1) n 1 (Parse.conditional (fuel + 1)) := by
  refine .bind ((ih.chain n .disjunction).of_imp fun h => by simp only [Rule.cost]; omega)
    fun c k hk => .accept (Nat.zero_le 1) (.pure _) fun t j hj => ?_
  refine .onward ((ih.assignment j .full).of_imp fun h => by omega) fun a i hi => ?_
  refine .onward (.expect _) fun _ i' hi' => ?_
  exact .onward ((ih.conditional i').of_imp fun h => by omega) fun _ _ _ => .pure _

theorem unary_succ (ih : ProceedsAt fuel) (n : Nat) :
    Proceeds (32 * n + 2 ≤ fuel + 1) n 1 (Parse.unary (fuel + 1)) := by
  refine .accept (Nat.le_refl 1) ?_ fun t k hk => ?_
  · exact .bind ((ih.primary n).of_imp fun h => by omega) fun callee k hk =>
      (ih.callTail k callee).of_imp fun h => by omega
  · exact .onward ((ih.unary k).of_imp fun h => by omega) fun _ _ _ => .pure _

theorem callTail_succ (ih : ProceedsAt fuel) (n : Nat) (callee : Expr) :
    Proceeds (32 * n + 1 ≤ fuel + 1) n 0 (Parse.callTail (fuel + 1) callee) := by
  refine .accept (Nat.zero_le 1) (.pure _) fun t k hk => ?_
  have hclose : ∀ args j, j ≤ k → Proceeds (32 * n + 1 ≤ fuel + 1) j 0 (do
      let paren ← expect .parenAfterArguments
      Parse.callTail fuel (.call callee paren args)) := fun args j hj =>
    .onward (.expect _) fun _ i hi => (ih.callTail i _).of_imp fun h => by omega
  refine .check ?_ fun _ => .bind (.pure []) fun args j hj => hclose args j hj
  exact .onward ((ih.arguments k 0).of_imp fun h => by omega) fun args j hj =>
    hclose args j (by omega)

theorem arguments_succ (ih : ProceedsAt fuel) (n count : Nat) :
    Proceeds (32 * n + 19 ≤ fuel + 1) n 1 (Parse.arguments (fuel + 1) count) := by
  refine .report fun _ => .bind ((ih.assignment n .argument).of_imp fun h => by omega)
    fun first k hk => .accept (Nat.zero_le 1) (.pure _) fun t j hj => ?_
  exact .onward ((ih.arguments j _).of_imp fun h => by omega) fun _ _ _ => .pure _

theorem primary_succ (ih : ProceedsAt fuel) (n : Nat) :
    Proceeds (32 * n + 1 ≤ fuel + 1) n 1 (Parse.primary (fuel + 1)) := by
  refine .peek (.fail _) fun t hn => ?_
  show Proceeds _ n 1 (if t.kind = .leftParen then _ else _)
  split
  · refine .bind (.skip hn) fun _ k hk => ?_
    refine .onward ((ih.assignment k .full).of_imp fun h => by omega) fun e j hj => ?_
    exact .onward (.expect _) fun _ _ _ => .pure _
  · split
    · exact .fail _
    · exact .bind (.skip hn) fun _ _ _ => .pure _

theorem all : ∀ fuel, ProceedsAt fuel
  | 0 => zero
  | fuel + 1 =>
    let ih := all fuel
    ⟨ih.assignment_succ, ih.chain_succ, ih.chainTail_succ, ih.operand_succ, ih.conditional_succ,
      ih.unary_succ, ih.callTail_succ, ih.arguments_succ, ih.primary_succ⟩

end ProceedsAt

/-! ## Statements -/

section Statements

theorem proceeds_expression (fuel n : Nat) :
    Proceeds (32 * n + 18 ≤ fuel) n 1 (expression fuel) := (ProceedsAt.all fuel).assignment n .full

theorem proceeds_parameters : ∀ fuel n count,
    Proceeds (32 * n + 1 ≤ fuel) n 1 (parameters fuel count)
  | 0, _, _ => .outOfFuel (by omega)
  | fuel + 1, n, count => by
    refine .report fun _ => .bind (.expect _) fun first k hk =>
      .accept (Nat.zero_le 1) (.pure _) fun t j hj => ?_
    exact .onward ((proceeds_parameters fuel j _).of_imp fun h => by omega) fun _ _ _ => .pure _

theorem proceeds_expressionUnless (fuel n : Nat) (k : Kind) :
    Proceeds (32 * n + 18 ≤ fuel) n 0 (expressionUnless fuel k) :=
  .check (.onward (proceeds_expression fuel n) fun _ _ _ => .pure _) fun _ => .pure _

theorem proceeds_varDeclaration (fuel n : Nat) :
    Proceeds (32 * n + 18 ≤ fuel) n 1 (varDeclaration fuel) := by
  refine .bind (.expect _) fun name k hk => .accept (Nat.zero_le 1) ?_ fun t j hj => ?_
  · exact .onward (.pure none) fun _ _ _ => .onward (.expect _) fun _ _ _ => .pure _
  · refine .onward ((proceeds_expression fuel j).of_imp fun h => by omega) fun e _ _ => ?_
    exact .onward (.pure (some e)) fun _ _ _ => .onward (.expect _) fun _ _ _ => .pure _

theorem proceeds_expressionStatement (fuel n : Nat) :
    Proceeds (32 * n + 18 ≤ fuel) n 1 (expressionStatement fuel) :=
  .bind (proceeds_expression fuel n) fun _ _ _ => .onward (.expect _) fun _ _ _ => .pure _

theorem proceeds_printStatement (fuel n : Nat) :
    Proceeds (32 * n + 18 ≤ fuel) n 1 (printStatement fuel) :=
  .bind (proceeds_expression fuel n) fun _ _ _ => .onward (.expect _) fun _ _ _ => .pure _

theorem proceeds_returnStatement (fuel : Nat) {n : Nat} (hn : 0 < n) (keyword : Token) :
    Proceeds (32 * n + 18 ≤ fuel) n 1 (returnStatement fuel keyword) := by
  refine .still (fun s => ⟨_, s, rfl, rfl⟩) fun _ => .report fun _ => .bind (.skip hn)
    fun _ k hk => ?_
  exact .onward ((proceeds_expressionUnless fuel k _).of_imp fun h => by omega) fun _ _ _ =>
    .onward (.expect _) fun _ _ _ => .pure _

theorem proceeds_firstClause (fuel n : Nat) :
    Proceeds (32 * n + 18 ≤ fuel) n 1 (firstClause fuel) := by
  refine .accept (Nat.le_refl 1) ?_ fun t k hk => ?_
  · exact .bind (proceeds_expressionStatement fuel n) fun _ _ _ => .pure _
  · show Proceeds _ k 0 (if t.kind = .semicolon then _ else _)
    split
    · exact .pure _
    · exact .onward ((proceeds_varDeclaration fuel k).of_imp fun h => by omega)
        fun _ _ _ => .pure _

end Statements

/-- Readers of statements move on, and end if they have 32 units of fuel for each token
and some more. -/
structure ProceedsStatementsAt (fuel : Nat) : Prop where
  declaration : ∀ n, 0 < n → Proceeds (32 * n + 20 ≤ fuel) n 1 (declaration fuel)
  declarations : ∀ n inBlock, Proceeds (32 * n + 21 ≤ fuel) n 0 (declarations fuel inBlock)
  block : ∀ n, Proceeds (32 * n + 22 ≤ fuel) n 1 (block fuel)
  functionDeclaration : ∀ n, Proceeds (32 * n + 1 ≤ fuel) n 1 (functionDeclaration fuel)
  statement : ∀ n, Proceeds (32 * n + 19 ≤ fuel) n 1 (statement fuel)
  forStatement : ∀ n, Proceeds (32 * n + 1 ≤ fuel) n 1 (forStatement fuel)
  ifStatement : ∀ n, Proceeds (32 * n + 1 ≤ fuel) n 1 (ifStatement fuel)
  whileStatement : ∀ n, Proceeds (32 * n + 1 ≤ fuel) n 1 (whileStatement fuel)

namespace ProceedsStatementsAt

variable {fuel : Nat}

theorem zero : ProceedsStatementsAt 0 where
  declaration _ _ := .outOfFuel (by omega)
  declarations _ _ := .outOfFuel (by omega)
  block _ := .outOfFuel (by omega)
  functionDeclaration _ := .outOfFuel (by omega)
  statement _ := .outOfFuel (by omega)
  forStatement _ := .outOfFuel (by omega)
  ifStatement _ := .outOfFuel (by omega)
  whileStatement _ := .outOfFuel (by omega)

theorem unrecovered (ih : ProceedsStatementsAt fuel) (n : Nat) :
    Proceeds (32 * n + 20 ≤ fuel + 1) n 1 (Parse.unrecovered fuel) := by
  refine .accept (Nat.le_refl 1) ?_ fun t k hk => ?_
  · exact (ih.statement n).of_imp fun h => by omega
  · show Proceeds _ k 0 (if t.kind = .funKw then _ else _)
    split
    · exact ((ih.functionDeclaration k).of_imp fun h => by omega).weaken (Nat.zero_le 1)
    · exact ((proceeds_varDeclaration fuel k).of_imp fun h => by omega).weaken (Nat.zero_le 1)

theorem declaration_succ (ih : ProceedsStatementsAt fuel) (n : Nat) (hn : 0 < n) :
    Proceeds (32 * n + 20 ≤ fuel + 1) n 1 (Parse.declaration (fuel + 1)) :=
  .recovering hn (ih.unrecovered n)

theorem declarations_succ (ih : ProceedsStatementsAt fuel) (n : Nat) (inBlock : Bool) :
    Proceeds (32 * n + 21 ≤ fuel + 1) n 0 (Parse.declarations (fuel + 1) inBlock) := by
  refine .peek (.pure _) fun t hn => ?_
  show Proceeds _ n 0 (if inBlock && t.kind = .rightBrace then _ else _)
  split
  · exact .pure _
  · refine .onward ((ih.declaration n hn).of_imp fun h => by omega) fun first k hk => ?_
    exact .onward ((ih.declarations k _).of_imp fun h => by omega) fun _ _ _ => .pure _

theorem block_succ (ih : ProceedsStatementsAt fuel) (n : Nat) :
    Proceeds (32 * n + 22 ≤ fuel + 1) n 1 (Parse.block (fuel + 1)) :=
  .andThen ((ih.declarations n true).of_imp fun h => by omega) fun _ _ _ =>
    .bind (.expect _) fun _ _ _ => .pure _

theorem functionDeclaration_succ (ih : ProceedsStatementsAt fuel) (n : Nat) :
    Proceeds (32 * n + 1 ≤ fuel + 1) n 1 (Parse.functionDeclaration (fuel + 1)) := by
  refine .bind (.expect _) fun name k hk => .onward (.expect _) fun _ j hj => ?_
  have hbody : ∀ params i, i ≤ j → Proceeds (32 * n + 1 ≤ fuel + 1) i 0 (do
      let _ ← expect .parenAfterParameters
      let _ ← expect .braceBeforeBody
      let body ← enterFunction (Parse.block fuel)
      return .function name params body : Parse Stmt) := by
    intro params i hi
    refine .onward (.expect _) fun _ i' hi' => .onward (.expect _) fun _ i'' hi'' => ?_
    exact .onward (.enterFunction ((ih.block i'').of_imp fun h => by omega)) fun _ _ _ => .pure _
  refine .check ?_ fun _ => .onward (.pure []) fun params i hi => hbody params i hi
  exact .onward ((proceeds_parameters fuel j 0).of_imp fun h => by omega) fun params i hi =>
    hbody params i (by omega)

theorem statement_succ (ih : ProceedsStatementsAt fuel) (n : Nat) :
    Proceeds (32 * n + 19 ≤ fuel + 1) n 1 (Parse.statement (fuel + 1)) := by
  have hexpression : ∀ k, k ≤ n →
      Proceeds (32 * n + 19 ≤ fuel + 1) k 1 (expressionStatement fuel) :=
    fun k hk => (proceeds_expressionStatement fuel k).of_imp fun h => by omega
  refine .peek (hexpression 0 (Nat.zero_le n)) fun t hn => ?_
  dsimp only
  split
  · exact .bind (.skip hn) fun _ k hk =>
      ((ih.forStatement k).of_imp fun h => by omega).weaken (Nat.zero_le 1)
  · exact .bind (.skip hn) fun _ k hk =>
      ((ih.ifStatement k).of_imp fun h => by omega).weaken (Nat.zero_le 1)
  · exact .bind (.skip hn) fun _ k hk =>
      ((proceeds_printStatement fuel k).of_imp fun h => by omega).weaken (Nat.zero_le 1)
  · exact (proceeds_returnStatement fuel hn t).of_imp fun h => by omega
  · exact .bind (.skip hn) fun _ k hk =>
      ((ih.whileStatement k).of_imp fun h => by omega).weaken (Nat.zero_le 1)
  · exact .bind (.skip hn) fun _ k hk =>
      .onward ((ih.block k).of_imp fun h => by omega) fun _ _ _ => .pure _
  · exact hexpression n (Nat.le_refl n)

theorem forStatement_succ (ih : ProceedsStatementsAt fuel) (n : Nat) :
    Proceeds (32 * n + 1 ≤ fuel + 1) n 1 (Parse.forStatement (fuel + 1)) := by
  refine .bind (.expect _) fun _ k hk => ?_
  refine .onward ((proceeds_firstClause fuel k).of_imp fun h => by omega) fun first k₁ h₁ => ?_
  refine .onward ((proceeds_expressionUnless fuel k₁ _).of_imp fun h => by omega)
    fun condition k₂ h₂ => .onward (.expect _) fun _ k₃ h₃ => ?_
  refine .onward ((proceeds_expressionUnless fuel k₃ _).of_imp fun h => by omega)
    fun last k₄ h₄ => .onward (.expect _) fun _ k₅ h₅ => ?_
  exact .onward ((ih.statement k₅).of_imp fun h => by omega) fun _ _ _ => .pure _

theorem ifStatement_succ (ih : ProceedsStatementsAt fuel) (n : Nat) :
    Proceeds (32 * n + 1 ≤ fuel + 1) n 1 (Parse.ifStatement (fuel + 1)) := by
  refine .bind (.expect _) fun _ k hk => ?_
  refine .onward ((proceeds_expression fuel k).of_imp fun h => by omega) fun condition k₁ h₁ =>
    .onward (.expect _) fun _ k₂ h₂ => ?_
  refine .onward ((ih.statement k₂).of_imp fun h => by omega) fun whenTrue k₃ h₃ =>
    .accept (Nat.zero_le 1) (.pure _) fun _ k₄ h₄ => ?_
  exact .onward ((ih.statement k₄).of_imp fun h => by omega) fun _ _ _ => .pure _

theorem whileStatement_succ (ih : ProceedsStatementsAt fuel) (n : Nat) :
    Proceeds (32 * n + 1 ≤ fuel + 1) n 1 (Parse.whileStatement (fuel + 1)) := by
  refine .bind (.expect _) fun _ k hk => ?_
  refine .onward ((proceeds_expression fuel k).of_imp fun h => by omega) fun condition k₁ h₁ =>
    .onward (.expect _) fun _ k₂ h₂ => ?_
  exact .onward ((ih.statement k₂).of_imp fun h => by omega) fun _ _ _ => .pure _

theorem all : ∀ fuel, ProceedsStatementsAt fuel
  | 0 => zero
  | fuel + 1 =>
    let ih := all fuel
    ⟨ih.declaration_succ, ih.declarations_succ, ih.block_succ, ih.functionDeclaration_succ,
      ih.statement_succ, ih.forStatement_succ, ih.ifStatement_succ, ih.whileStatement_succ⟩

end ProceedsStatementsAt

/-! ## Programs -/

/-- The reader never gives up. -/
def Recovers (x : Parse α) : Prop := ∀ s b s', x s ≠ .error (.fatal b) s'

theorem recovers_bind {x : Parse α} {f : α → Parse β} (hx : Recovers x)
    (hf : ∀ a, Recovers (f a)) : Recovers (x >>= f) := by
  intro s b s' h
  cases hr : x s with
  | ok a s₁ =>
    rw [bind_of_ok hr] at h
    exact hf a s₁ b s' h
  | error halt s₁ =>
    rw [bind_of_error hr] at h
    cases h
    exact hx s b s' hr

theorem recovers_pure (a : α) : Recovers (pure a : Parse α) := by
  intro s b s' h
  cases h

theorem recovers_outOfFuel : Recovers (outOfFuel : Parse α) := by
  intro s b s' h
  cases h

theorem recovers_peek : Recovers peek? := by
  intro s b s' h
  cases h

theorem recovers_recovering (x : Parse α) : Recovers (recovering x) := by
  intro s b s' h
  rw [recovering_apply] at h
  split at h <;> cases h

/-- Declarations recover from all fatal problems. -/
theorem recovers_declarations (inBlock : Bool) : ∀ fuel, Recovers (declarations fuel inBlock)
  | 0 => recovers_outOfFuel
  | fuel + 1 => by
    refine recovers_bind recovers_peek fun r => ?_
    cases r with
    | none => exact recovers_pure _
    | some t =>
      show Recovers (if inBlock && t.kind = .rightBrace then _ else _)
      split
      · exact recovers_pure _
      · have hfirst : Recovers (declaration fuel) := by
          cases fuel with
          | zero => exact recovers_outOfFuel
          | succ fuel => exact recovers_recovering _
        exact recovers_bind hfirst fun _ =>
          recovers_bind (recovers_declarations inBlock fuel) fun _ => recovers_pure _

/-- A program is read to its end, whatever its tokens are. -/
theorem readProgram_ends (tokens : List Token) :
    ∃ p s, readProgram tokens = .ok p s ∧ s.rest = [] := by
  have hends := (ProceedsStatementsAt.all (Parse.fuel tokens.length)).declarations tokens.length
    false (.initial tokens) rfl
  change Proceeded _ _ _ (readProgram tokens) at hends
  cases hread : readProgram tokens with
  | ok p s => exact ⟨p, s, rfl, declarations_rest hread⟩
  | error halt s =>
    rw [hread] at hends
    cases halt with
    | fatal b => exact (recovers_declarations false _ _ b s hread).elim
    | outOfFuel =>
      refine (hends ?_).elim
      unfold Parse.fuel
      omega

end Treewalk
