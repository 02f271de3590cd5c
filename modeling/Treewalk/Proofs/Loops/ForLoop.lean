import Treewalk.Proofs.Fuel
import Treewalk.Proofs.Grammar.Regular
import Treewalk.Proofs.Loops.Simulation

/-!
# What a `for` loop does

A `for` loop is built from a `while` loop and blocks, so each round with a last step opens
a scope that the loop itself has no use for. `runFor` says what the loop does without such
scopes: run the first step in a scope of its own, then go round.

Results:

* `follows_rounds`: the `while` loop goes the same rounds.
* `follows_forLoop`: the statement that is built does what the loop as it is written does, up
  to such scopes.
-/
namespace Treewalk

/-! ## The loop as it is written -/

/-- What decides whether there is another round; a missing condition is true. -/
def forCondition (cfg : Setting) (fuel : Nat) : Option Expr → Eval Value
  | none => pure (.bool true)
  | some e => evaluate cfg fuel e

/-- One round: the body, and then the last step unless the body returns. -/
def forRound (cfg : Setting) (fuel : Nat) (last : Option Expr) (body : Stmt) : Eval Flow := do
  match ← execute cfg fuel body with
  | .returned v => pure (.returned v)
  | .normal =>
    match last with
    | none => pure .normal
    | some e =>
      let _ ← evaluate cfg fuel e
      pure .normal

/-- Rounds as long as the condition holds and the body does not return. -/
def forRounds (cfg : Setting) : Nat → Option Expr → Option Expr → Stmt → Eval Flow
  | 0, _, _, _ => Eval.outOfFuel
  | fuel + 1, condition, last, body => do
    let c ← forCondition cfg fuel condition
    if c.truthy then
      match ← forRound cfg fuel last body with
      | .returned v => pure (.returned v)
      | .normal => forRounds cfg fuel condition last body
    else pure .normal

/-- A loop: only a first step opens a scope, in which the whole loop then runs. -/
def runFor (cfg : Setting) (fuel : Nat) (first : Option Stmt) (condition last : Option Expr)
    (body : Stmt) : Eval Flow :=
  match first with
  | none => forRounds cfg fuel condition last body
  | some s => do
    let outer ← Eval.scope
    let id ← Eval.enclose outer []
    Eval.inScope id do
      match ← execute cfg fuel s with
      | .returned v => pure (.returned v)
      | .normal => forRounds cfg fuel condition last body

/-! ## Two runs with different fuel -/

/-- Which of two runs may have run out of fuel, the one of the statement that was built or
the one of the loop as it is written. -/
inductive Side where
  | built
  | written

section Follows

variable {α β : Type}

def Spent (r : EStateM.Result Stop Machine α) : Prop := ending r = .error .outOfFuel

instance : (r : EStateM.Result Stop Machine α) → Decidable (Spent r)
  | .error .outOfFuel _ => isTrue rfl
  | .ok _ _ | .error (.error _) _ | .error (.malformed _) _ => isFalse fun h => by cases h

def Side.Spent : Side → EStateM.Result Stop Machine α → EStateM.Result Stop Machine α → Prop
  | built, r, _ => Treewalk.Spent r
  | written, _, r' => Treewalk.Spent r'

/-- The other run has enough fuel for all that the run on this side can do, with `k` to
build statements. -/
def Side.Enough (k : Nat) : Side → Nat → Nat → Prop
  | built, a, b => a ≤ b
  | written, a, b => b + k ≤ a

/-- A computation that runs out of fuel has no next step. -/
theorem spent_bind {x : Eval α} {k : α → Eval β} {m : Machine} (h : Spent (x m)) :
    Spent ((x >>= k) m) := by
  cases hr : x m with
  | ok a m₁ =>
    rw [hr] at h
    cases h
  | error e m₁ =>
    rw [hr] at h
    rw [bind_of_error hr]
    cases h
    rfl

theorem Side.spent_bind {side : Side} {x y : Eval α} {k k' : α → Eval β} {m m' : Machine}
    (h : side.Spent (x m) (y m')) : side.Spent ((x >>= k) m) ((y >>= k') m') := by
  cases side <;> exact Treewalk.spent_bind h

variable [Holds α] [Holds β] {side : Side} {spare : ScopeId → Bool} {kept : Bool}
  {vs : List Value}

open Holds

/-- The second computation does on the second machine what the first one does on the first,
unless the run on the given side runs out of fuel; the first one may open scopes to spare. If
`kept` holds, it does not run in such a scope itself. -/
def Follows (side : Side) (spare : ScopeId → Bool) (kept : Bool) (vs : List Value)
    (x y : Eval α) : Prop :=
  ∀ m m', Padded spare m m' → (kept = true → spare m.scope = false) →
    (∀ v ∈ vs, v.Fits spare m.store.scopes.size) →
    side.Spent (x m) (y m') ∨ ∃ spare₁ : ScopeId → Bool,
      (∀ k : Nat, k < m.store.scopes.size → spare₁ k = spare k) ∧ Matched spare₁ m m' (x m) (y m')

theorem follows_of_sim {x y : Eval α}
    (h : ∀ i, (kept = true → spare i = false) → Sim spare i vs x y) :
    Follows side spare kept vs x y :=
  fun m m' hm hkept hvs => .inr ⟨spare, fun _ _ => rfl, h m.scope hkept m m' hm rfl hvs⟩

theorem follows_bind {x y : Eval α} {k k' : α → Eval β} (hx : Follows side spare kept vs x y)
    (hk : ∀ spare₁ a, Follows side spare₁ kept (values a) (k a) (k' (slim spare₁ a))) :
    Follows side spare kept vs (x >>= k) (y >>= k') := by
  intro m m' hm hkept hvs
  rcases hx m m' hm hkept hvs with hspent | ⟨spare₁, hspare, hfirst⟩
  · exact .inl (Side.spent_bind hspent)
  · rcases hfirst.cases with ⟨a, m₁, m₁', hr, hr'⟩ | ⟨e, m₁, m₁', hr, hr'⟩
    · rw [hr, hr'] at hfirst
      obtain ⟨-, hpadded, hgrown, hgrown', hfits⟩ := hfirst
      have hkept₁ : kept = true → spare₁ m₁.scope = false := by
        intro h
        rw [show m₁.scope = m.scope from hgrown.scope, hspare _ hm.sees.lt]
        exact hkept h
      rw [bind_of_ok hr, bind_of_ok hr']
      rcases hk spare₁ a m₁ m₁' hpadded hkept₁ (hfits a rfl) with hspent | ⟨spare₂, hspare₂, hnext⟩
      · exact .inl hspent
      · refine .inr ⟨spare₂, fun j hj => ?_, hnext.trans hgrown hgrown'⟩
        rw [hspare₂ j (Nat.lt_of_lt_of_le hj hgrown.size), hspare j hj]
    · rw [hr, hr'] at hfirst
      rw [bind_of_error hr, bind_of_error hr']
      exact .inr ⟨spare₁, hspare, rfl, hfirst.padded, hfirst.grown, hfirst.grown',
        fun b hb => by cases hb⟩

/-- Without fuel there is nothing to follow. -/
theorem follows_zero {k b : Nat} (h : side.Enough (k + 1) 0 b) (y : Eval α) :
    Follows side spare kept vs Eval.outOfFuel y := by
  cases side with
  | built => exact fun m m' _ _ _ => .inl rfl
  | written =>
    unfold Side.Enough at h
    omega

theorem Matched.spent {m m' : Machine} {r r' : EStateM.Result Stop Machine α}
    (h : Matched spare m m' r r') : Spent r' ↔ Spent r := by
  unfold Spent
  rw [h.ending]
  cases Treewalk.ending r <;> simp [Except.map]

omit [Holds α] in
/-- More fuel changes nothing, unless a run was out of it. -/
theorem extends_spent {z : Nat → Eval α} (hmore : ∀ fuel, Extends (z fuel) (z (fuel + 1)))
    {c d : Nat} (h : c ≤ d) (m : Machine) : Spent (z c m) ∨ z d m = z c m := by
  refine (extends_of_le hmore h m).imp_left fun ⟨m', hm⟩ => ?_
  rw [Spent, hm]
  rfl

/-- The same program, with different fuel. -/
theorem follows_fuel {z : Nat → Eval α} {k a b : Nat} (henough : side.Enough k a b)
    (hsim : ∀ fuel i, (kept = true → spare i = false) → Sim spare i vs (z fuel) (z fuel))
    (hmore : ∀ fuel, Extends (z fuel) (z (fuel + 1))) :
    Follows side spare kept vs (z a) (z b) := by
  intro m m' hm hkept hvs
  cases side with
  | built =>
    have hsame := hsim a m.scope hkept m m' hm rfl hvs
    rcases extends_spent hmore henough m' with hspent | hequal
    · exact .inl (hsame.spent.mp hspent)
    · rw [hequal]
      exact .inr ⟨spare, fun _ _ => rfl, hsame⟩
  | written =>
    have hsame := hsim b m.scope hkept m m' hm rfl hvs
    rcases extends_spent hmore (Nat.le_of_add_right_le henough) m with hspent | hequal
    · exact .inl (hsame.spent.mpr hspent)
    · rw [hequal]
      exact .inr ⟨spare, fun _ _ => rfl, hsame⟩

/-! ## A scope to spare -/

/-- The first machine opens a scope to spare and goes into it. -/
theorem Padded.insert {m m' : Machine} (h : Padded spare m m') :
    Padded (mark spare m.store.scopes.size) (m.within m.scope []) m' := by
  have hstore := h.store.insert h.sees.lt
  refine ⟨h.registers, hstore, ?_, ?_⟩
  · simp [Machine.within]
  · have hnew : (m.within m.scope []).store.chain m.store.scopes.size =
        m.store.scopes.size :: m.store.chain m.scope := m.store.chain_enclose m.scope
    rw [show (m.within m.scope []).scope = m.store.scopes.size from rfl, hnew, slimChain_cons,
      slimChain_congr (fun _ => mark_of_lt) (h.store.inside m.scope h.sees.lt), h.sees.chain]
    simp [mark]

omit [Holds α] in
theorem block_eq (x : Eval α) (m : Machine) :
    (do
      let outer ← Eval.scope
      let id ← Eval.enclose outer []
      Eval.inScope id x : Eval α) m =
    leaving ({ · with scope := m.scope }) (x (m.within m.scope [])) :=
  enclose_inScope m.scope [] x m

omit [Holds α] in
/-- A run that comes back to its scope is left in no other one. -/
theorem leaving_self {i : ScopeId} {r : EStateM.Result Stop Machine α}
    (h : (after r).scope = i) : leaving ({ · with scope := i }) r = r := by
  subst h
  cases r <;> rfl

/-- What only the first run does in a scope of its own. -/
theorem follows_insert {x y : Eval α} (h : ∀ spare, Follows side spare false [] x y) :
    Follows side spare kept vs
      (do
        let outer ← Eval.scope
        let id ← Eval.enclose outer []
        Eval.inScope id x) y := by
  intro m m' hm _ _
  rw [block_eq]
  rcases h _ _ _ hm.insert (fun h => by cases h) (List.forall_mem_nil _) with
    hspent | ⟨spare₁, hspare, hinner⟩
  · refine .inl ?_
    cases side with
    | built => exact (ending_leaving _ _).trans hspent
    | written => exact hspent
  · have hold : ∀ k : Nat, k < m.store.scopes.size → spare₁ k = spare k := by
      intro k hk
      rw [hspare k (by rw [Machine.size_within]; omega), mark_of_lt hk]
    have hgrown' : Grown m' { after (y m') with scope := m'.scope } := by
      obtain ⟨hsize, hchain, -⟩ := hinner.grown'
      exact ⟨hsize, hchain, rfl⟩
    refine .inr ⟨spare₁, hold, ?_⟩
    rw [← leaving_self hinner.grown'.scope]
    exact hinner.leave hm hold hinner.grown.leave hgrown'

/-- What both runs do in a scope of its own. -/
theorem follows_block {x y : Eval α} (h : ∀ spare, Follows side spare true [] x y) :
    Follows side spare kept vs
      (do
        let outer ← Eval.scope
        let id ← Eval.enclose outer []
        Eval.inScope id x)
      (do
        let outer ← Eval.scope
        let id ← Eval.enclose outer []
        Eval.inScope id y) := by
  intro m m' hm _ _
  rw [block_eq, block_eq]
  have hopen : Padded spare (m.within m.scope []) (m'.within m'.scope []) :=
    hm.within hm.sees (List.forall_mem_nil _)
  rcases h spare _ _ hopen (fun _ => hm.store.size_not_spare) (List.forall_mem_nil _) with
    hspent | ⟨spare₁, hspare, hinner⟩
  · refine .inl ?_
    cases side <;> exact (ending_leaving _ _).trans hspent
  · have hold : ∀ k : Nat, k < m.store.scopes.size → spare₁ k = spare k := by
      intro k hk
      exact hspare k (by rw [Machine.size_within]; omega)
    exact .inr ⟨spare₁, hold, hinner.leave hm hold hinner.grown.leave hinner.grown'.leave⟩

end Follows

/-! ## Rounds -/

section Rounds

variable {cfg : Setting} {side : Side} {spare : ScopeId → Bool} {kept : Bool} {vs : List Value}
  {k a b : Nat}

/-- One step less on the side of the statement that was built. -/
theorem Side.Enough.pred (h : side.Enough (k + 1) (a + 1) b) : side.Enough k a b := by
  cases side <;> (unfold Side.Enough at h ⊢; omega)

/-- One step less on both sides. -/
theorem Side.Enough.both (h : side.Enough k (a + 1) (b + 1)) : side.Enough k a b := by
  cases side <;> (unfold Side.Enough at h ⊢; omega)

theorem follows_evaluate (henough : side.Enough k a b) (e : Expr) :
    Follows side spare kept vs (evaluate cfg a e) (evaluate cfg b e) :=
  follows_fuel henough (fun fuel _ _ => (SimAt.all fuel).evaluate e)
    fun fuel => (ExtendsAt.all fuel).evaluate e

/-- A statement that binds nothing can be run in a scope to spare. -/
theorem follows_execute (henough : side.Enough k a b) {s : Stmt} (hs : kept = true ∨ s.Bare) :
    Follows side spare kept vs (execute cfg a s) (execute cfg b s) := by
  refine follows_fuel henough (fun fuel i hi => (SimAt.all fuel).execute ?_)
    fun fuel => (ExtendsAt.all fuel).execute s
  exact hs.imp_left hi

theorem follows_normal : Follows side spare kept vs (pure Flow.normal) (pure .normal) :=
  follows_of_sim fun _ _ => SimAt.normal

theorem follows_returned {v : Value} (hv : v ∈ vs) :
    Follows side spare kept vs (pure (Flow.returned v)) (pure (.returned (v.slim spare))) :=
  follows_of_sim fun _ _ => SimAt.returned (.inl hv)

theorem follows_condition (henough : side.Enough (k + 1) a b) (condition : Option Expr) :
    Follows side spare kept vs (evaluate cfg a (condition.getD (.literal (.bool true))))
      (forCondition cfg b condition) := by
  cases condition with
  | none =>
    cases a with
    | zero => exact follows_zero henough _
    | succ a => exact follows_of_sim fun _ _ => SimAt.known (.inr trivial)
  | some e => exact follows_evaluate henough e

theorem executeAll_expr (fuel : Nat) (e : Expr) :
    executeAll cfg (fuel + 2) [.expr e] = (do
      let _ ← evaluate cfg fuel e
      pure .normal) := by
  show (evaluate cfg fuel e >>= fun _ => pure Flow.normal) >>= _ = _
  rw [bind_assoc]
  rfl

/-- Without a last step a round is the body. -/
theorem forRound_none (fuel : Nat) (body : Stmt) :
    forRound cfg fuel none body = execute cfg fuel body := by
  have hflow : (fun r : Flow => match r with
      | .returned v => (pure (.returned v) : Eval Flow)
      | .normal => pure .normal) = pure := by
    funext r
    cases r <;> rfl
  show execute cfg fuel body >>= _ = _
  rw [hflow, bind_pure]

/-- A round with its last step, in a scope to spare. -/
theorem follows_bodyAndLast (henough : side.Enough (k + 3) a b) {body : Stmt} (hbody : body.Bare)
    (e : Expr) :
    Follows side spare false vs (executeAll cfg a [body, .expr e])
      (forRound cfg b (some e) body) := by
  cases a with
  | zero => exact follows_zero henough _
  | succ a =>
    have henough := henough.pred
    refine follows_bind (follows_execute henough (.inr hbody)) fun spare₁ r => ?_
    cases r with
    | returned v => exact follows_returned (.head _)
    | normal =>
      cases a with
      | zero => exact follows_zero henough _
      | succ a =>
        have henough := henough.pred
        cases a with
        | zero => exact follows_zero henough _
        | succ a =>
          rw [executeAll_expr]
          exact follows_bind (follows_evaluate henough.pred e) fun _ _ => follows_normal

/-- The body of the `while` loop that is built from a `for` loop. -/
def roundOf (last : Option Expr) (body : Stmt) : Stmt :=
  match last with
  | none => body
  | some e => .block [body, .expr e]

theorem follows_round (henough : side.Enough (k + 4) a b) {body : Stmt} (hbody : body.Bare)
    (last : Option Expr) :
    Follows side spare kept vs (execute cfg a (roundOf last body)) (forRound cfg b last body) := by
  cases last with
  | none =>
    rw [forRound_none]
    exact follows_execute henough (.inr hbody)
  | some e =>
    cases a with
    | zero => exact follows_zero henough _
    | succ a =>
      exact follows_insert fun _ => follows_bodyAndLast henough.pred hbody e

/-- The `while` loop goes the same rounds. -/
theorem follows_rounds {body : Stmt} (hbody : body.Bare) (condition last : Option Expr) :
    ∀ {a b : Nat} {spare : ScopeId → Bool} {kept : Bool} {vs : List Value},
      side.Enough (k + 4) a b →
      Follows side spare kept vs
        (execute cfg a
          (.whileLoop (condition.getD (.literal (.bool true))) (roundOf last body)))
        (forRounds cfg b condition last body)
  | 0, _, _, _, _, henough => follows_zero henough _
  | a + 1, 0, spare, kept, vs, henough => by
    cases side with
    | built => cases henough
    | written => exact fun m m' _ _ _ => .inl rfl
  | a + 1, b + 1, spare, kept, vs, henough => by
    -- A round takes one unit of fuel on either side, so the difference stays what it was.
    have henough := henough.both
    refine follows_bind (follows_condition henough condition) fun spare₁ c => ?_
    simp only [Holds.slim, Value.truthy_slim]
    split
    · refine follows_bind (follows_round henough hbody last) fun spare₂ r => ?_
      cases r with
      | returned v => exact follows_returned (.head _)
      | normal => exact follows_rounds hbody condition last henough
    · exact follows_normal

/-- The loop as the last statement of a block. -/
theorem follows_roundsAlone (henough : side.Enough (k + 5) a b) {body : Stmt} (hbody : body.Bare)
    (condition last : Option Expr) :
    Follows side spare kept vs
      (executeAll cfg a
        [.whileLoop (condition.getD (.literal (.bool true))) (roundOf last body)])
      (forRounds cfg b condition last body) := by
  cases a with
  | zero => exact follows_zero henough _
  | succ a =>
    have henough := henough.pred
    rw [← bind_pure (forRounds cfg b condition last body)]
    refine follows_bind (follows_rounds hbody condition last henough) fun spare₁ r => ?_
    cases r with
    | returned v => exact follows_returned (.head _)
    | normal =>
      cases a with
      | zero => exact follows_zero henough _
      | succ a => exact follows_normal

/-- The statement that is built does what the loop as it is written does. -/
theorem follows_forLoop (henough : side.Enough 7 a b) (first : Option Stmt)
    (condition last : Option Expr) {body : Stmt} (hbody : body.Bare) :
    Follows side spare kept vs (execute cfg a (.forLoop first condition last body))
      (runFor cfg b first condition last body) := by
  cases first with
  | none => exact follows_rounds hbody condition last henough
  | some s =>
    cases a with
    | zero => exact follows_zero henough _
    | succ a =>
      have henough := henough.pred
      refine follows_block fun spare => ?_
      cases a with
      | zero => exact follows_zero henough _
      | succ a =>
        have henough := henough.pred
        refine follows_bind (follows_execute henough (.inl rfl)) fun spare₁ r => ?_
        cases r with
        | returned v => exact follows_returned (.head _)
        | normal => exact follows_roundsAlone henough hbody condition last

end Rounds

end Treewalk
