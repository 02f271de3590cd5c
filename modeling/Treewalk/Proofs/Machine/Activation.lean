import Treewalk.Proofs.Machine.Returns
import Treewalk.Proofs.Machine.Timeline

/-!
# Returns and the activations they end

A call opens an activation; the statements of the function's body begin with as many
calls open as there were at its start, those of the functions it calls with more. So
the `return`s of an activation can be told from all others in the timeline of the call.

Results:

* `compositional_staysAbove`: no run closes a call that was open at its start.
* `call_value`: the value of a call is that of the one `return` that began in its own
  activation, or `nil` if none did.
-/
namespace Treewalk

open Timeline

/-! ## Moments of an activation -/

theorem compositional_staysAbove (limit : Option Nat) :
    Compositional limit limit fun _ x _ => StaysOpen (· ≤ ·) x :=
  compositional_staysOpen (fun _ => Nat.le_refl _) fun _ _ _ h => Nat.le_of_succ_le h

def Event.isReturn : Event → Bool
  | .stmt (.ret _ _) => true
  | _ => false

/-- The `return`s that begin while exactly the given number of calls is open. -/
def returnsAt (depth : Nat) (moments : List Moment) : List Moment :=
  moments.filter fun z => z.machine.depth == depth && z.event.isReturn

theorem returnsAt_append (depth : Nat) (xs ys : List Moment) :
    returnsAt depth (xs ++ ys) = returnsAt depth xs ++ returnsAt depth ys :=
  List.filter_append xs ys

theorem returnsAt_cons_of_not {depth : Nat} {z : Moment} (h : z.event.isReturn = false)
    (zs : List Moment) : returnsAt depth (z :: zs) = returnsAt depth zs := by
  unfold returnsAt
  rw [List.filter_cons_of_neg (by simp [h])]

theorem returnsAt_cons_of_return {z : Moment} (h : z.event.isReturn = true) (zs : List Moment) :
    returnsAt z.machine.depth (z :: zs) = z :: returnsAt z.machine.depth zs := by
  unfold returnsAt
  rw [List.filter_cons_of_pos (by simp [h])]

theorem returnsAt_of_above {depth : Nat} {moments : List Moment}
    (h : ∀ z ∈ moments, depth < z.machine.depth) : returnsAt depth moments = [] := by
  refine List.filter_eq_nil_iff.mpr fun z hz => ?_
  have hne : z.machine.depth ≠ depth := Nat.ne_of_gt (h z hz)
  simp [hne]

/-- The `return` that begins at the moment gives the value. -/
def Moment.Returns (cfg : Setting) (z : Moment) (v : Value) : Prop :=
  ∃ keyword value fuel m, z.event = .stmt (.ret keyword value) ∧
    execute cfg fuel (.ret keyword value) z.machine = .ok (.returned v) m

/-! ## Computations in an activation -/

section Rules

variable {cfg : Setting} {α β : Type} {x : Recorded α}

/-- No `return` begins in the activation that the computation is in. -/
def Quiet (x : Recorded α) : Prop :=
  ∀ m, (after (x.run m)).depth = m.depth ∧ returnsAt m.depth (x.timeline m) = []

/-- A `return` begins in the activation that the computation is in if and only if the
computation ends with its value. -/
def Returning (cfg : Setting) (x : Recorded (Course Value)) : Prop :=
  ∀ m, match x.run m with
    | .ok .normal m' => m'.depth = m.depth ∧ returnsAt m.depth (x.timeline m) = []
    | .ok (.returned v) _ => ∃ z, returnsAt m.depth (x.timeline m) = [z] ∧ z.Returns cfg v
    | .error _ _ => True

theorem quiet_pure (a : α) : Quiet (pure a) := fun _ => ⟨rfl, rfl⟩

theorem quiet_step {x : Eval α} (h : x.IsStep) : Quiet (.step x) := fun m => ⟨(h.steady m).2.1, rfl⟩

theorem quiet_bind {k : α → Recorded β} (hx : Quiet x) (hk : ∀ a, Quiet (k a)) :
    Quiet (x >>= k) := by
  intro m
  obtain ⟨hdepth, hreturns⟩ := hx m
  rw [Recorded.run_bind, Recorded.timeline_bind, Timeline.next, Timeline.following,
    returnsAt_append, hreturns]
  cases hm : x.run m with
  | ok a m₁ =>
    rw [hm] at hdepth
    obtain ⟨hdepth', hreturns'⟩ := hk a m₁
    rw [show m₁.depth = m.depth from hdepth] at hdepth' hreturns'
    rw [bind_of_ok hm]
    exact ⟨hdepth', hreturns'⟩
  | error e m₁ =>
    rw [hm] at hdepth
    rw [bind_of_error hm]
    exact ⟨hdepth, rfl⟩

theorem quiet_starting (hx : Quiet x) (e : Expr) : Quiet (x.starting (.expr e)) := by
  intro m
  obtain ⟨hdepth, hreturns⟩ := hx m
  refine ⟨hdepth, ?_⟩
  rw [Recorded.timeline_starting, Timeline.starting, returnsAt_cons_of_not rfl, hreturns]

theorem returning_normal : Returning cfg (pure .normal) := fun _ => ⟨rfl, rfl⟩

theorem returning_outOfFuel : Returning cfg (.step Eval.outOfFuel) := fun _ => trivial

/-- What comes after a computation without `return`s. -/
theorem returning_bind {k : α → Recorded (Course Value)} (hx : Quiet x)
    (hk : ∀ a, Returning cfg (k a)) : Returning cfg (x >>= k) := by
  intro m
  obtain ⟨hdepth, hreturns⟩ := hx m
  rw [Recorded.run_bind, Recorded.timeline_bind, Timeline.next, Timeline.following,
    returnsAt_append, hreturns]
  cases hm : x.run m with
  | ok a m₁ =>
    rw [hm] at hdepth
    have h := hk a m₁
    rw [show m₁.depth = m.depth from hdepth] at h
    rw [bind_of_ok hm]
    exact h
  | error e m₁ =>
    rw [bind_of_error hm]
    trivial

/-- What comes after a statement, unless that returns. -/
theorem returning_then {x : Recorded (Course Value)} {k : Course Value → Recorded (Course Value)}
    (hx : Returning cfg x) (hreturned : ∀ v, k (.returned v) = pure (.returned v))
    (hk : Returning cfg (k .normal)) : Returning cfg (x >>= k) := by
  intro m
  have hm := hx m
  rw [Recorded.run_bind, Recorded.timeline_bind, Timeline.next, Timeline.following,
    returnsAt_append]
  cases hr : x.run m with
  | ok r m₁ =>
    rw [hr] at hm
    rw [bind_of_ok hr]
    cases r with
    | normal =>
      obtain ⟨hdepth, hreturns⟩ := hm
      have h := hk m₁
      rw [hdepth] at h
      rw [hreturns]
      exact h
    | returned v =>
      obtain ⟨z, hz, hv⟩ := hm
      dsimp only
      rw [hreturned, hz]
      exact ⟨z, rfl, hv⟩
  | error e m₁ =>
    rw [bind_of_error hr]
    trivial

theorem returning_inScope {x : Recorded (Course Value)} (id : ScopeId) (hx : Returning cfg x) :
    Returning cfg (x.inScope id) := by
  intro m
  have h := hx { m with scope := id }
  rw [Recorded.run_inScope, Eval.inScope]
  cases hm : x.run { m with scope := id } with
  | ok r m₁ => cases r <;> (rw [hm] at h; exact h)
  | error e m₁ => trivial

/-- A body in a new scope. -/
theorem returning_enclosed {x : Recorded (Course Value)} (place : Place) (outer : ScopeId)
    (bs : List (String × Value)) (hx : Returning cfg x) :
    Returning cfg (recording.enclosed place outer bs x) :=
  returning_bind (quiet_step (.enclose outer bs)) fun id => returning_inScope id hx

theorem returning_starting {x : Recorded (Course Value)} {s : Stmt}
    (hs : (Event.stmt s).isReturn = false) (hx : Returning cfg x) :
    Returning cfg (x.starting (.stmt s)) := by
  intro m
  have h := hx m
  rw [Recorded.timeline_starting, Timeline.starting, returnsAt_cons_of_not hs]
  exact h

end Rules

/-! ## Runs -/

variable {cfg : Setting} {fuel : Nat}

/-- Whatever begins in a call begins in an activation of its own. -/
theorem during_call_above (cfg : Setting) (fuel number : Nat) (c : Callable) (paren : Token)
    (args : List Value) (m : Machine) :
    ∀ z ∈ (recording.call cfg fuel number c paren args).timeline m, m.depth < z.machine.depth := by
  intro z hz
  cases fuel with
  | zero => cases hz
  | succ fuel =>
    unfold Instrument.call at hz
    split at hz
    · cases hz
    · change z ∈ Timeline.activate _ _ _ m at hz
      unfold Timeline.activate at hz
      split at hz
      · cases hz
      · have h := compositional_staysAbove cfg.callLimit
        rcases List.mem_cons.mp hz with rfl | hz
        · exact Nat.lt_succ_self _
        · cases c with
          | clock => exact (h.held (.readClock cfg) m.enter).2 z hz
          | function d closure =>
            have hbody := h.applied (y := executeAll cfg fuel d.body) number d closure args
              fun place => h.executeAll cfg fuel place 0 d.body
            change z ∈ Recorded.timeline (_ >>= fun r => pure (r.result .nil)) m.enter at hz
            rw [Recorded.timeline_bind_pure] at hz
            exact (hbody m.enter).2 z hz

theorem quiet_call (cfg : Setting) (fuel number : Nat) (c : Callable) (paren : Token)
    (args : List Value) : Quiet (recording.call cfg fuel number c paren args) := by
  have h := (compositional_staysAbove cfg.callLimit).call cfg fuel number c paren args
  exact fun m => ⟨(h m).1, returnsAt_of_above (during_call_above cfg fuel number c paren args m)⟩

/-- With this much fuel, expressions begin no `return` in their activation, and statements
only the one they end with. -/
structure ReturningAt (cfg : Setting) (fuel : Nat) : Prop where
  expr : ∀ place e, Quiet (recording.evaluate cfg fuel place e)
  exprs : ∀ place i es, Quiet (recording.evaluateAll cfg fuel place i es)
  stmt : ∀ place s, Returning cfg (recording.execute cfg fuel place s)
  stmts : ∀ place i ss, Returning cfg (recording.executeAll cfg fuel place i ss)

namespace ReturningAt

theorem zero : ReturningAt cfg 0 where
  expr _ _ := quiet_step .outOfFuel
  exprs _ _ _ := quiet_step .outOfFuel
  stmt _ _ := returning_outOfFuel
  stmts _ _ _ := returning_outOfFuel

theorem expr_succ (ih : ReturningAt cfg fuel) (place : Place) (e : Expr) :
    Quiet (recording.evaluate cfg (fuel + 1) place e) := by
  unfold Instrument.evaluate
  refine quiet_starting ?_ e
  cases e with
  | literal l => exact quiet_pure _
  | grouping inner => exact ih.expr _ inner
  | unary op right =>
    exact quiet_bind (ih.expr _ right) fun _ =>
      quiet_bind (quiet_step (.ofExcept _)) fun _ => quiet_pure _
  | binary left op right =>
    exact quiet_bind (ih.expr _ left) fun _ => quiet_bind (ih.expr _ right) fun _ =>
      quiet_bind (quiet_step (.ofExcept _)) fun _ => quiet_pure _
  | logical left op right =>
    refine quiet_bind (ih.expr _ left) fun v => ?_
    split
    · exact quiet_pure _
    · exact ih.expr _ right
  | ternary op c t f =>
    refine quiet_bind (ih.expr _ c) fun v => ?_
    unfold TernaryRule.branches
    split
    · exact quiet_bind (ih.expr _ t) fun _ => quiet_bind (ih.expr _ f) fun _ => quiet_pure _
    · split
      · exact ih.expr _ t
      · exact ih.expr _ f
  | name t => exact quiet_step (.get t)
  | assign t value =>
    exact quiet_bind (ih.expr _ value) fun v =>
      quiet_bind (quiet_step (.assign t v)) fun _ => quiet_pure _
  | call callee paren args =>
    refine quiet_bind (ih.expr _ callee) fun v => quiet_bind (ih.exprs _ _ args) fun vs => ?_
    cases v with
    | callable id c => exact quiet_call cfg fuel id c paren vs
    | _ => exact quiet_step (.fault _ _)

theorem exprs_succ (ih : ReturningAt cfg fuel) (place : Place) (i : Nat) (es : List Expr) :
    Quiet (recording.evaluateAll cfg (fuel + 1) place i es) := by
  cases es with
  | nil => exact quiet_pure _
  | cons e es =>
    exact quiet_bind (ih.expr _ e) fun _ => quiet_bind (ih.exprs _ _ es) fun _ => quiet_pure _

/-- A `return` is the only one in its activation, whatever its expression calls. -/
theorem ret_succ (ih : ReturningAt cfg fuel) (place : Place) (keyword : Token)
    (value : Option Expr) :
    Returning cfg (recording.execute cfg (fuel + 1) place (.ret keyword value)) := by
  intro m
  have hreturns : returnsAt m.depth
      ((recording.execute cfg (fuel + 1) place (.ret keyword value)).timeline m) =
      [⟨.stmt (.ret keyword value), m⟩] := by
    unfold Instrument.execute
    refine (returnsAt_cons_of_return rfl _).trans ?_
    cases value with
    | none => rfl
    | some e =>
      have hquiet := quiet_bind (ih.expr (0 :: place) e) fun v =>
        quiet_pure (Course.returned v)
      exact congrArg _ (hquiet m).2
  have hruns := runs_execute cfg (fuel + 1) place (.ret keyword value) m
  cases hr : (recording.execute cfg (fuel + 1) place (.ret keyword value)).run m with
  | ok r m' =>
    rw [hr] at hruns
    cases r with
    | normal =>
      cases value with
      | none => cases hr
      | some e =>
        obtain ⟨v, m₁, -, h⟩ := bind_eq_ok.mp hr
        cases h
    | returned v => exact ⟨_, hreturns, keyword, value, fuel + 1, m', rfl, hruns.symm⟩
  | error e m' => trivial

theorem stmt_succ (ih : ReturningAt cfg fuel) (place : Place) (s : Stmt) :
    Returning cfg (recording.execute cfg (fuel + 1) place s) := by
  by_cases hret : (Event.stmt s).isReturn = true
  · cases s with
    | ret keyword value => exact ih.ret_succ place keyword value
    | _ => cases hret
  · rw [Bool.not_eq_true] at hret
    unfold Instrument.execute
    refine returning_starting hret ?_
    cases s with
    | expr e => exact returning_bind (ih.expr _ e) fun _ => returning_normal
    | print e =>
      exact returning_bind (ih.expr _ e) fun v =>
        returning_bind (quiet_step (.printLine _)) fun _ => returning_normal
    | var name initial =>
      cases initial with
      | none => exact returning_bind (quiet_step (.define _ _)) fun _ => returning_normal
      | some e =>
        exact returning_bind (ih.expr _ e) fun v =>
          returning_bind (quiet_step (.define _ v)) fun _ => returning_normal
    | block body =>
      exact returning_bind (quiet_step .scope) fun outer =>
        returning_enclosed place outer [] (ih.stmts _ _ body)
    | ifThen c t =>
      refine returning_bind (ih.expr _ c) fun v => ?_
      split
      · exact ih.stmt _ t
      · exact returning_normal
    | ifElse c t f =>
      refine returning_bind (ih.expr _ c) fun v => ?_
      split
      · exact ih.stmt _ t
      · exact ih.stmt _ f
    | whileLoop c body =>
      refine returning_bind (ih.expr _ c) fun v => ?_
      split
      · exact returning_then (ih.stmt _ body) (fun _ => rfl) (ih.stmt _ (.whileLoop c body))
      · exact returning_normal
    | function name params body =>
      exact returning_bind (quiet_step (.close _)) fun f =>
        returning_bind (quiet_step (.define _ f)) fun _ => returning_normal
    | ret keyword value => cases hret

theorem stmts_succ (ih : ReturningAt cfg fuel) (place : Place) (i : Nat) (ss : List Stmt) :
    Returning cfg (recording.executeAll cfg (fuel + 1) place i ss) := by
  cases ss with
  | nil => exact returning_normal
  | cons s ss => exact returning_then (ih.stmt _ s) (fun _ => rfl) (ih.stmts _ _ ss)

theorem all : ∀ fuel, ReturningAt cfg fuel
  | 0 => zero
  | fuel + 1 =>
    let ih := all fuel
    ⟨ih.expr_succ, ih.exprs_succ, ih.stmt_succ, ih.stmts_succ⟩

end ReturningAt

theorem activate_eq_ok {α : Type} {limit : Option Nat} {paren : Token} {x : Eval α}
    {m m' : Machine} {a : α} (h : Eval.activate limit paren x m = .ok a m') :
    limit.any (· ≤ m.depth) = false ∧ ∃ m₁, x m.enter = .ok a m₁ := by
  cases hlimit : limit.any (· ≤ m.depth) with
  | true =>
    rw [activate_full hlimit] at h
    cases h
  | false =>
    rw [activate_eq hlimit] at h
    obtain ⟨m₁, hx, -⟩ := leaving_eq_ok.mp h
    exact ⟨rfl, m₁, hx⟩

/-- The value of a call is that of the one `return` that began in its own activation, or
`nil` if none did. -/
theorem call_value {d : Declaration} {closure : ScopeId} {paren : Token} {args : List Value}
    {m m' : Machine} {v : Value}
    (h : call cfg fuel (.function d closure) paren args m = .ok v m') :
    (∃ z, returnsAt (m.depth + 1) (duringCall cfg fuel (.function d closure) paren args m) = [z] ∧
      z.Returns cfg v) ∨
    (returnsAt (m.depth + 1) (duringCall cfg fuel (.function d closure) paren args m) = [] ∧
      v = .nil) := by
  unfold duringCall
  rw [← runs_call cfg fuel 0] at h
  cases fuel with
  | zero => cases h
  | succ fuel =>
    unfold Instrument.call at h ⊢
    split at h
    · cases h
    · rename_i harity
      obtain ⟨hroom, m₁, hbody⟩ := activate_eq_ok h
      obtain ⟨r, m₂, hr, hv⟩ := bind_eq_ok.mp hbody
      have hreturning : Returning cfg (recording.applied 0 d closure args fun place =>
          recording.executeAll cfg fuel place 0 d.body) :=
        returning_bind (quiet_pure []) fun place =>
          returning_enclosed place closure _ ((ReturningAt.all fuel).stmts place 0 d.body)
      have hreturns := hreturning m.enter
      rw [if_neg harity]
      dsimp only [recording, Recorded.timeline_activate, Timeline.activate]
      rw [hroom, if_neg Bool.false_ne_true, Timeline.starting, returnsAt_cons_of_not rfl,
        Recorded.timeline_bind_pure]
      rw [hr] at hreturns
      cases r with
      | normal =>
        cases hv
        exact .inr ⟨hreturns.2, rfl⟩
      | returned w =>
        cases hv
        exact .inl hreturns

end Treewalk
