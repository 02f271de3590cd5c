import Treewalk.Proofs.Machine.Instrument
import Treewalk.Proofs.Machine.Primitives

/-!
# What a run goes through

A run gives the machine at its end only. Its timeline lists what begins on the way, in
order, each with the machine at that moment: expressions, statements, and calls that
are open from then on. A `Recorded` computation has its timeline beside it, and a run with
the instrument `recording` is a recorded run of the machine. `duringExpr`, `duringStmt` and
so on are the timelines of `evaluate`, `execute` and so on.

What is to hold of recorded runs is shown of the ways to put them together (`Compositional`)
and then holds of all of them (`Compositional.rules`). Two limits for open calls take part, so
that runs under both can be compared.

Results:

* `runs_evaluate`, `runs_execute`, `runs_interpret`: recording does not change what a run does.
* `compositional_staysOpen`: how many calls are open at the moments of a run.
* `compositional_countsOpen`: no call is missing from a timeline; the machine counts the same.
-/
namespace Treewalk

/-- What can begin during a run. -/
inductive Event where
  | expr (e : Expr)
  | stmt (s : Stmt)
  /-- A call that is open from now on. `paren` closes its arguments. -/
  | call (callee : Callable) (paren : Token) (arguments : List Value)

/-- An event and the machine as it begins. -/
structure Moment where
  event : Event
  machine : Machine

/-- The moments of a run that starts with the given machine, first one first. -/
abbrev Timeline := Machine → List Moment

namespace Timeline

variable {α : Type}

def empty : Timeline := fun _ => []

/-- An event and what follows at once. -/
def starting (e : Event) (t : Timeline) : Timeline := fun m => ⟨e, m⟩ :: t m

/-- The moments of what comes after `x` if that has a result. -/
def following (x : Eval α) (u : α → Timeline) : Timeline := fun m =>
  match x m with
  | .ok a m' => u a m'
  | .error _ _ => []

/-- The moments `t` of `x` and those of what comes after it. -/
def next (t : Timeline) (x : Eval α) (u : α → Timeline) : Timeline := fun m =>
  t m ++ following x u m

def inScope (id : ScopeId) (t : Timeline) : Timeline := fun m => t { m with scope := id }

/-- The moments of a call, if it can be opened. -/
def activate (limit : Option Nat) (e : Event) (t : Timeline) : Timeline := fun m =>
  if limit.any (· ≤ m.depth) then []
  else starting e t m.enter

end Timeline

open Timeline

/-! ## Recorded runs -/

/-- A computation and its timeline. -/
structure Recorded (α : Type) where
  run : Eval α
  timeline : Timeline

instance : Monad Recorded where
  pure a := ⟨pure a, .empty⟩
  bind x k := ⟨x.run >>= fun a => (k a).run, x.timeline.next x.run fun a => (k a).timeline⟩

namespace Recorded

variable {α : Type}

/-- A single step, with which nothing begins. -/
def step (x : Eval α) : Recorded α := ⟨x, .empty⟩

def starting (e : Event) (x : Recorded α) : Recorded α := ⟨x.run, x.timeline.starting e⟩

def inScope (id : ScopeId) (x : Recorded α) : Recorded α :=
  ⟨Eval.inScope id x.run, x.timeline.inScope id⟩

def activate (limit : Option Nat) (callee : Callable) (paren : Token) (arguments : List Value)
    (x : Recorded α) : Recorded α :=
  ⟨Eval.activate limit paren x.run, x.timeline.activate limit (.call callee paren arguments)⟩

section Parts

variable {β : Type} (x : Recorded α) (k : α → Recorded β)

@[simp]
theorem run_bind : (x >>= k).run = x.run >>= fun a => (k a).run := rfl

@[simp]
theorem timeline_bind : (x >>= k).timeline = x.timeline.next x.run fun a => (k a).timeline := rfl

/-- With the result alone nothing begins. -/
theorem timeline_bind_pure (f : α → β) : (x >>= fun a => pure (f a)).timeline = x.timeline := by
  funext m
  rw [timeline_bind, next, following]
  cases x.run m <;> exact List.append_nil _

@[simp]
theorem run_starting (e : Event) : (x.starting e).run = x.run := rfl

@[simp]
theorem timeline_starting (e : Event) : (x.starting e).timeline = x.timeline.starting e := rfl

@[simp]
theorem run_inScope (id : ScopeId) : (x.inScope id).run = Eval.inScope id x.run := rfl

@[simp]
theorem timeline_inScope (id : ScopeId) : (x.inScope id).timeline = x.timeline.inScope id := rfl

variable (limit : Option Nat) (c : Callable) (paren : Token) (args : List Value)

@[simp]
theorem run_activate : (x.activate limit c paren args).run = Eval.activate limit paren x.run := rfl

@[simp]
theorem timeline_activate : (x.activate limit c paren args).timeline =
    x.timeline.activate limit (.call c paren args) := rfl

end Parts

end Recorded

/-- Records what begins, each with the machine at that moment. -/
def recording : Instrument Recorded Value where
  toHolding := .bare
  plain x := .step x
  get t := .step (Eval.get t)
  assign t v := .step (Eval.assign t v)
  define name v := .step (Eval.define name v)
  close _ d := .step (Eval.close d)
  origin _ := pure []
  enclose _ outer bs := .step (Eval.enclose outer bs)
  inScope := Recorded.inScope
  activate := Recorded.activate
  atExpr _ e x := x.starting (.expr e)
  atStmt _ s x := x.starting (.stmt s)
  atCall _ _ x := x

theorem map_value (args : List Value) : args.map recording.value = args := List.map_id args

theorem run_held (x : Eval Value) : (recording.held x).run = x := bind_pure x

section During

variable (cfg : Setting) (fuel : Nat)

def duringExpr (e : Expr) : Timeline := (recording.evaluate cfg fuel [] e).timeline

def duringStmt (s : Stmt) : Timeline := (recording.execute cfg fuel [] s).timeline

def duringStmts (ss : List Stmt) : Timeline := (recording.executeAll cfg fuel [] 0 ss).timeline

def duringCall (c : Callable) (paren : Token) (args : List Value) : Timeline :=
  (recording.call cfg fuel 0 c paren args).timeline

/-- The moments of a block that is run in the given scope. -/
def duringBlock (id : ScopeId) (body : List Stmt) : Timeline :=
  (duringStmts cfg fuel body).inScope id

def duringProgram (p : Program) : Timeline := (recording.interpret cfg fuel [] 0 p).timeline

/-- The moments of a line that is run interactively. -/
def duringLine (p : Program) : Timeline := (recording.echo cfg fuel [] p).timeline

end During

/-! ## From the parts to the whole -/

/-- The same setting with another limit for open calls. -/
def Setting.within (cfg : Setting) (limit : Option Nat) : Setting := { cfg with callLimit := limit }

/-- A relation between a recorded run under the limit `limit'` and the same run under the limit
`limit` that holds of a whole when it holds of the parts. -/
structure Compositional (limit limit' : Option Nat)
    (Rel : ∀ {α β : Type}, (α → β) → Recorded α → Eval β → Prop) : Prop where
  pure : ∀ {α β : Type} {g : α → β} (a : α), Rel g (Pure.pure a) (Pure.pure (g a))
  step : ∀ {α β : Type} {g : α → β} {x : Eval α} {y : Eval β}, x.IsStep →
    Projects id g x y → Rel g (.step x) y
  starting : ∀ {α β : Type} {g : α → β} {x : Recorded α} {y : Eval β} (s : Expr ⊕ Stmt),
    Rel g x y → Rel g (x.starting (s.elim .expr .stmt)) y
  bind : ∀ {α β γ δ : Type} {g : α → β} {h : γ → δ} {x : Recorded α} {y : Eval β}
    {k : α → Recorded γ} {l : β → Eval δ}, Rel g x y → (∀ a, Rel h (k a) (l (g a))) →
    Rel h (x >>= k) (y >>= l)
  inScope : ∀ {α β : Type} {g : α → β} {x : Recorded α} {y : Eval β} (id : ScopeId), Rel g x y →
    Rel g (x.inScope id) (Eval.inScope id y)
  activate : ∀ {α β : Type} {g : α → β} {x : Recorded α} {y : Eval β} (c : Callable)
    (paren : Token) (args : List Value), Rel g x y →
    Rel g (x.activate limit' c paren args) (Eval.activate limit paren y)

namespace Compositional

variable {limit limit' : Option Nat}
  {Rel : ∀ {α β : Type}, (α → β) → Recorded α → Eval β → Prop} {α : Type}

/-- A step that the machine takes alike in both runs. -/
theorem alike (hR : Compositional limit limit' Rel) {x : Eval α} (hx : x.IsStep) :
    Rel id (.step x) x := hR.step hx (.refl x)

theorem held (hR : Compositional limit limit' Rel) {x : Eval Value} (hx : x.IsStep) :
    Rel id (recording.held x) x := by
  have h := hR.bind (hR.alike hx) fun v => hR.pure (g := id) v
  rwa [bind_pure x] at h

theorem enclosed (hR : Compositional limit limit' Rel) (place : Place) (outer : ScopeId)
    (bs : List (String × Value)) {x : Recorded (Course Value)} {y : Eval Flow}
    (h : Rel (Course.flow id) x y) : Rel (Course.flow id) (recording.enclosed place outer bs x)
      (do let id ← Eval.enclose outer bs; Eval.inScope id y) :=
  hR.bind (hR.alike (.enclose outer bs)) fun id => hR.inScope id h

theorem applied (hR : Compositional limit limit' Rel) (number : Nat) (d : Declaration)
    (closure : ScopeId) (args : List Value) {x : Place → Recorded (Course Value)} {y : Eval Flow}
    (h : ∀ place, Rel (Course.flow id) (x place) y) :
    Rel (Course.flow id) (recording.applied number d closure args x)
      (do
        let id ← Eval.enclose closure ((d.params.map Token.lexeme).zip args)
        Eval.inScope id y) :=
  hR.enclosed [] closure _ (h [])

theorem sequential (hR : Compositional limit limit' Rel) :
    recording.Sequential (fun (_ : Unit) _ _ _ _ g x y => Rel g x y) where
  bind := hR.bind
  pure _ := hR.pure _

/-- So the relation holds of all runs. -/
theorem rules (hR : Compositional limit limit' Rel) (cfg : Setting) :
    recording.Rules Instrument.Anywhere (fun _ _ _ _ _ g x y => Rel g x y)
      (cfg.within limit') (cfg.within limit) where
  exprPart _ _ := trivial
  stmtPart _ _ _ := trivial
  toSequential := hR.sequential
  outOfFuel := hR.step .outOfFuel fun _ => rfl
  atExpr {_ _ _ e _ _} _ h := hR.starting (.inl e) h
  atStmt {_ _ _ s _ _} _ h := hR.starting (.inr s) h
  atCall _ _ h := h
  literal _ := hR.pure _
  unary _ _ := hR.held (.ofExcept _)
  binary _ _ _ := hR.held (.ofExcept _)
  ternary _ h h' := hR.sequential.branches _ _ () [] h h'
  name {_ _ _ t} _ := hR.alike (.get t)
  assign {_ _ _ t _ v} _ _ := hR.alike (.assign t v)
  notCallable _ := hR.alike (.fault _ _)
  badArity _ _ := hR.alike (.fault _ _)
  activate {_ _ _ _ _ _ _ _ f args _ _} _ _ _ _ h := hR.activate f _ args h
  clock := hR.held (.readClock _)
  apply {_ _ _ id d closure args _ _} _ _ _ h := by
    rw [map_value]
    exact hR.applied id d closure args fun place => h () place fun _ _ _ => trivial
  print := hR.alike (.printLine _)
  define _ _ _ := hR.alike (.define _ _)
  close _ := hR.alike (.close _)
  block {_ _ place _ _ _} _ h :=
    hR.bind (hR.alike .scope) fun outer => hR.enclosed place outer [] (h () fun _ _ _ => trivial)

section Runs

variable (hR : Compositional limit limit' Rel) (cfg : Setting) (fuel : Nat) (place : Place)

include hR

theorem related : recording.Related Instrument.Anywhere
    (fun _ _ _ _ _ g x y => Rel g x y) (cfg.within limit') (cfg.within limit) fuel :=
  .all (hR.rules cfg) fuel

theorem evaluate (e : Expr) : Rel id (recording.evaluate (cfg.within limit') fuel place e)
    (Treewalk.evaluate (cfg.within limit) fuel e) :=
  (hR.related cfg fuel).evaluate [] (Instrument.anywhere place (.expr e))

theorem evaluateAll (i : Nat) (es : List Expr) :
    Rel id (recording.evaluateAll (cfg.within limit') fuel place i es)
      (Treewalk.evaluateAll (cfg.within limit) fuel es) := by
  have hall : Numbered (fun n e => Instrument.Anywhere () (n :: place) (.expr e)) i es :=
    fun _ _ _ => trivial
  have h := (hR.related cfg fuel).evaluateAll [] hall
  rwa [show List.map recording.value = id from List.map_id_fun] at h

theorem call (number : Nat) (c : Callable) (paren : Token) (args : List Value) :
    Rel id (recording.call (cfg.within limit') fuel number c paren args)
      (Treewalk.call (cfg.within limit) fuel c paren args) := by
  have hargs : ∀ v ∈ args, v ∈ .callable number c :: args := fun _ => List.mem_cons_of_mem _
  have h := (hR.related cfg fuel).call
    (Instrument.anywhere [] (.expr (.call (.name paren) paren []))) (.head _) rfl hargs
  rwa [map_value] at h

theorem execute (s : Stmt) :
    Rel (Course.flow id) (recording.execute (cfg.within limit') fuel place s)
      (Treewalk.execute (cfg.within limit) fuel s) :=
  (hR.related cfg fuel).execute [] (Instrument.anywhere place (.stmt s))

theorem executeAll (i : Nat) (ss : List Stmt) :
    Rel (Course.flow id) (recording.executeAll (cfg.within limit') fuel place i ss)
      (Treewalk.executeAll (cfg.within limit) fuel ss) :=
  (hR.related cfg fuel).executeAll [] (Instrument.body_anywhere place i ss)

theorem interpret (i : Nat) (p : Program) :
    Rel id (recording.interpret (cfg.within limit') fuel place i p)
      (Treewalk.interpret (cfg.within limit) fuel p) :=
  (hR.rules cfg).interpret fuel [] (Instrument.body_anywhere place i p)

theorem echo (p : Program) : Rel id (recording.echo (cfg.within limit') fuel place p)
    (Session.echo (cfg.within limit) fuel p) :=
  (hR.rules cfg).echo fuel [] (Instrument.body_anywhere place 0 p)

end Runs

end Compositional

/-! ## Recording changes nothing -/

section Erasure

variable {α β : Type} {g : α → β} {x : Eval α} {y : Eval β}

theorem projects_inScope (scope : ScopeId) (h : Projects id g x y) :
    Projects id g (Eval.inScope scope x) (Eval.inScope scope y) := by
  intro m
  rw [inScope_eq]
  refine Eq.trans ?_ (inScope_eq scope y m).symm
  refine h.leaving ?_ _
  exact fun _ => rfl

theorem projects_activate (limit : Option Nat) (paren : Token) (h : Projects id g x y) :
    Projects id g (Eval.activate limit paren x) (Eval.activate limit paren y) := by
  intro m
  cases hlimit : limit.any (· ≤ m.depth) with
  | true =>
    rw [activate_full hlimit]
    exact (activate_full hlimit paren y).symm
  | false =>
    rw [activate_eq hlimit]
    refine Eq.trans ?_ (activate_eq hlimit paren y).symm
    refine h.leaving ?_ _
    exact fun _ => rfl

theorem compositional_runs (limit : Option Nat) :
    Compositional limit limit fun g x y => Projects id g x.run y where
  pure _ := .pure rfl
  step _ h := h
  starting _ h := h
  bind h hk := h.bind hk
  inScope id h := projects_inScope id h
  activate _ paren _ h := projects_activate limit paren h

variable (cfg : Setting) (fuel : Nat) (place : Place)

theorem runs_evaluate (e : Expr) :
    (recording.evaluate cfg fuel place e).run = evaluate cfg fuel e :=
  ((compositional_runs cfg.callLimit).evaluate cfg fuel place e).eq

theorem runs_evaluateAll (i : Nat) (es : List Expr) :
    (recording.evaluateAll cfg fuel place i es).run = evaluateAll cfg fuel es :=
  ((compositional_runs cfg.callLimit).evaluateAll cfg fuel place i es).eq

theorem runs_call (number : Nat) (c : Callable) (paren : Token) (args : List Value) :
    (recording.call cfg fuel number c paren args).run = call cfg fuel c paren args :=
  ((compositional_runs cfg.callLimit).call cfg fuel number c paren args).eq

theorem runs_execute (s : Stmt) :
    Projects id (Course.flow id) (recording.execute cfg fuel place s).run (execute cfg fuel s) :=
  (compositional_runs cfg.callLimit).execute cfg fuel place s

theorem runs_executeAll (i : Nat) (ss : List Stmt) :
    Projects id (Course.flow id) (recording.executeAll cfg fuel place i ss).run
      (executeAll cfg fuel ss) :=
  (compositional_runs cfg.callLimit).executeAll cfg fuel place i ss

theorem runs_interpret (i : Nat) (p : Program) :
    (recording.interpret cfg fuel place i p).run = interpret cfg fuel p :=
  ((compositional_runs cfg.callLimit).interpret cfg fuel place i p).eq

theorem runs_echo (p : Program) :
    (recording.echo cfg fuel place p).run = Session.echo cfg fuel p :=
  ((compositional_runs cfg.callLimit).echo cfg fuel place p).eq

theorem after_execute (s : Stmt) (m : Machine) :
    after ((recording.execute cfg fuel place s).run m) = after (execute cfg fuel s m) :=
  (runs_execute cfg fuel place s).after m

theorem after_executeAll (i : Nat) (ss : List Stmt) (m : Machine) :
    after ((recording.executeAll cfg fuel place i ss).run m) = after (executeAll cfg fuel ss m) :=
  (runs_executeAll cfg fuel place i ss).after m

end Erasure

/-! ## Open calls -/

/-- The computation leaves alone where code runs and which calls are open. -/
def Steady {α : Type} (x : Eval α) : Prop :=
  ∀ m, (after (x m)).scope = m.scope ∧ (after (x m)).depth = m.depth ∧
    (after (x m)).deepest = m.deepest

theorem Eval.IsStep.steady {α : Type} {x : Eval α} (h : x.IsStep) : Steady x := by
  intro m
  cases h with
  | ofExcept r => cases r <;> exact ⟨rfl, rfl, rfl⟩
  | get t =>
    unfold Eval.get
    split <;> exact ⟨rfl, rfl, rfl⟩
  | assign t v =>
    unfold Eval.assign
    split <;> exact ⟨rfl, rfl, rfl⟩
  | _ => exact ⟨rfl, rfl, rfl⟩

/-- The run gives the open calls back, and at each of its moments their number is in the
given relation to that at its start. -/
def StaysOpen (B : Nat → Nat → Prop) {α : Type} (x : Recorded α) : Prop :=
  ∀ m, (after (x.run m)).depth = m.depth ∧ ∀ z ∈ x.timeline m, B m.depth z.machine.depth

theorem StaysOpen.inScope {B : Nat → Nat → Prop} {α : Type} {x : Recorded α} (h : StaysOpen B x)
    (id : ScopeId) : StaysOpen B (x.inScope id) := by
  intro m
  obtain ⟨hdepth, hmoments⟩ := h { m with scope := id }
  rw [Recorded.run_inScope, inScope_eq, after_leaving]
  exact ⟨hdepth, hmoments⟩

theorem compositional_staysOpen {limit : Option Nat} {B : Nat → Nat → Prop} (hrefl : ∀ d, B d d)
    (hopen : ∀ d d', limit.any (· ≤ d) = false → B (d + 1) d' → B d d') :
    Compositional limit limit fun _ x _ => StaysOpen B x where
  pure _ _ := ⟨rfl, List.forall_mem_nil _⟩
  step h _ m := ⟨(h.steady m).2.1, List.forall_mem_nil _⟩
  starting s h m := ⟨(h m).1, List.forall_mem_cons.mpr ⟨hrefl _, (h m).2⟩⟩
  bind {_ _ _ _ _ _ x _ _ _} h hk m := by
    obtain ⟨hdepth, hmoments⟩ := h m
    rw [Recorded.run_bind, Recorded.timeline_bind, next, List.forall_mem_append, following]
    cases hx : x.run m with
    | ok a m₁ =>
      rw [hx] at hdepth
      obtain ⟨hdepth', hmoments'⟩ := hk a m₁
      rw [show m₁.depth = m.depth from hdepth] at hdepth' hmoments'
      rw [bind_of_ok hx]
      exact ⟨hdepth', hmoments, hmoments'⟩
    | error e m₁ =>
      rw [hx] at hdepth
      rw [bind_of_error hx]
      exact ⟨hdepth, hmoments, List.forall_mem_nil _⟩
  inScope id h := h.inScope id
  activate c paren args h m := by
    obtain ⟨hdepth, hmoments⟩ := h m.enter
    rw [Recorded.run_activate, Recorded.timeline_activate, Timeline.activate]
    cases hlimit : limit.any (· ≤ m.depth) with
    | true =>
      rw [activate_full hlimit]
      exact ⟨rfl, List.forall_mem_nil _⟩
    | false =>
      have hroom := hopen m.depth
      rw [activate_eq hlimit, after_leaving]
      refine ⟨Nat.sub_eq_of_eq_add hdepth, List.forall_mem_cons.mpr ⟨?_, fun z hz => ?_⟩⟩
      · exact hroom _ hlimit (hrefl _)
      · exact hroom _ hlimit (hmoments z hz)

/-- How many calls are open because of the event, if it opens one. -/
def Moment.opened (z : Moment) : Nat :=
  match z.event with
  | .call .. => z.machine.depth
  | _ => 0

theorem Moment.opened_elim (s : Expr ⊕ Stmt) (m : Machine) :
    Moment.opened ⟨s.elim .expr .stmt, m⟩ = 0 := by
  cases s <;> rfl

/-- The machine counts the open calls as the timeline does. -/
def CountsOpen {α : Type} (x : Recorded α) : Prop :=
  ∀ m, (after (x.run m)).deepest = (x.timeline m).foldl (fun d z => max d z.opened) m.deepest

theorem CountsOpen.inScope {α : Type} {x : Recorded α} (h : CountsOpen x) (id : ScopeId) :
    CountsOpen (x.inScope id) := by
  intro m
  rw [Recorded.run_inScope, inScope_eq, after_leaving]
  exact h { m with scope := id }

theorem compositional_countsOpen (limit : Option Nat) :
    Compositional limit limit fun _ x _ => CountsOpen x where
  pure _ _ := rfl
  step h _ m := (h.steady m).2.2
  starting s h m := by
    rw [Recorded.timeline_starting, Timeline.starting, List.foldl_cons, Moment.opened_elim, Nat.max_zero]
    exact h m
  bind {_ _ _ _ _ _ x _ _ _} h hk m := by
    have hm := h m
    rw [Recorded.run_bind, Recorded.timeline_bind, next, List.foldl_append, following]
    cases hx : x.run m with
    | ok a m₁ =>
      rw [hx] at hm
      rw [bind_of_ok hx, hk a m₁, ← hm]
      rfl
    | error e m₁ =>
      rw [hx] at hm
      rw [bind_of_error hx, ← hm]
      rfl
  inScope id h := h.inScope id
  activate c paren args h m := by
    rw [Recorded.run_activate, Recorded.timeline_activate, Timeline.activate]
    cases hlimit : limit.any (· ≤ m.depth) with
    | true =>
      rw [activate_full hlimit]
      rfl
    | false =>
      rw [activate_eq hlimit, after_leaving]
      exact h m.enter

end Treewalk
