import Treewalk.Proofs.Machine.Timeline
import Treewalk.Proofs.Machine.Upheld

/-!
# Standards throughout a run

Whatever runs on a machine whose variables meet a kept standard upholds the standard. It is
also met on the way: by the machine at every moment, and by what begins then.

Results:

* `Standard.rules`: both hold of all runs, since they do of the steps.
* `Standard.UpholdsAt.all`, `Standard.upholds_interpret`, `Standard.upholds_echo`: expressions,
  statements, programs and lines uphold a kept standard.
* `Standard.throughout_program`, `Standard.throughout_line`: it holds throughout programs and
  lines.
-/
namespace Treewalk

open Timeline

namespace Standard

variable {S : Standard}

/-- What begins meets the standard. -/
def Begins (S : Standard) : Event → Prop
  | .expr e => S.expr e
  | .stmt s => S.stmt s
  | .call c _ args => (∃ id, S.value (.callable id c)) ∧ ∀ v ∈ args, S.value v

/-- The machine meets the standard, and so does what begins. -/
def Holds (S : Standard) (z : Moment) : Prop := S.Meets z.machine.store ∧ S.Begins z.event

/-- The standard holds at all moments, if the machine meets it at the start. -/
def Throughout (S : Standard) (t : Timeline) : Prop :=
  ∀ m, S.Meets m.store → ∀ z ∈ t m, S.Holds z

/-- The run upholds the standard, which holds throughout. -/
structure Sustains {α : Type} (S : Standard) (post : α → Prop) (x : Recorded α) : Prop where
  upholds : S.Upholds post x.run
  throughout : S.Throughout x.timeline

/-! ## Rules for recorded runs -/

section Rules

variable {α β : Type} {post : α → Prop} {x : Recorded α}

theorem sustains_pure {a : α} (h : post a) : S.Sustains post (pure a) :=
  ⟨upholds_pure h, fun _ _ => List.forall_mem_nil _⟩

theorem sustains_step {x : Eval α} (h : S.Upholds post x) : S.Sustains post (.step x) :=
  ⟨h, fun _ _ => List.forall_mem_nil _⟩

theorem Sustains.imp {post' : α → Prop} (h : S.Sustains post x) (hpost : ∀ a, post a → post' a) :
    S.Sustains post' x :=
  ⟨h.upholds.imp hpost, h.throughout⟩

/-- A value that meets the standard is all that is held. -/
theorem Sustains.one {x : Recorded Value} (h : S.Sustains S.value x) :
    S.Sustains (fun a => ∀ v ∈ [a], S.value v) x :=
  h.imp fun _ => List.forall_mem_singleton.mpr

/-- No value is held. -/
theorem Sustains.none (h : S.Sustains (fun _ => True) x) :
    S.Sustains (fun _ => ∀ v ∈ [], S.value v) x :=
  h.imp fun _ _ => List.forall_mem_nil _

theorem sustains_bind {post' : β → Prop} {k : α → Recorded β} (hx : S.Sustains post x)
    (hk : ∀ a, post a → S.Sustains post' (k a)) : S.Sustains post' (x >>= k) := by
  refine ⟨upholds_bind hx.upholds fun a ha => (hk a ha).upholds, fun m hm => ?_⟩
  refine List.forall_mem_append.mpr ⟨hx.throughout m hm, ?_⟩
  have h := hx.upholds m hm
  unfold following
  cases hr : x.run m with
  | ok a m₁ =>
    rw [hr] at h
    exact (hk a h.1).throughout m₁ h.2
  | error e m₁ => exact List.forall_mem_nil _

theorem sustains_held {x : Eval Value} (h : S.Upholds S.value x) :
    S.Sustains S.value (recording.held x) :=
  sustains_bind (sustains_step h) fun _ hv => sustains_pure hv

theorem sustains_starting {e : Event} (he : S.Begins e) (hx : S.Sustains post x) :
    S.Sustains post (x.starting e) :=
  ⟨hx.upholds, fun m hm => List.forall_mem_cons.mpr ⟨⟨hm, he⟩, hx.throughout m hm⟩⟩

theorem sustains_inScope (id : ScopeId) (hx : S.Sustains post x) :
    S.Sustains post (x.inScope id) :=
  ⟨upholds_inScope id hx.upholds, fun m hm => hx.throughout { m with scope := id } hm⟩

theorem sustains_activate (limit : Option Nat) {c : Callable} {paren : Token}
    {args : List Value} (hbegins : S.Begins (.call c paren args))
    (hparen : S.stop (.error ⟨paren, .stackOverflow⟩)) (hx : S.Sustains post x) :
    S.Sustains post (x.activate limit c paren args) := by
  refine ⟨upholds_activate limit hparen hx.upholds, fun m hm => ?_⟩
  rw [Recorded.timeline_activate, activate]
  split
  · exact List.forall_mem_nil _
  · exact (sustains_starting hbegins hx).throughout m.enter hm

theorem sustains_enclosed {post : Course Value → Prop} (place : Place) (outer : ScopeId)
    {bs : List (String × Value)} {x : Recorded (Course Value)} (hbs : ∀ b ∈ bs, S.value b.2)
    (hx : S.Sustains post x) : S.Sustains post (recording.enclosed place outer bs x) :=
  sustains_bind (sustains_step (upholds_enclose outer hbs)) fun id _ => sustains_inScope id hx

end Rules

/-! ## Runs -/

/-- The part of the source meets the standard. -/
def Part (S : Standard) (_ : Unit) (_ : Place) : Node → Prop
  | .expr e => S.expr e
  | .stmt s => S.stmt s
  | _ => True

theorem body_of_forall {ss : List Stmt} (h : ∀ s ∈ ss, S.stmt s) (place : Place) (i : Nat) :
    Instrument.Body S.Part () place i ss :=
  fun _ s hs => h s (List.mem_of_getElem? hs)

theorem sequential (hS : S.Kept) :
    recording.Sequential fun (_ : Unit) vs _ _ f _ x _ =>
      (∀ v ∈ vs, S.value v) → S.Sustains (fun a => ∀ v ∈ f a, S.value v) x where
  bind hx hk hvs := sustains_bind (hx hvs) fun a ha =>
    hk a (List.forall_mem_append.mpr ⟨ha, hvs⟩)
  pure h hvs := sustains_pure fun v hv => by
    obtain hv | rfl := h v hv
    · exact hvs v hv
    · exact hS.nil

theorem rules (hS : S.Kept) (cfg : Setting) :
    recording.Rules S.Part
      (fun _ vs _ _ f _ x _ => (∀ v ∈ vs, S.value v) → S.Sustains (fun a => ∀ v ∈ f a, S.value v) x)
      cfg cfg where
  exprPart h hi := hS.exprParts h _ (List.mem_of_getElem? hi)
  stmtPart h hs hi := by
    have hnode := List.mem_of_getElem? hi
    rw [Node.nodes_eq hs, List.mem_append, List.mem_map, List.mem_map] at hnode
    obtain ⟨e, he, rfl⟩ | ⟨t, ht, rfl⟩ := hnode
    · exact hS.stmtExprs h e he
    · exact hS.stmtParts h t ht
  toSequential := sequential hS
  outOfFuel _ := sustains_step (upholds_outOfFuel hS)
  atExpr he h hvs := sustains_starting he (h hvs)
  atStmt hs h hvs := sustains_starting hs (h hvs)
  atCall _ _ h := h
  literal h _ := sustains_pure (List.forall_mem_singleton.mpr (hS.literal h))
  unary h hr hvs := (sustains_held (upholds_ofExcept (hS.unary h (hvs _ hr)))).one
  binary h hl hr hvs :=
    (sustains_held (upholds_ofExcept (hS.binary h (hvs _ hl) (hvs _ hr)))).one
  ternary _ h h' := (sequential hS).branches_alone _ _ () _ h h'
  name h _ := (sustains_step (upholds_get (hS.name h))).one
  assign h hv hvs := (sustains_step (upholds_assign (hS.assign h) (hvs _ hv))).none
  notCallable h _ := sustains_step (upholds_fault (hS.call h).notCallable)
  badArity h harity _ := sustains_step (upholds_fault ((hS.call h).badArity _ _ harity))
  activate {_ _ _ _ _ _ v id f _ _ _} h hv hf hargs hx hvs := by
    obtain rfl : v = .callable id f := hf
    exact sustains_activate _ ⟨⟨id, hvs _ hv⟩, fun u hu => hvs u (hargs u hu)⟩
      (hS.call h).stackOverflow (hx hvs)
  clock _ := (sustains_held (upholds_readClock hS cfg)).one
  apply {_ _ v id d closure args _ _} hv hf hargs hx hvs := by
    obtain rfl : v = .callable id (.function d closure) := hf
    have hbs : ∀ b ∈ (d.params.map Token.lexeme).zip args, S.value b.2 := fun b hb =>
      hvs b.2 (hargs b.2 (List.of_mem_zip hb).2)
    have hbody := body_of_forall (hS.body (hvs _ hv)) [] 0
    exact sustains_enclosed [] closure hbs (hx () [] hbody (List.forall_mem_nil _))
  print _ := (sustains_step (upholds_printLine _)).none
  define {_ _ _ _ name v} _ _ hv hvs := by
    refine (sustains_step (upholds_define name ?_)).none
    obtain hv | rfl := hv
    · exact hvs v hv
    · exact hS.nil
  close h _ := (sustains_step (upholds_close (hS.function h))).one
  block {_ _ place body _ _} h hx hvs := by
    have hbody := body_of_forall (hS.stmtParts h) place 0
    exact sustains_bind (sustains_step upholds_scope) fun outer _ =>
      sustains_enclosed place outer (List.forall_mem_nil _) (hx () hbody (List.forall_mem_nil _))

section Runs

/-- What the recorded run upholds, the run itself upholds. -/
theorem Upholds.of_projects {α β : Type} {g : α → β} {x : Eval α} {y : Eval β}
    {post : α → Prop} {post' : β → Prop} (hx : S.Upholds post x) (h : Projects id g x y)
    (hpost : ∀ a, post a → post' (g a)) : S.Upholds post' y := by
  intro m hm
  have hends := hx m hm
  have hy : _ = y m := h m
  rw [← hy]
  cases hr : x m with
  | ok a m' =>
    rw [hr] at hends
    exact ⟨hpost a hends.1, hends.2⟩
  | error e m' =>
    rw [hr] at hends
    exact hends

/-- Whatever runs with the given fuel upholds the standard. -/
structure UpholdsAt (S : Standard) (cfg : Setting) (fuel : Nat) : Prop where
  evaluate : ∀ {e}, S.expr e → S.Upholds S.value (evaluate cfg fuel e)
  evaluateAll : ∀ {es}, (∀ e ∈ es, S.expr e) →
    S.Upholds (fun vs => ∀ v ∈ vs, S.value v) (evaluateAll cfg fuel es)
  execute : ∀ {s}, S.stmt s → S.Upholds S.Flows (execute cfg fuel s)
  executeAll : ∀ {ss}, (∀ s ∈ ss, S.stmt s) → S.Upholds S.Flows (executeAll cfg fuel ss)

theorem flows_of_values {r : Course Value} (h : ∀ v ∈ r.values, S.value v) :
    S.Flows (r.flow id) := by
  cases r with
  | normal => trivial
  | returned v => exact h v (.head _)

theorem UpholdsAt.all (hS : S.Kept) {cfg : Setting} (fuel : Nat) : S.UpholdsAt cfg fuel := by
  have h : recording.Related S.Part _ cfg cfg fuel := .all (rules hS cfg) fuel
  have hvs : ∀ v ∈ [], S.value v := List.forall_mem_nil _
  refine ⟨fun he => ?_, fun hes => ?_, fun hs => ?_, fun hss => ?_⟩
  · have he : S.Part () [] (.expr _) := he
    have hx := (h.evaluate [] he hvs).upholds
    rw [runs_evaluate] at hx
    exact hx.of_projects (.refl _) fun v hv => hv v (.head _)
  · have hes : Numbered (fun n e => S.Part () [n] (.expr e)) 0 _ := fun _ e he =>
      hes e (List.mem_of_getElem? he)
    have hx := (h.evaluateAll [] hes hvs).upholds
    rwa [runs_evaluateAll] at hx
  · have hs : S.Part () [] (.stmt _) := hs
    exact (h.execute [] hs hvs).upholds.of_projects (runs_execute cfg fuel [] _)
      fun _ => flows_of_values
  · exact (h.executeAll [] (body_of_forall hss [] 0) hvs).upholds.of_projects
      (runs_executeAll cfg fuel [] 0 _) fun _ => flows_of_values

variable (hS : S.Kept) (cfg : Setting) (fuel : Nat) {p : Program} (hp : ∀ s ∈ p, S.stmt s)

include hS hp

theorem sustains_program :
    S.Sustains (fun _ => True) (recording.interpret cfg fuel [] 0 p) := by
  have h := (rules hS cfg).interpret fuel [] (body_of_forall hp [] 0) (List.forall_mem_nil _)
  exact h.imp fun _ _ => trivial

theorem sustains_line : S.Sustains (fun _ => True) (recording.echo cfg fuel [] p) := by
  have h := (rules hS cfg).echo fuel [] (body_of_forall hp [] 0) (List.forall_mem_nil _)
  exact h.imp fun _ _ => trivial

/-- Programs uphold the standard. -/
theorem upholds_interpret : S.Upholds (fun _ => True) (interpret cfg fuel p) := by
  rw [← runs_interpret cfg fuel [] 0 p]
  exact (sustains_program hS cfg fuel hp).upholds

/-- So do lines. -/
theorem upholds_echo : S.Upholds (fun _ => True) (Session.echo cfg fuel p) := by
  rw [← runs_echo cfg fuel [] p]
  exact (sustains_line hS cfg fuel hp).upholds

/-- The standard holds throughout a program. -/
theorem throughout_program : S.Throughout (duringProgram cfg fuel p) :=
  (sustains_program hS cfg fuel hp).throughout

/-- The standard holds throughout a line. -/
theorem throughout_line : S.Throughout (duringLine cfg fuel p) :=
  (sustains_line hS cfg fuel hp).throughout

end Runs

end Standard

end Treewalk
