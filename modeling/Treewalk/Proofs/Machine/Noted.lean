import Treewalk.Proofs.Machine.Instrument
import Treewalk.Proofs.Machine.Primitives

/-!
# Runs that take notes

Some instruments keep notes in the state, beside the machine. They take the steps of the machine
and go into and out of scopes and calls as it does, and they look at the state where something
begins and ends. An instrument is `Faithful` if its notes have no influence on the machine:
forgetting them gives the run itself.

Results:

* `projects_inScope`, `projects_activate`: scopes and calls, with more or with less in the state.
* `Instrument.Faithful.rules`: no run with a faithful instrument does anything else.
-/
namespace Treewalk

/-- A state with a machine in it. -/
class Noted (σ : Type) where
  machine : σ → Machine
  /-- The same notes, on another machine. -/
  on : σ → Machine → σ
  machine_on : ∀ w m, machine (on w m) = m

open Noted

/-- Computations that take notes. -/
abbrev Noting (σ : Type) := EStateM Stop σ

namespace Noting

variable {σ : Type} [Noted σ] {H α : Type}

/-- Take no notes. -/
def plain (x : Eval α) : Noting σ α := fun w =>
  match x (machine w) with
  | .ok a m => .ok a (on w m)
  | .error e m => .error e (on w m)

/-- Look at the state and at the values that are held, before and after. -/
def seen (look : σ → List H → σ) (held : List H) (values : α → List H) (x : Noting σ α) :
    Noting σ α := fun w =>
  match x (look w held) with
  | .ok a w => .ok a (look w (values a))
  | .error e w => .error e (look w [])

/-- The same notes, on the machine with a change. -/
def update (f : Machine → Machine) (w : σ) : σ := on w (f (machine w))

def inScope (id : ScopeId) (body : Noting σ α) : Noting σ α := fun w =>
  leaving (update ({ · with scope := (machine w).scope }))
    (body (update ({ · with scope := id }) w))

def activate (limit : Option Nat) (paren : Token) (body : Noting σ α) : Noting σ α := fun w =>
  if limit.any (· ≤ (machine w).depth) then .error (.error ⟨paren, .stackOverflow⟩) w
  else leaving (update Machine.leave) (body (update Machine.enter w))

end Noting

namespace Noting

variable {σ : Type} [Noted σ] {α : Type} {x : Eval α} {w : σ} {m : Machine}

theorem plain_ok {a : α} (h : x (machine w) = .ok a m) : plain x w = .ok a (on w m) := by
  unfold plain
  rw [h]

theorem plain_error {e : Stop} (h : x (machine w) = .error e m) :
    plain x w = .error e (on w m) := by
  unfold plain
  rw [h]

end Noting

/-! ## Forgetting the notes -/

namespace Noting

variable {σ : Type} [Noted σ] {H α β : Type} {g : α → β} {x : Noting σ α} {y : Eval β}

theorem machine_update (f : Machine → Machine) (w : σ) : machine (update f w) = f (machine w) :=
  machine_on w _

theorem projects_plain (x : Eval α) : Projects (machine (σ := σ)) id (plain x) x := by
  intro w
  unfold plain
  cases x (machine w) with
  | ok a m | error e m => simp only [viewed, machine_on, id]

/-- A step that stops has no result that could be held otherwise. -/
theorem projects_outOfFuel :
    Projects (machine (σ := σ)) g (plain Eval.outOfFuel) Eval.outOfFuel := by
  intro w
  exact congrArg (EStateM.Result.error Stop.outOfFuel) (machine_on w _)

theorem projects_fault {g : α → β} (t : Token) (f : Fault) :
    Projects (machine (σ := σ)) g (plain (Eval.fault t f)) (Eval.fault t f) := by
  intro w
  exact congrArg (EStateM.Result.error (Stop.error ⟨t, f⟩)) (machine_on w _)

theorem projects_seen {look : σ → List H → σ} (hlook : ∀ w hs, machine (look w hs) = machine w)
    (held : List H) (values : α → List H) (h : Projects machine g x y) :
    Projects machine g (seen look held values x) y := by
  intro w
  have hw := h (look w held)
  rw [hlook] at hw
  rw [← hw]
  unfold seen
  cases x (look w held) with
  | ok a w' | error e w' => simp only [viewed, hlook]

theorem projects_inScope (id : ScopeId) (h : Projects machine g x y) :
    Projects machine g (inScope id x) (Eval.inScope id y) := by
  intro w
  refine Eq.trans ?_ (inScope_eq id y (machine w)).symm
  refine (h.leaving (machine_update _) _).trans ?_
  rw [machine_update]

theorem projects_activate (limit : Option Nat) (paren : Token) (h : Projects machine g x y) :
    Projects machine g (activate limit paren x) (Eval.activate limit paren y) := by
  intro w
  unfold activate
  cases hroom : limit.any (· ≤ (machine w).depth) with
  | true => exact (activate_full hroom paren y).symm
  | false =>
    refine Eq.trans ?_ (activate_eq hroom paren y).symm
    refine (h.leaving (machine_update _) _).trans ?_
    rw [machine_update]

theorem sequential_projects (I : Instrument (Noting σ) H) :
    I.Sequential (fun (_ : Unit) _ _ _ _ g x y => Projects machine g x y) where
  bind := .bind
  pure _ := .pure rfl

end Noting

/-! ## Faithful instruments -/

open Noting

section Faithful

variable {σ H : Type} [Noted σ]

/-- The steps are those of the machine, as far as the machine goes. -/
structure Instrument.Faithful (I : Instrument (Noting σ) H) : Prop where
  plain : ∀ {α : Type} (x : Eval α), I.plain x = Noting.plain x
  get : ∀ t, Projects machine I.value (I.get t) (Eval.get t)
  assign : ∀ t h, Projects machine id (I.assign t h) (Eval.assign t (I.value h))
  define : ∀ name h, Projects machine id (I.define name h) (Eval.define name (I.value h))
  close : ∀ place d, Projects machine I.value (I.close place d) (Eval.close d)
  origin : ∀ id w, ∃ place, I.origin id w = .ok place w
  enclose : ∀ place outer bs, Projects machine id (I.enclose place outer bs)
    (Eval.enclose outer (bs.map fun b => (b.1, I.value b.2)))
  inScope : I.inScope = Noting.inScope
  activate : ∀ limit c paren args, I.activate limit c paren args = Noting.activate limit paren
  atExpr : ∀ place e {x : Noting σ H} {y : Eval Value}, Projects machine I.value x y →
    Projects machine I.value (I.atExpr place e x) y
  atStmt : ∀ place s {x : Noting σ (Course H)} {y : Eval Flow},
    Projects machine (Course.flow I.value) x y →
    Projects machine (Course.flow I.value) (I.atStmt place s x) y
  atCall : ∀ f args {x : Noting σ H} {y : Eval Value}, Projects machine I.value x y →
    Projects machine I.value (I.atCall f args x) y

namespace Instrument.Faithful

variable {I : Instrument (Noting σ) H} (hI : I.Faithful)

include hI

/-- What is held for the result of a step is that result. -/
theorem held (x : Eval Value) {k : Value → H} (hk : ∀ v, I.value (k v) = v) :
    Projects machine I.value (do let v ← I.plain x; pure (k v)) x := by
  have h : Projects (machine (σ := σ)) I.value (do let v ← I.plain x; pure (k v))
      (x >>= fun v => pure v) := by
    rw [hI.plain]
    exact (projects_plain x).bind fun v => .pure (hk v)
  rwa [bind_pure] at h

theorem enclosed (place : Place) (outer : ScopeId) (bs : List (String × H))
    {x : Noting σ (Course H)} {y : Eval Flow} (h : Projects machine (Course.flow I.value) x y) :
    Projects machine (Course.flow I.value) (I.enclosed place outer bs x)
      (do
        let id ← Eval.enclose outer (bs.map fun b => (b.1, I.value b.2))
        Eval.inScope id y) := by
  refine (hI.enclose place outer bs).bind fun id => ?_
  rw [hI.inScope]
  exact projects_inScope id h

theorem rules (cfg : Setting) :
    I.Rules Anywhere (fun _ _ _ _ _ g x y => Projects machine g x y) cfg cfg where
  exprPart _ _ := trivial
  stmtPart _ _ _ := trivial
  toSequential := sequential_projects I
  outOfFuel := by
    intros
    rw [hI.plain]
    exact projects_outOfFuel
  atExpr _ h := hI.atExpr _ _ h
  atStmt _ h := hI.atStmt _ _ h
  atCall _ _ h := hI.atCall _ _ h
  literal _ := .pure (I.value_hold _)
  unary _ _ := hI.held _ I.value_hold
  binary _ _ _ := hI.held _ (I.value_join _ _)
  ternary _ h h' := (sequential_projects I).branches _ _ () [] h h'
  name _ := hI.get _
  assign _ _ := hI.assign _ _
  notCallable _ := by
    rw [hI.plain]
    exact projects_fault _ _
  badArity _ _ := by
    rw [hI.plain]
    exact projects_fault _ _
  activate _ _ _ _ h := by
    rw [hI.activate]
    exact projects_activate _ _ h
  clock := hI.held _ I.value_hold
  apply {_ _ _ id d closure args _ _} _ _ _ h := by
    intro w
    obtain ⟨place, hplace⟩ := hI.origin id w
    rw [Instrument.applied, bind_of_ok hplace, List.zip_map_right]
    exact hI.enclosed place closure _ (h () place (body_anywhere place 0 d.body)) w
  print := by
    intros
    rw [hI.plain]
    exact projects_plain _
  define _ _ _ := hI.define _ _
  close _ := hI.close _ _
  block {_ _ place body _ _} _ h := by
    rw [hI.plain]
    exact (projects_plain _).bind fun outer =>
      hI.enclosed place outer [] (h () (body_anywhere place 0 body))

end Instrument.Faithful

end Faithful

end Treewalk
