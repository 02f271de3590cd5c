import Treewalk.Proofs.Machine.Noted
import Treewalk.Proofs.Scoping.Place

/-!
# Watched runs

A watched run does what a run does and takes notes: for each scope the place of the
block or function whose execution opened it, for each callable the place of its
declaration, and a sight of the machine whenever a statement or an expression begins
and ends. The notes have no influence on the run; forgetting them gives the run
itself.

Results:

* `faithful_watching`: watching does not change what a run does.
* `machine_watchFrom`: the machine after a watched session is the one that running
  its inputs in turn ends with.
-/
namespace Treewalk

namespace Scoping

/-- A machine with the notes about its scopes and callables. -/
structure Picture where
  machine : Machine
  /-- The block or function whose execution opened a scope. -/
  label : ScopeId → Place
  /-- Where a callable was declared. -/
  origin : Nat → Place

/-- What is seen when a part of the source begins or ends. -/
structure Sight where
  place : Place
  part : Node
  picture : Picture
  /-- The values that the part has ended with. -/
  values : List Value

structure Watch extends Picture where
  /-- All that was seen so far, last sight first. -/
  sights : List Sight

instance : Noted Watch where
  machine w := w.machine
  on w m := { w with machine := m }
  machine_on _ _ := rfl

abbrev Watching := Noting Watch

/-- Take a sight of a part of the source. -/
def Watch.look (place : Place) (part : Node) (w : Watch) (values : List Value) : Watch :=
  { w with sights := ⟨place, part, w.toPicture, values⟩ :: w.sights }

theorem Watch.machine_look (place : Place) (part : Node) (w : Watch) (values : List Value) :
    Noted.machine (look place part w values) = Noted.machine w := rfl

namespace Watching

/-- Open a scope for the part at a place. -/
def enclose (place : Place) (outer : ScopeId) (bindings : List (String × Value)) :
    Watching ScopeId := fun w =>
  let (id, store) := w.machine.store.enclose outer
  .ok id { w with
    machine := { w.machine with store := store.defineAll id bindings }
    label := fun i => if i = id then place else w.label i }

/-- Make a function of the declaration at a place. -/
def close (place : Place) (d : Declaration) : Watching Value := fun w =>
  .ok (.callable w.machine.created (.function d w.machine.scope)) { w with
    machine := { w.machine with created := w.machine.created + 1 }
    origin := fun i => if i = w.machine.created then place else w.origin i }

/-- Where a callable was declared. -/
def originOf (id : Nat) : Watching Place := fun w => .ok (w.origin id) w

end Watching

/-- Takes sights of the statements and expressions that begin and end. -/
def watching : Instrument Watching Value where
  toHolding := .bare
  plain := Noting.plain
  get t := Noting.plain (Eval.get t)
  assign t v := Noting.plain (Eval.assign t v)
  define name v := Noting.plain (Eval.define name v)
  close := Watching.close
  origin := Watching.originOf
  enclose := Watching.enclose
  inScope := Noting.inScope
  activate limit _ paren _ := Noting.activate limit paren
  atExpr place e := Noting.seen (Watch.look place (.expr e)) [] ([·])
  atStmt place s := Noting.seen (Watch.look place (.stmt s)) [] Course.values
  atCall _ _ x := x

variable (cfg : Setting)

/-! ## Sessions -/

/-- A parsed program that is run as a script or as a line, with fuel of its own. -/
structure Input where
  tokens : List Token
  program : Program
  parsed : parse tokens = .ok program
  interactive : Bool
  fuel : Nat

def Input.run (input : Input) : Eval Unit :=
  if input.interactive then Session.echo cfg input.fuel input.program
  else interpret cfg input.fuel input.program

/-- Run an input, which is program number `i` of the session, with an instrument. -/
def Input.runWith {M : Type → Type} [Monad M] {H : Type} (I : Instrument M H) (i : Nat)
    (input : Input) : M Unit :=
  if input.interactive then I.echo cfg input.fuel [i] input.program
  else I.interpret cfg input.fuel [i] 0 input.program

/-- Before the first input. -/
def Watch.initial : Watch where
  machine := Machine.initial
  label := fun _ => []
  origin := fun _ => []
  sights := []

/-- Watch inputs, from number `i` of the session on, one after the other, however each of
them ends. -/
def watchFrom (w : Watch) : Nat → List Input → Watch
  | _, [] => w
  | i, input :: inputs => watchFrom (after (input.runWith cfg watching i w)) (i + 1) inputs

/-- Watch a session. -/
def watchSession (inputs : List Input) : Watch := watchFrom cfg .initial 0 inputs

/-- The source of a session. -/
def sessionSource (inputs : List Input) : Node := .session (inputs.map Input.program)

/-! ## Forgetting the notes -/

/-- What holds of all runs with an instrument holds of those of an input. -/
theorem rules_input {M : Type → Type} [Monad M] {H C : Type} {I : Instrument M H}
    {Part : C → Place → Node → Prop}
    {R : C → List H → ∀ {α β : Type}, (α → List H) → (α → β) → M α → Eval β → Prop}
    {cfg cfg' : Setting} (hR : I.Rules Part R cfg cfg') {c : C} {i : Nat} {input : Input}
    (h : Instrument.Body Part c [i] 0 input.program) :
    R c [] (fun _ => []) id (input.runWith cfg I i) (input.run cfg') := by
  unfold Input.runWith Input.run
  split
  · exact hR.echo input.fuel [] h
  · exact hR.interpret input.fuel [] h

/-- With a faithful instrument an input does what it does without. -/
theorem projects_input {σ H : Type} [Noted σ] {I : Instrument (Noting σ) H} (hI : I.Faithful)
    (i : Nat) (input : Input) :
    Projects Noted.machine id (input.runWith cfg I i) (input.run cfg) :=
  rules_input (hI.rules cfg) (Instrument.body_anywhere [i] 0 input.program)

theorem faithful_watching : watching.Faithful where
  plain _ := rfl
  get _ := Noting.projects_plain _
  assign _ _ := Noting.projects_plain _
  define name v := Noting.projects_plain (Eval.define name v)
  close _ _ _ := rfl
  origin id w := ⟨w.origin id, rfl⟩
  enclose _ outer bs w := by
    rw [show (bs.map fun b => (b.1, watching.value b.2)) = bs from List.map_id bs]
    rfl
  inScope := rfl
  activate _ _ _ _ := rfl
  atExpr place e _ _ h := Noting.projects_seen (Watch.machine_look place (.expr e)) [] _ h
  atStmt place s _ _ h := Noting.projects_seen (Watch.machine_look place (.stmt s)) [] _ h
  atCall _ _ _ _ h := h

/-- The machine after a watched session is the one that running its inputs in turn ends
with. -/
theorem machine_watchFrom (w : Watch) (i : Nat) (inputs : List Input) :
    (watchFrom cfg w i inputs).machine =
      inputs.foldl (fun m input => after (input.run cfg m)) w.machine := by
  induction inputs generalizing w i with
  | nil => rfl
  | cons input inputs ih =>
    have hinput : (after (input.runWith cfg watching i w)).machine = _ :=
      (projects_input cfg faithful_watching i input).after w
    rw [watchFrom, ih, List.foldl_cons, hinput]
    rfl

end Scoping

end Treewalk
