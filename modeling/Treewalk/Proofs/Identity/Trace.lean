import Treewalk.Proofs.Scoping.Session

/-!
# Runs that trace callables

A traced run does what a run does and follows the callables on their way: each execution of a
function declaration is counted and makes one callable, and the callable keeps the number of
that execution as its origin wherever it goes, into variables, arguments and results. Where a
callable stems from is noted beside the values, never looked up in them, and has no influence
on the run; forgetting it gives the run itself.

Results:

* `faithful_tracing`: tracing does not change what a run does.
* `machine_traceSession`: the machine after a traced session is the one that running its
  inputs in turn ends with.
-/
namespace Treewalk

namespace Identity

open Scoping (Input projects_input)

/-- Where a callable stems from. -/
inductive Origin where
  /-- The native function, of which a session has one. -/
  | clock
  /-- An execution of a function declaration; those of a session are counted from 0 on. -/
  | execution (n : Nat)
  deriving DecidableEq

/-- A value together with where it stems from, if it is a callable. -/
structure Held where
  value : Value
  origin : Option Origin

/-- A value that is no callable. -/
def Held.plain (v : Value) : Held := ⟨v, none⟩

structure Snapshot where
  machine : Machine
  /-- The function declarations executed so far, each with the scope it was executed in. -/
  executions : List (Declaration × ScopeId)
  /-- Where the callables stem from that variables hold. -/
  origins : ScopeId → String → Option Origin

/-- What code holds when a part of it begins or ends. -/
structure Sight extends Snapshot where
  values : List Held

structure Trace extends Snapshot where
  /-- All that was seen so far, last sight first. -/
  sights : List Sight

instance : Noted Trace where
  machine w := w.machine
  on w m := { w with machine := m }
  machine_on _ _ := rfl

abbrev Tracing := Noting Trace

namespace Trace

/-- Look at the machine and at values that code holds. -/
def look (w : Trace) (values : List Held) : Trace :=
  { w with sights := ⟨w.toSnapshot, values⟩ :: w.sights }

/-- Bind a name. -/
def define (w : Trace) (id : ScopeId) (name : String) (h : Held) : Trace :=
  { w with
    machine := { w.machine with store := w.machine.store.define id name h.value }
    origins := fun i x => if i = id ∧ x = name then h.origin else w.origins i x }

/-- Bind several names in a scope, in order. -/
def defineAll (w : Trace) (id : ScopeId) (bindings : List (String × Held)) : Trace :=
  bindings.foldl (fun w b => w.define id b.1 b.2) w

end Trace

namespace Tracing

def get (name : Token) : Tracing Held := fun w =>
  match w.machine.store.get w.machine.scope name with
  | .ok v => .ok ⟨v, (w.machine.store.owner? w.machine.scope name.lexeme).bind fun owner =>
      w.origins owner name.lexeme⟩ w
  | .error e => .error (.error e) w

def assign (name : Token) (h : Held) : Tracing Unit := fun w =>
  match w.machine.store.owner? w.machine.scope name.lexeme with
  | some owner => .ok () (w.define owner name.lexeme h)
  | none => .error (.error (.undefined name)) w

def define (name : String) (h : Held) : Tracing Unit := fun w =>
  .ok () (w.define w.machine.scope name h)

/-- One more execution of a function declaration. -/
def close (d : Declaration) : Tracing Held := fun w =>
  .ok ⟨.callable w.machine.created (.function d w.machine.scope),
      some (.execution w.executions.length)⟩
    { w with
      machine := { w.machine with created := w.machine.created + 1 }
      executions := w.executions ++ [(d, w.machine.scope)] }

def enclose (outer : ScopeId) (bindings : List (String × Held)) : Tracing ScopeId := fun w =>
  let (id, store) := w.machine.store.enclose outer
  .ok id ({ w with machine := { w.machine with store } }.defineAll id bindings)

end Tracing

/-- Follows the callables, and looks where expressions, statements and calls begin and end. -/
def tracing : Instrument Tracing Held where
  value := Held.value
  hold := .plain
  join op right v := ⟨v, if op.kind = .comma then right.origin else none⟩
  value_hold _ := rfl
  value_join _ _ _ := rfl
  plain := Noting.plain
  get := Tracing.get
  assign := Tracing.assign
  define := Tracing.define
  close _ := Tracing.close
  origin _ := pure []
  enclose _ := Tracing.enclose
  inScope := Noting.inScope
  activate limit _ paren _ := Noting.activate limit paren
  atExpr _ _ := Noting.seen Trace.look [] ([·])
  atStmt _ _ := Noting.seen Trace.look [] Course.values
  atCall f args := Noting.seen Trace.look (f :: args) ([·])

variable (cfg : Setting)

/-- Before the first input only the global `clock` holds a callable. -/
def Trace.initial : Trace where
  machine := Machine.initial
  executions := []
  origins id name := if id = Machine.globals ∧ name = Callable.clock.name then some .clock else none
  sights := []

/-- Trace inputs one after the other, however each of them ends. Where they stand in the source
does not matter. -/
def traceSession (inputs : List Input) : Trace :=
  inputs.foldl (fun w input => after (input.runWith cfg tracing 0 w)) .initial

/-! ## Forgetting the origins -/

theorem projects_get (t : Token) :
    Projects Noted.machine Held.value (Tracing.get t) (Eval.get t) := by
  intro w
  unfold Tracing.get Eval.get
  dsimp only [Noted.machine]
  cases w.machine.store.get w.machine.scope t <;> rfl

theorem projects_assign (t : Token) (h : Held) :
    Projects Noted.machine id (Tracing.assign t h) (Eval.assign t h.value) := by
  intro w
  unfold Tracing.assign Eval.assign
  cases w.machine.store.owner? w.machine.scope t.lexeme <;> rfl

theorem machine_defineAll (w : Trace) (id : ScopeId) (bs : List (String × Held)) :
    (w.defineAll id bs).machine =
      { w.machine with
        store := w.machine.store.defineAll id (bs.map fun b => (b.1, b.2.value)) } := by
  induction bs generalizing w with
  | nil => rfl
  | cons b bs ih => exact ih (w.define id b.1 b.2)

theorem projects_enclose (outer : ScopeId) (bs : List (String × Held)) :
    Projects Noted.machine id (Tracing.enclose outer bs)
      (Eval.enclose outer (bs.map fun b => (b.1, b.2.value))) := by
  intro w
  exact congrArg (EStateM.Result.ok _) (machine_defineAll _ _ bs)

theorem machine_look (w : Trace) (held : List Held) :
    Noted.machine (w.look held) = Noted.machine w := rfl

theorem faithful_tracing : tracing.Faithful where
  plain _ := rfl
  get := projects_get
  assign := projects_assign
  define _ _ _ := rfl
  close _ _ _ := rfl
  origin _ _ := ⟨[], rfl⟩
  enclose _ := projects_enclose
  inScope := rfl
  activate _ _ _ _ := rfl
  atExpr _ _ _ _ h := Noting.projects_seen machine_look [] _ h
  atStmt _ _ _ _ h := Noting.projects_seen machine_look [] _ h
  atCall f args _ _ h := Noting.projects_seen machine_look (f :: args) _ h

/-- The machine after a traced session is the one that running its inputs in turn ends
with. -/
theorem machine_traceSession (inputs : List Input) : (traceSession cfg inputs).machine =
    inputs.foldl (fun m input => after (input.run cfg m)) Machine.initial := by
  suffices h : ∀ w : Trace,
      (inputs.foldl (fun w input => after (input.runWith cfg tracing 0 w)) w).machine =
        inputs.foldl (fun m input => after (input.run cfg m)) w.machine from h .initial
  induction inputs with
  | nil => exact fun _ => rfl
  | cons input inputs ih =>
    intro w
    have hinput : (after (input.runWith cfg tracing 0 w)).machine = _ :=
      (projects_input cfg faithful_tracing 0 input).after w
    rw [List.foldl_cons, List.foldl_cons, ih, hinput]
    rfl

end Identity

end Treewalk
