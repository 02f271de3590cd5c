import Treewalk.Store

/-!
# The machine

A `Machine` is the whole state of a running program: the store, the scope that
code runs in, how many calls are open, and the lines printed so far. `Eval` is a
computation on it, which ends with a result or stops; either way the machine is
kept.

`Setting` holds what is fixed during a run: what the clock shows, how deep calls
may nest, and how conditional expressions treat their branches.
-/
namespace Treewalk

/-- How a conditional expression treats its branches. -/
inductive TernaryRule where
  /-- Evaluate both branches, then pick one. -/
  | eager
  /-- Evaluate the branch that is picked. -/
  | selected
  deriving DecidableEq, Repr

structure Setting where
  /-- The seconds that the clock shows each time it is read. -/
  clock : Nat → Float
  /-- How many calls may be open at once. -/
  callLimit : Option Nat := some 1024
  ternary : TernaryRule := .eager

structure Machine where
  store : Store
  /-- The scope that code runs in. -/
  scope : ScopeId
  /-- How many calls are open. -/
  depth : Nat
  /-- The most calls that were ever open at once. -/
  deepest : Nat
  /-- The lines printed so far, first one first. -/
  printed : Array String
  /-- How many callables have been made. -/
  created : Nat
  /-- How often the clock has been read. -/
  readings : Nat

/-- Why a computation stops without a result. -/
inductive Stop where
  | error (e : RuntimeError)
  /-- An operator that its kind of expression does not have. -/
  | malformed (operator : Token)
  | outOfFuel

/-- How control leaves a statement. -/
inductive Flow where
  | normal
  /-- A `return` on its way to the call it ends. -/
  | returned (value : Value)

abbrev Eval := EStateM Stop Machine

namespace Machine

/-- The scope of the program itself. -/
def globals : ScopeId := 0

/-- A machine before any program has run: the globals hold the native function. -/
def initial : Machine where
  store := (Store.empty.root.2).define globals Callable.clock.name (.callable 0 .clock)
  scope := globals
  depth := 0
  deepest := 0
  printed := #[]
  created := 1
  readings := 0

/-- A value for a new callable. -/
def create (m : Machine) (c : Callable) : Value × Machine :=
  (.callable m.created c, { m with created := m.created + 1 })

/-- The value of a global variable. -/
def global? (m : Machine) (name : String) : Option Value := m.store.lookup globals name

def defineGlobal (m : Machine) (name : String) (value : Value) : Machine :=
  { m with store := m.store.define globals name value }

/-- One more call is open. -/
def enter (m : Machine) : Machine :=
  { m with depth := m.depth + 1, deepest := max m.deepest (m.depth + 1) }

/-- One open call has ended. -/
def leave (m : Machine) : Machine := { m with depth := m.depth - 1 }

/-- The lines printed since `before` lines had been printed. -/
def printedSince (m : Machine) (before : Nat) : List String := (m.printed.extract before).toList

end Machine

namespace Eval

def outOfFuel {α : Type} : Eval α := fun m => .error .outOfFuel m

def fault {α : Type} (token : Token) (f : Fault) : Eval α := fun m =>
  .error (.error ⟨token, f⟩) m

/-- A result that does not depend on the machine. -/
def ofExcept {α : Type} : Except Stop α → Eval α
  | .ok a => fun m => .ok a m
  | .error e => fun m => .error e m

def printLine (line : String) : Eval Unit := fun m =>
  .ok () { m with printed := m.printed.push line }

/-- Read a variable in the scope that code runs in. -/
def get (name : Token) : Eval Value := fun m =>
  match m.store.get m.scope name with
  | .ok v => .ok v m
  | .error e => .error (.error e) m

/-- Assign a variable in the scope that binds it. -/
def assign (name : Token) (value : Value) : Eval Unit := fun m =>
  match m.store.owner? m.scope name.lexeme with
  | some owner => .ok () { m with store := m.store.define owner name.lexeme value }
  | none => .error (.error (.undefined name)) m

theorem assign_eq (name : Token) (value : Value) (m : Machine) :
    assign name value m =
      match m.store.assign m.scope name value with
      | .ok store => .ok () { m with store }
      | .error e => .error (.error e) m := by
  unfold assign Store.assign
  cases m.store.owner? m.scope name.lexeme <;> rfl

/-- Bind a name in the scope that code runs in. -/
def define (name : String) (value : Value) : Eval Unit := fun m =>
  .ok () { m with store := m.store.define m.scope name value }

/-- A new function that closes over the scope that code runs in. -/
def close (d : Declaration) : Eval Value := fun m =>
  .ok (.callable m.created (.function d m.scope)) { m with created := m.created + 1 }

/-- What the clock shows now. -/
def readClock (cfg : Setting) : Eval Value := fun m =>
  .ok (.number (cfg.clock m.readings)) { m with readings := m.readings + 1 }

/-- The scope that code runs in. -/
def scope : Eval ScopeId := fun m => .ok m.scope m

/-- Open a scope inside `outer` that holds the given bindings. -/
def enclose (outer : ScopeId) (bindings : List (String × Value)) : Eval ScopeId := fun m =>
  let (id, store) := m.store.enclose outer
  .ok id { m with store := store.defineAll id bindings }

/-- Run `body` in a scope and come back to the present one, whatever happens. Mirrors
`execute_block`. -/
@[inline]
def inScope {α : Type} (id : ScopeId) (body : Eval α) : Eval α := fun m =>
  let outer := m.scope
  match body { m with scope := id } with
  | .ok a m => .ok a { m with scope := outer }
  | .error e m => .error e { m with scope := outer }

/-- Run the body of a call. It counts as one more open call while it runs, whatever comes of
it. At the limit the call fails at the parenthesis that closes its arguments. Mirrors
`call_depth` in `call`. -/
@[inline]
def activate {α : Type} (limit : Option Nat) (paren : Token) (body : Eval α) : Eval α := fun m =>
  if limit.any (· ≤ m.depth) then .error (.error ⟨paren, .stackOverflow⟩) m
  else
    match body m.enter with
    | .ok a m => .ok a m.leave
    | .error e m => .error e m.leave

end Eval

end Treewalk
