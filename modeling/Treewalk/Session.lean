import Treewalk.Machine.Run
import Treewalk.Tree.Parser.Program

/-!
# Sessions

A session runs one source text after another on the same machine and remembers
in two flags whether a syntax error or a run-time error has come up. While the
flag for syntax errors is set nothing is executed. `run` keeps the flags of
earlier steps; `runLine` clears them first and shows the value of a line that
consists of one expression.

Results:

* `outcome_eq_syntaxError`: a step's outcome is a syntax error exactly when the
  flag for syntax errors is set after it.
-/
namespace Treewalk

/-- What went wrong in a step. -/
inductive Diagnostic where
  | lexical (e : LexError)
  | grammar (e : ParseError)
  | runtime (e : RuntimeError)

/-- The diagnostic as it is shown to the user. -/
def Diagnostic.text : Diagnostic → String
  | lexical e => e.text
  | grammar e => e.text
  | runtime e => e.message ++ "\n[line " ++ toString e.line ++ "]"

inductive Outcome where
  | success
  | syntaxError
  | runtimeError
  deriving DecidableEq, Repr

/-- The exit code of a command that ends with this outcome. -/
def Outcome.exitCode : Outcome → Nat
  | success => 0
  | syntaxError => 65
  | runtimeError => 70

structure Session where
  machine : Machine
  hadError : Bool
  hadRuntimeError : Bool

/-- What a step did. -/
structure Report where
  outcome : Outcome
  /-- The lines that the step printed. -/
  printed : List String
  diagnostics : List Diagnostic

namespace Session

def initial : Session := ⟨Machine.initial, false, false⟩

/-- Clear both flags. -/
def reset (s : Session) : Session := { s with hadError := false, hadRuntimeError := false }

def outcome (s : Session) : Outcome :=
  if s.hadError then .syntaxError else if s.hadRuntimeError then .runtimeError else .success

theorem outcome_eq_syntaxError (s : Session) : s.outcome = .syntaxError ↔ s.hadError = true := by
  unfold outcome
  split
  · simpa
  · split <;> simp_all

/-- The syntax errors of a source text, lexical ones first, and its program if
the tokens form one. Mirrors `parse`, but for the flag. -/
def analyze (source : String) : List Diagnostic × Option Program :=
  let s := scan source
  let lexical := s.errors.map Diagnostic.lexical
  match parse s.tokens with
  | .ok program => (lexical, some program)
  | .error errors => (lexical ++ errors.map Diagnostic.grammar, none)

/-- The session after its machine has run; nothing if the run has no end. -/
def finish (hadRuntimeError : Bool) (before : Nat) :
    EStateM.Result Stop Machine Unit → Option (Report × Session)
  | .ok _ m =>
    let s : Session := ⟨m, false, hadRuntimeError⟩
    some (⟨s.outcome, m.printedSince before, []⟩, s)
  | .error (.error e) m =>
    let s : Session := ⟨m, false, true⟩
    some (⟨s.outcome, m.printedSince before, [.runtime e]⟩, s)
  | .error _ _ => none

/-- One step: a program without syntax errors is run by `action`, unless an
earlier syntax error is still flagged. -/
def step (action : Program → Eval Unit) (s : Session) (source : String) :
    Option (Report × Session) :=
  match analyze source with
  | ([], some program) =>
    if s.hadError then some (⟨s.outcome, [], []⟩, s)
    else finish s.hadRuntimeError s.machine.printed.size (action program s.machine)
  | (diagnostics, _) =>
    let s := { s with hadError := true }
    some (⟨s.outcome, [], diagnostics⟩, s)

/-- Run a program, but show the value of a lone expression as it would stand in
a program. -/
def echo (cfg : Setting) (fuel : Nat) : Program → Eval Unit
  | [.expr e] => do
    let v ← evaluate cfg fuel e
    Eval.printLine v.code
  | program => interpret cfg fuel program

/-- Run a script. -/
def run (cfg : Setting) (fuel : Nat) (s : Session) (source : String) : Option (Report × Session) :=
  s.step (interpret cfg fuel) source

/-- Run a line of an interactive session. Mirrors `run_line`. -/
def runLine (cfg : Setting) (fuel : Nat) (s : Session) (source : String) :
    Option (Report × Session) :=
  s.reset.step (echo cfg fuel) source

end Session

end Treewalk
