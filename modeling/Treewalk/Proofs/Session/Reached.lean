import Treewalk.Proofs.Machine.Moves
import Treewalk.Session

/-!
# Sessions that can be reached

A session starts with a new machine and runs scripts and lines. A step that ends
leaves the machine as its program left it, or untouched if nothing was run.

Results:

* `analyze_eq`: when a text has no syntax errors.
* `step_machine`: what a step does to the machine.
-/
namespace Treewalk

open Session

theorem analyze_eq {source : String} {p : Program} :
    analyze source = ([], some p) ↔
      (scan source).errors = [] ∧ parse (scan source).tokens = .ok p := by
  unfold analyze
  cases h : parse (scan source).tokens with
  | ok q => simp [h]
  | error es => simp [h]

/-- A session after some steps. -/
inductive Session.Reached (cfg : Setting) : Session → Prop where
  | initial : Reached cfg Session.initial
  | run {s t : Session} {fuel : Nat} {source : String} {r : Report} (before : Reached cfg s)
      (step : s.run cfg fuel source = some (r, t)) : Reached cfg t
  | runLine {s t : Session} {fuel : Nat} {source : String} {r : Report} (before : Reached cfg s)
      (step : s.runLine cfg fuel source = some (r, t)) : Reached cfg t

theorem finish_machine {hadRuntimeError : Bool} {before : Nat} {r : Report} {t : Session}
    {result : EStateM.Result Stop Machine Unit}
    (h : finish hadRuntimeError before result = some (r, t)) : t.machine = after result := by
  cases result with
  | ok a m =>
    cases h
    rfl
  | error e m =>
    cases e with
    | error e =>
      cases h
      rfl
    | _ => cases h

/-- A step leaves the machine as the program of its text left it, or untouched. -/
theorem step_machine {action : Program → Eval Unit} {s t : Session} {source : String}
    {r : Report} (h : s.step action source = some (r, t)) :
    t.machine = s.machine ∨
      ∃ p, analyze source = ([], some p) ∧ t.machine = after (action p s.machine) := by
  unfold Session.step at h
  split at h
  · rename_i p hp
    split at h
    · cases h
      exact .inl rfl
    · exact .inr ⟨p, hp, finish_machine h⟩
  · cases h
    exact .inl rfl

end Treewalk
