import Treewalk.Proofs.Machine.Operating
import Treewalk.Proofs.Machine.Raised
import Treewalk.Proofs.Machine.Throughout
import Treewalk.Proofs.Session.Protocol

/-!
# What a step goes through

The moments of a step are those of the program that it runs. They are there whether the step
ends or not.

Results:

* `serve_meets`: a step leaves a machine behind that meets a kept standard.
* `holds_during`: the standard holds at all moments of a step.
* `raised_during`: an error that a step reports was raised at one of its moments.
-/
namespace Treewalk

open Session

namespace Session

/-- The moments of a step, given those of programs. -/
def duringStep (moments : Program → Timeline) (s : Session) (source : String) : List Moment :=
  match analyze source with
  | ([], some p) => if s.hadError then [] else moments p s.machine
  | _ => []

/-- The moments of what is done on a request. -/
def during (cfg : Setting) (fuel : Nat) (s : Session) : Request → List Moment
  | .run source => s.duringStep (duringProgram cfg fuel) source
  | .line source => s.reset.duringStep (duringLine cfg fuel) source
  | _ => []

end Session

variable {cfg : Setting} {fuel : Nat} {s t : Session} {r : Report} {source : String}

theorem duringStep_eq {moments : Program → Timeline} {p : Program} (h : s.Executes source p) :
    s.duringStep moments source = moments p s.machine := by
  simp [duringStep, h.1, h.2]

theorem executes_of_mem_duringStep {moments : Program → Timeline} {z : Moment}
    (h : z ∈ s.duringStep moments source) :
    ∃ p, s.Executes source p ∧ z ∈ moments p s.machine := by
  unfold duringStep at h
  split at h
  · rename_i p hp
    split at h
    · cases h
    · rename_i hflag
      exact ⟨p, ⟨Bool.eq_false_iff.mpr hflag, hp⟩, h⟩
  · cases h

/-! ## Standards -/

section Standards

variable {S : Standard} {request : Request}

/-- The programs that can be run on the request meet the standard. -/
def Standard.Admits (S : Standard) (request : Request) : Prop :=
  ∀ source p, request.text? = some source → analyze source = ([], some p) → ∀ x ∈ p, S.stmt x

/-- At all moments of a step the standard holds, if it holds of the session and of what is to
be run. -/
theorem holds_during (hS : S.Kept) (hm : S.Meets s.machine.store) (hadmits : S.Admits request)
    {z : Moment} (hz : z ∈ s.during cfg fuel request) : S.Holds z := by
  cases request with
  | run source =>
    obtain ⟨p, hp, hz⟩ := executes_of_mem_duringStep hz
    exact Standard.throughout_program hS cfg fuel (hadmits source p rfl hp.2) _ hm z hz
  | line source =>
    obtain ⟨p, hp, hz⟩ := executes_of_mem_duringStep hz
    exact Standard.throughout_line hS cfg fuel (hadmits source p rfl hp.2) _ hm z hz
  | _ => cases hz

/-- The step leaves a machine behind that meets the standard as well. -/
theorem serve_meets (hS : S.Kept) (hm : S.Meets s.machine.store) (hadmits : S.Admits request)
    {answer : Answer} (h : s.serve cfg fuel request = some (answer, t)) :
    S.Meets t.machine.store := by
  cases request with
  | run source =>
    obtain ⟨⟨r, t⟩, hrun, hx⟩ := Option.map_eq_some_iff.mp h
    cases hx
    exact Standard.step_meets hm (fun p hp =>
      Standard.upholds_interpret hS cfg fuel (hadmits source p rfl hp.2)) hrun
  | line source =>
    obtain ⟨⟨r, t⟩, hrun, hx⟩ := Option.map_eq_some_iff.mp h
    cases hx
    exact Standard.step_meets (s := s.reset) hm (fun p hp =>
      Standard.upholds_echo hS cfg fuel (hadmits source p rfl hp.2)) hrun
  | reset | lookup name =>
    cases h
    exact hm

end Standards

/-! ## Errors -/

/-- An error that a step reports ended the program that it ran. -/
theorem executes_of_reported {action : Program → Eval Unit} {err : RuntimeError}
    (h : s.step action source = some (r, t)) (herr : .runtime err ∈ r.diagnostics) :
    ∃ p m, s.Executes source p ∧ action p s.machine = .error (.error err) m := by
  obtain ⟨-, rfl, -⟩ | ⟨-, -, rfl, -⟩ | ⟨-, hflag, p, hp, hfinish⟩ := step_cases h
  · exact absurd herr (flaws_not_runtime err)
  · cases herr
  · cases hresult : action p s.machine with
    | ok a m =>
      rw [hresult] at hfinish
      cases hfinish
      cases herr
    | error stop m =>
      rw [hresult] at hfinish
      cases stop with
      | error err' =>
        cases hfinish
        obtain rfl : err = err' := by simpa using herr
        exact ⟨p, m, ⟨hflag, hp⟩, hresult⟩
      | _ => cases hfinish

theorem raised_duringStep {action : Program → Eval Unit} {moments : Program → Timeline}
    (haction : ∀ {p m err m'}, action p m = .error (.error err) m' →
      ∃ z ∈ moments p m, z.Raises cfg err)
    {err : RuntimeError} (h : s.step action source = some (r, t))
    (herr : .runtime err ∈ r.diagnostics) :
    ∃ z ∈ s.duringStep moments source, z.Raises cfg err := by
  obtain ⟨p, m, hp, herror⟩ := executes_of_reported h herr
  rw [duringStep_eq hp]
  exact haction herror

/-- An error that a step reports was raised at one of its moments. -/
theorem raised_during {request : Request} {err : RuntimeError}
    (h : s.serve cfg fuel request = some (.report r, t)) (herr : .runtime err ∈ r.diagnostics) :
    ∃ z ∈ s.during cfg fuel request, z.Raises cfg err := by
  cases request with
  | run source =>
    obtain ⟨⟨r, t⟩, hrun, hx⟩ := Option.map_eq_some_iff.mp h
    cases hx
    exact raised_duringStep raised_program hrun herr
  | line source =>
    obtain ⟨⟨r, t⟩, hrun, hx⟩ := Option.map_eq_some_iff.mp h
    cases hx
    exact raised_duringStep raised_line hrun herr
  | _ => cases h

end Treewalk
