import Treewalk.Proofs.Grammar.Operators
import Treewalk.Proofs.Machine.Throughout
import Treewalk.Proofs.Session.Reached

/-!
# Functions of accepted programs

The functions that a session can call come from the programs it has run. If all those
programs have a property, the bodies of the functions have it too; and as long as no
program has an operator that its kind of expression does not have, none is ever met.

Results:

* `kept_operating`: running keeps this.
* `reached_meets`: it holds of every session whose programs have the property.
-/
namespace Treewalk

/-! ## The standard -/

/-- Function bodies have the property `P` of statements, and operators are in order. -/
def operating (P : Stmt → Prop) : Standard where
  value
    | .callable _ (.function d _) => Stmt.EverywhereAll P d.body
    | _ => True
  expr e := e.Everywhere Expr.Operates
  stmt s := s.Everywhere P
  stop
    | .malformed _ => False
    | _ => True

theorem operating_plain {P : Stmt → Prop} {v : Value} (h : v.Plain) : (operating P).value v := by
  cases v with
  | callable id c => exact h.elim
  | _ => trivial

theorem operating_result {P : Stmt → Prop} {r : Except Stop Value} (hr : Answered r)
    (hv : ∀ v, r = .ok v → (operating P).value v) : (operating P).Result r := by
  cases r with
  | ok v => exact hv v rfl
  | error e =>
    cases e with
    | error e => trivial
    | _ => exact hr.elim

/-- Running keeps the standard if the property leaves operators in order. -/
theorem kept_operating {P : Stmt → Prop} (hP : ∀ s, P s → s.Operates) : (operating P).Kept where
  outOfFuel := trivial
  nil := trivial
  time _ := trivial
  exprParts h := h.parts
  literal {l} _ := operating_plain (by cases l <;> trivial)
  unary {op _ v} h _ :=
    operating_result (unary_answered h.1 v) fun _ hu => operating_plain (unary_plain hu)
  binary {_ op _ l r} h _ hr := by
    refine operating_result (binary_answered h.1 l r) fun u hu => ?_
    obtain rfl | hplain := binary_plain hu
    · exact hr
    · exact operating_plain hplain
  name _ := trivial
  assign _ := trivial
  call _ := ⟨trivial, fun _ _ _ => trivial, trivial⟩
  stmtExprs h := hP _ h.self
  stmtParts h := h.parts
  function h _ _ := h.2
  body h := Stmt.everywhereAll_iff.mp h

/-! ## Sessions -/

/-- The step runs the program: its text has no syntax errors, and none is flagged. -/
def Session.Executes (s : Session) (source : String) (p : Program) : Prop :=
  s.hadError = false ∧ Session.analyze source = ([], some p)

/-- A session after some steps, all of whose programs so far have the property `P`. -/
inductive Session.ReachedBy (cfg : Setting) (P : Program → Prop) : Session → Prop where
  | initial : ReachedBy cfg P Session.initial
  | reset {s : Session} (before : ReachedBy cfg P s) : ReachedBy cfg P s.reset
  | run {s t : Session} {fuel : Nat} {source : String} {r : Report} (before : ReachedBy cfg P s)
      (executed : ∀ p, s.Executes source p → P p) (step : s.run cfg fuel source = some (r, t)) :
      ReachedBy cfg P t
  | runLine {s t : Session} {fuel : Nat} {source : String} {r : Report}
      (before : ReachedBy cfg P s) (executed : ∀ p, s.reset.Executes source p → P p)
      (step : s.runLine cfg fuel source = some (r, t)) : ReachedBy cfg P t

/-- A step leaves the machine as the program it runs left it, or untouched. -/
theorem step_executes {action : Program → Eval Unit} {s t : Session} {source : String}
    {r : Report} (h : s.step action source = some (r, t)) :
    t.machine = s.machine ∨
      ∃ p, s.Executes source p ∧ t.machine = after (action p s.machine) := by
  unfold Session.step at h
  split at h
  · rename_i p hp
    split at h
    · cases h
      exact .inl rfl
    · rename_i hflag
      exact .inr ⟨p, ⟨Bool.eq_false_iff.mpr hflag, hp⟩, finish_machine h⟩
  · cases h
    exact .inl rfl

variable {cfg : Setting} {P : Stmt → Prop}

theorem meets_initial : (operating P).Meets Machine.initial.store := Standard.meets_initial trivial

theorem Standard.step_meets {S : Standard} {action : Program → Eval Unit} {s t : Session}
    {source : String} {r : Report} (hs : S.Meets s.machine.store)
    (h : ∀ p, s.Executes source p → S.Upholds (fun _ => True) (action p))
    (hstep : s.step action source = some (r, t)) : S.Meets t.machine.store := by
  obtain ht | ⟨p, hp, ht⟩ := step_executes hstep
  · rwa [ht]
  · rw [ht]
    exact (h p hp).after hs

theorem upholds_echo (hP : ∀ s, P s → s.Operates) (fuel : Nat) {p : Program}
    (hp : Stmt.EverywhereAll P p) :
    (operating P).Upholds (fun _ => True) (Session.echo cfg fuel p) :=
  Standard.upholds_echo (kept_operating hP) cfg fuel (Stmt.everywhereAll_iff.mp hp)

/-- The functions of a session have the property that all its programs have. -/
theorem reached_meets (hP : ∀ s, P s → s.Operates) {s : Session}
    (h : s.ReachedBy cfg (Stmt.EverywhereAll P)) : (operating P).Meets s.machine.store := by
  induction h with
  | initial => exact meets_initial
  | reset _ ih => exact ih
  | run _ executed step ih =>
    refine Standard.step_meets ih (fun p hp => ?_) step
    exact Standard.upholds_interpret (kept_operating hP) cfg _
      (Stmt.everywhereAll_iff.mp (executed p hp))
  | @runLine s _ _ _ _ _ executed step ih =>
    exact Standard.step_meets (s := s.reset) ih (fun p hp => upholds_echo hP _ (executed p hp))
      step

end Treewalk
