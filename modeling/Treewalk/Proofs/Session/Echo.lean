import Treewalk.Proofs.Session.Protocol
import Treewalk.Proofs.Session.Parts

/-!
# Lines and scripts

A line of an interactive session is run as the script with the same text would be run after
the flags have been cleared. Only a lone expression takes a path of its own: its value is
shown. So the two differ in the line that shows it, and in nothing else.

Results:

* `runLine_lone`, `run_lone`: a lone expression as a line and as a script.
* `line_agrees_with_script`: any text as a line and as a script.
-/
namespace Treewalk

open Session

/-- Running the line ends with this report and this session. -/
def Session.RunsLine (cfg : Setting) (s : Session) (source : String) (r : Report) (t : Session) :
    Prop :=
  ∃ fuel, s.runLine cfg fuel source = some (r, t)

/-- The text is a lone expression, and this is its value. -/
def Session.Shows (cfg : Setting) (s : Session) (source : String) (v : Value) : Prop :=
  ∃ e fuel m, analyze source = ([], some [.expr e]) ∧ evaluate cfg fuel e s.machine = .ok v m

/-- One more line is printed. -/
def Machine.print (m : Machine) (line : String) : Machine :=
  { m with printed := m.printed.push line }

variable {cfg : Setting} {s t t' : Session} {source : String} {r r' : Report} {e : Expr}

/-! ## Texts that are not run, or run alike -/

theorem runLine_eq_run (h : ∀ p, analyze source = ([], some p) → ∀ e, p ≠ [.expr e])
    (fuel : Nat) : s.runLine cfg fuel source = s.reset.run cfg fuel source := by
  unfold runLine run step
  split
  · rename_i p hp
    rw [echo.eq_2 cfg fuel p (h p hp)]
  · rfl

/-! ## Lone expressions -/

/-- What a session makes of the result of evaluating a lone expression, if a value is to be
followed by the given lines. -/
def Session.finishLone (s : Session) (shown : Value → Array String) :
    EStateM.Result Stop Machine Value → Option (Report × Session)
  | .ok v m =>
    finish false s.machine.printed.size (.ok () { m with printed := m.printed ++ shown v })
  | .error e m => finish false s.machine.printed.size (.error e m)

theorem runLine_lone (h : analyze source = ([], some [.expr e])) (fuel : Nat) :
    s.runLine cfg fuel source =
      s.finishLone (fun v => #[v.code]) (evaluate cfg fuel e s.machine) := by
  simp only [runLine, step, h]
  show finish false s.machine.printed.size ((evaluate cfg fuel e >>= _) s.machine) = _
  cases hv : evaluate cfg fuel e s.machine with
  | ok v m =>
    rw [bind_of_ok hv]
    rfl
  | error e m =>
    rw [bind_of_error hv]
    rfl

theorem run_lone (h : analyze source = ([], some [.expr e])) (fuel : Nat) :
    s.reset.run cfg (fuel + 1) source =
      s.finishLone (fun _ => #[]) (evaluate cfg fuel e s.machine) := by
  rw [run_eq_finish h rfl]
  show finish false s.machine.printed.size
    (((evaluate cfg fuel e >>= fun _ => pure Flow.normal) >>= _) s.machine) = _
  cases hv : evaluate cfg fuel e s.machine with
  | ok v m =>
    rw [bind_assoc, bind_of_ok hv]
    simp only [finishLone, Array.append_empty]
    rfl
  | error e m =>
    rw [bind_assoc, bind_of_error hv]
    rfl

/-- Whether a session can finish does not depend on the lines that follow a value. -/
theorem finishLone_ends (shown shown' : Value → Array String)
    (result : EStateM.Result Stop Machine Value) (h : ∃ r t, s.finishLone shown result = some (r, t)) :
    ∃ r t, s.finishLone shown' result = some (r, t) := by
  cases result with
  | ok v m => exact ⟨_, _, rfl⟩
  | error e m => exact h

theorem ended_of_finishLone {shown : Value → Array String}
    {result : EStateM.Result Stop Machine Value}
    (h : s.finishLone shown result = some (r, t)) : ∀ m, result ≠ .error .outOfFuel m := by
  rintro m rfl
  cases h

/-- The value that is shown is the one that any evaluation to the end gives. -/
theorem shows_lone (h : analyze source = ([], some [.expr e])) {fuel : Nat}
    (hended : ∀ m, evaluate cfg fuel e s.machine ≠ .error .outOfFuel m) (v : Value) :
    s.Shows cfg source v ↔ ∃ m, evaluate cfg fuel e s.machine = .ok v m := by
  constructor
  · rintro ⟨e', fuel', m, he, hv⟩
    rw [h] at he
    cases he
    exact ⟨m, (evaluate_unique hended fun m' hm' => by rw [hv] at hm'; cases hm').trans hv⟩
  · rintro ⟨m, hv⟩
    exact ⟨e, fuel, m, h, hv⟩

/-! ## Lines and scripts -/

/-- How a line that ends compares with the script of the same text. -/
structure Session.Agrees (cfg : Setting) (s : Session) (source : String) (r : Report) (t : Session)
    (r' : Report) (t' : Session) : Prop where
  outcome : r.outcome = r'.outcome
  diagnostics : r.diagnostics = r'.diagnostics
  hadError : t.hadError = t'.hadError
  hadRuntimeError : t.hadRuntimeError = t'.hadRuntimeError
  /-- The value of a lone expression is shown after all that the script prints. -/
  shown : ∀ v, s.Shows cfg source v →
    r.printed = r'.printed ++ [v.code] ∧ t.machine = t'.machine.print v.code
  /-- Otherwise both print the same and leave the same machine behind. -/
  silent : (∀ v, ¬ s.Shows cfg source v) → r.printed = r'.printed ∧ t.machine = t'.machine

theorem agrees_refl (h : ∀ v, ¬ s.Shows cfg source v) : s.Agrees cfg source r t r t :=
  ⟨rfl, rfl, rfl, rfl, fun v hv => absurd hv (h v), fun _ => ⟨rfl, rfl⟩⟩

/-- A lone expression as a line and as a script, evaluated with the same fuel. -/
theorem agrees_lone (h : analyze source = ([], some [.expr e])) {fuel : Nat}
    (hr : s.finishLone (fun v => #[v.code]) (evaluate cfg fuel e s.machine) = some (r, t))
    (hr' : s.finishLone (fun _ => #[]) (evaluate cfg fuel e s.machine) = some (r', t')) :
    s.Agrees cfg source r t r' t' := by
  have hshows := shows_lone h (ended_of_finishLone hr)
  obtain ⟨lines, hlines⟩ : Printed s.machine (after (evaluate cfg fuel e s.machine)) :=
    (PreservesAt.all printed_moves fuel).evaluate e s.machine
  cases hv : evaluate cfg fuel e s.machine with
  | ok v m =>
    rw [hv] at hr hr' hlines
    simp only [finishLone, finish, Option.some.injEq, Prod.mk.injEq, Array.append_empty] at hr hr'
    obtain ⟨rfl, rfl⟩ := hr
    obtain ⟨rfl, rfl⟩ := hr'
    have hprinted : m.printed = s.machine.printed ++ lines := hlines
    have hshown : (m.print v.code).printed = s.machine.printed ++ (lines ++ #[v.code]) := by
      rw [Machine.print, hprinted, Array.push_eq_append, Array.append_assoc]
    refine ⟨rfl, rfl, rfl, rfl, fun w hw => ?_, fun hnone => ?_⟩
    · obtain ⟨m', hm'⟩ := (hshows w).mp hw
      rw [hv] at hm'
      cases hm'
      refine ⟨?_, rfl⟩
      calc (m.print v.code).printedSince s.machine.printed.size
          = lines.toList ++ [v.code] := by
            rw [Machine.printedSince_append hshown, Array.toList_append]
        _ = m.printedSince s.machine.printed.size ++ [v.code] := by
            rw [Machine.printedSince_append hprinted]
    · exact absurd ((hshows v).mpr ⟨m, hv⟩) (hnone v)
  | error e' m =>
    rw [hv] at hr hr'
    have hsame : some (r, t) = some (r', t') := hr.symm.trans hr'
    cases hsame
    refine agrees_refl fun w hw => ?_
    obtain ⟨m', hm'⟩ := (hshows w).mp hw
    rw [hv] at hm'
    cases hm'

/-- However much fuel there is, a script that ends ends in one way. -/
theorem runs_reset_unique (hr : s.reset.Runs cfg source r t) (hr' : s.reset.Runs cfg source r' t') :
    r' = r ∧ t' = t := by
  by_cases hflaws : flaws source = []
  · obtain ⟨p, hp⟩ := analyze_eq_of_flaws hflaws
    exact hr.unique hp rfl hr'
  · obtain ⟨fuel, hr⟩ := hr
    obtain ⟨fuel', hr'⟩ := hr'
    rw [run, step_rejects hflaws] at hr hr'
    cases hr
    cases hr'
    exact ⟨rfl, rfl⟩

/-- A script that is a lone expression takes one more unit of fuel than the line. -/
theorem runs_lone (h : analyze source = ([], some [.expr e])) :
    s.reset.Runs cfg source r t ↔
      ∃ fuel, s.finishLone (fun _ => #[]) (evaluate cfg fuel e s.machine) = some (r, t) := by
  constructor
  · rintro ⟨fuel, hr⟩
    cases fuel with
    | zero =>
      rw [run_eq_finish h rfl] at hr
      cases hr
    | succ fuel => exact ⟨fuel, run_lone h fuel ▸ hr⟩
  · rintro ⟨fuel, hr⟩
    exact ⟨fuel + 1, (run_lone h fuel).trans hr⟩

/-- A line and the script of the same text, run in a session whose flags have been cleared,
both end or both do not. They have the same outcome, flags and diagnostics and leave the same
variables and scopes behind. The line prints what the script prints, and after that the value
of a lone expression, if it has one. -/
theorem line_agrees_with_script (cfg : Setting) (s : Session) (source : String) :
    ((∃ r t, s.RunsLine cfg source r t) ↔ ∃ r' t', s.reset.Runs cfg source r' t') ∧
    ∀ r t r' t', s.RunsLine cfg source r t → s.reset.Runs cfg source r' t' →
      s.Agrees cfg source r t r' t' := by
  by_cases hlone : ∃ e, analyze source = ([], some [.expr e])
  · obtain ⟨e, he⟩ := hlone
    simp only [Session.RunsLine, runLine_lone he, runs_lone he]
    refine ⟨⟨?_, ?_⟩, ?_⟩
    · rintro ⟨r, t, fuel, hr⟩
      obtain ⟨r', t', hr'⟩ := finishLone_ends _ (fun _ => #[]) _ ⟨r, t, hr⟩
      exact ⟨r', t', fuel, hr'⟩
    · rintro ⟨r', t', fuel, hr'⟩
      obtain ⟨r, t, hr⟩ := finishLone_ends _ (fun v => #[v.code]) _ ⟨r', t', hr'⟩
      exact ⟨r, t, fuel, hr⟩
    · rintro r t r' t' ⟨fuel, hr⟩ ⟨fuel', hr'⟩
      rw [evaluate_unique (ended_of_finishLone hr') (ended_of_finishLone hr)] at hr'
      exact agrees_lone he hr hr'
  · have hsame : ∀ fuel, s.runLine cfg fuel source = s.reset.run cfg fuel source :=
      runLine_eq_run fun p hp e he => hlone ⟨e, he ▸ hp⟩
    have hnone : ∀ v, ¬ s.Shows cfg source v := fun v ⟨e, _, _, he, _⟩ => hlone ⟨e, he⟩
    simp only [Session.RunsLine, hsame]
    refine ⟨Iff.rfl, fun r t r' t' hr hr' => ?_⟩
    obtain ⟨rfl, rfl⟩ := runs_reset_unique hr hr'
    exact agrees_refl hnone

/-- A call that prints a line and has a value, as a line and as a script. -/
theorem line_agrees_with_script_call :
    let cfg : Setting := { clock := fun _ => 0 }
    let declaration := "fun f() \x7b print nil; return true; \x7d"
    ∃ s r t r' t', (initial.run cfg 9 declaration).map Prod.snd = some s ∧
      s.RunsLine cfg "f();" r t ∧ s.reset.Runs cfg "f();" r' t' ∧
      r.printed = ["nil", "true"] ∧ r'.printed = ["nil"] ∧ s.Agrees cfg "f();" r t r' t' := by
  intro cfg declaration
  have hruns : ((initial.run cfg 9 declaration).bind fun x =>
      (x.2.runLine cfg 9 "f();").bind fun y => (x.2.reset.run cfg 9 "f();").map fun z =>
        (y.1.printed, z.1.printed)) = some (["nil", "true"], ["nil"]) := by decide +kernel
  obtain ⟨⟨r₀, s⟩, hs, hruns⟩ := Option.bind_eq_some_iff.mp hruns
  obtain ⟨⟨r, t⟩, hr, hruns⟩ := Option.bind_eq_some_iff.mp hruns
  obtain ⟨⟨r', t'⟩, hr', hprinted⟩ := Option.map_eq_some_iff.mp hruns
  simp only [Prod.mk.injEq] at hprinted
  exact ⟨s, r, t, r', t', by rw [hs]; rfl, ⟨9, hr⟩, ⟨9, hr'⟩, hprinted.1, hprinted.2,
    (line_agrees_with_script cfg s "f();").2 r t r' t' ⟨9, hr⟩ ⟨9, hr'⟩⟩

end Treewalk
