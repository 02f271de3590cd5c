import Treewalk.Proofs.Grammar.Recovery
import Treewalk.Proofs.Session.Reached

/-!
# The protocol of a session

A session is asked to run scripts and lines, to forget its errors and to look up globals.
Its flags are a summary of what happened since they were last cleared, and what a step does
depends on them: while a syntax error is flagged, nothing is executed.

Results:

* `step_cases`: the three ways a step can go.
* `conducts_step`: outcome, execution and diagnostics of a step, whatever went before.
* `session_protocol`: the flags after any requests, and what the next step does.
-/
namespace Treewalk

open Session

/-! ## Syntax errors of a text -/

theorem parse_error_ne_nil {tokens : List Token} {errors : List ParseError}
    (h : parse tokens = .error errors) : errors ≠ [] := by
  obtain ⟨p, s, hread, -⟩ := readProgram_ends (programTokens tokens)
  simp only [parse, hread] at h
  split at h
  · cases h
  · rename_i hproblems
    cases h
    simpa using hproblems

namespace Session

variable {source : String}

/-- All syntax errors of a text, lexical ones first. -/
def flaws (source : String) : List Diagnostic :=
  (scan source).errors.map .lexical ++ (syntaxErrors (scan source).tokens).map .grammar

theorem analyze_fst (source : String) : (analyze source).1 = flaws source := by
  unfold analyze flaws syntaxErrors
  cases h : parse (scan source).tokens <;> simp [h]

/-- A text without syntax errors has a program. -/
theorem analyze_eq_of_flaws (h : flaws source = []) : ∃ p, analyze source = ([], some p) := by
  obtain ⟨hlexical, hgrammar⟩ := List.append_eq_nil_iff.mp h
  rw [List.map_eq_nil_iff] at hlexical hgrammar
  cases hparse : parse (scan source).tokens with
  | ok p => exact ⟨p, analyze_eq.mpr ⟨hlexical, hparse⟩⟩
  | error errors =>
    simp only [syntaxErrors, hparse] at hgrammar
    exact absurd hgrammar (parse_error_ne_nil hparse)

/-- The result of running the program of a text on the machine of the session. -/
def Ran (action : Program → Eval Unit) (s : Session) (source : String) (r : Report)
    (t : Session) : Prop :=
  ∃ p, analyze source = ([], some p) ∧
    finish s.hadRuntimeError s.machine.printed.size (action p s.machine) = some (r, t)

end Session

/-! ## One step -/

variable {action : Program → Eval Unit} {s t : Session} {source : String} {r : Report}

/-- A text with syntax errors is rejected. -/
theorem step_rejects (h : flaws source ≠ []) :
    s.step action source =
      some (⟨.syntaxError, [], flaws source⟩, { s with hadError := true }) := by
  have hfst := analyze_fst source
  unfold step
  split
  · rename_i hp
    rw [hp] at hfst
    exact absurd hfst.symm h
  · rename_i hp
    rw [hp] at hfst
    rw [← hfst]
    rfl

/-- Any other text is ignored while a syntax error is flagged. -/
theorem step_ignores (h : flaws source = []) (hs : s.hadError = true) :
    s.step action source = some (⟨.syntaxError, [], []⟩, s) := by
  obtain ⟨p, hp⟩ := analyze_eq_of_flaws h
  simp [step, hp, hs, outcome]

/-- Otherwise its program is run. -/
theorem step_runs (h : flaws source = []) (hs : s.hadError = false) :
    s.step action source = some (r, t) ↔ s.Ran action source r t := by
  obtain ⟨p, hp⟩ := analyze_eq_of_flaws h
  simp [step, hp, hs, Ran]

/-- The three ways a step can go. -/
theorem step_cases (h : s.step action source = some (r, t)) :
    (flaws source ≠ [] ∧ r = ⟨.syntaxError, [], flaws source⟩ ∧ t = { s with hadError := true }) ∨
    (flaws source = [] ∧ s.hadError = true ∧ r = ⟨.syntaxError, [], []⟩ ∧ t = s) ∨
    (flaws source = [] ∧ s.hadError = false ∧ s.Ran action source r t) := by
  by_cases hflaws : flaws source = []
  · cases hflag : s.hadError with
    | true =>
      rw [step_ignores hflaws hflag] at h
      cases h
      exact .inr (.inl ⟨hflaws, rfl, rfl, rfl⟩)
    | false => exact .inr (.inr ⟨hflaws, rfl, (step_runs hflaws hflag).mp h⟩)
  · rw [step_rejects hflaws] at h
    cases h
    exact .inl ⟨hflaws, rfl, rfl⟩

/-- A program that has been run left its machine behind, and at most one error. -/
theorem finish_cases {hadRuntimeError : Bool} {before : Nat}
    {result : EStateM.Result Stop Machine Unit}
    (h : finish hadRuntimeError before result = some (r, t)) :
    t.hadError = false ∧ r.outcome = t.outcome ∧
      ((r.diagnostics = [] ∧ t.hadRuntimeError = hadRuntimeError) ∨
        ∃ e, r.diagnostics = [.runtime e] ∧ t.hadRuntimeError = true) := by
  cases result with
  | ok a m =>
    cases h
    exact ⟨rfl, rfl, .inl ⟨rfl, rfl⟩⟩
  | error e m =>
    cases e with
    | error e =>
      cases h
      exact ⟨rfl, rfl, .inr ⟨e, rfl, rfl⟩⟩
    | _ => cases h

/-- What a step that ends does, whatever went before. -/
structure Session.Conducts (action : Program → Eval Unit) (s : Session) (source : String)
    (r : Report) (t : Session) : Prop where
  /-- The flags after the step decide its outcome, a syntax error before a run-time error. -/
  syntaxError : r.outcome = .syntaxError ↔ t.hadError = true
  runtimeError : r.outcome = .runtimeError ↔ t.hadError = false ∧ t.hadRuntimeError = true
  success : r.outcome = .success ↔ t.hadError = false ∧ t.hadRuntimeError = false
  /-- The program is run exactly if the outcome is not a syntax error. -/
  executes : r.outcome ≠ .syntaxError ↔ s.Ran action source r t
  /-- Otherwise it does not matter how programs are run. -/
  ignores : r.outcome = .syntaxError ↔ ∀ other, s.step other source = some (r, t)
  untouched : r.outcome = .syntaxError → r.printed = [] ∧ t.machine = s.machine
  /-- A text with syntax errors has all of them reported, any other one at most one error of
  its run. -/
  diagnostics : flaws source ≠ [] ∧ r.diagnostics = flaws source ∨
    flaws source = [] ∧ (r.diagnostics = [] ∨ ∃ e, r.diagnostics = [.runtime e])

theorem outcome_eq_runtimeError (s : Session) :
    s.outcome = .runtimeError ↔ s.hadError = false ∧ s.hadRuntimeError = true := by
  unfold outcome
  cases s.hadError <;> cases s.hadRuntimeError <;> simp

theorem outcome_eq_success (s : Session) :
    s.outcome = .success ↔ s.hadError = false ∧ s.hadRuntimeError = false := by
  unfold outcome
  cases s.hadError <;> cases s.hadRuntimeError <;> simp

theorem Session.Ran.outcome (h : s.Ran action source r t) : r.outcome ≠ .syntaxError := by
  obtain ⟨p, -, hfinish⟩ := h
  obtain ⟨hflag, houtcome, -⟩ := finish_cases hfinish
  rw [houtcome, ne_eq, outcome_eq_syntaxError, hflag]
  exact Bool.false_ne_true

/-- A step that does not depend on how programs are run ends with a syntax error. -/
theorem outcome_of_indifferent (h : ∀ other, s.step other source = some (r, t)) :
    r.outcome = .syntaxError := by
  -- Programs that are run without fuel have no end.
  obtain ⟨-, rfl, -⟩ | ⟨-, -, rfl, -⟩ | ⟨-, -, p, -, hfinish⟩ :=
    step_cases (h fun _ => Eval.outOfFuel)
  · rfl
  · rfl
  · cases hfinish

theorem conducts_rejected (hr : r = ⟨.syntaxError, [], flaws source⟩) (hflag : t.hadError = true)
    (hmachine : t.machine = s.machine)
    (hstep : ∀ other, s.step other source = some (r, t)) : s.Conducts action source r t := by
  subst hr
  refine ⟨by simp [hflag], by simp [hflag], by simp [hflag], ?_, by simp [hstep],
    fun _ => ⟨rfl, hmachine⟩, ?_⟩
  · exact ⟨fun h => absurd rfl h, fun h => h.outcome⟩
  · by_cases hflaws : flaws source = []
    · exact .inr ⟨hflaws, .inl hflaws⟩
    · exact .inl ⟨hflaws, rfl⟩

theorem conducts_ran (hflaws : flaws source = []) (h : s.Ran action source r t) :
    s.Conducts action source r t := by
  obtain ⟨p, hp, hfinish⟩ := id h
  obtain ⟨hflag, houtcome, hdiagnostics⟩ := finish_cases hfinish
  have hne := h.outcome
  refine ⟨?_, ?_, ?_, ⟨fun _ => h, fun _ => hne⟩, ?_, fun heq => absurd heq hne, ?_⟩
  · rw [houtcome, outcome_eq_syntaxError]
  · rw [houtcome, outcome_eq_runtimeError]
  · rw [houtcome, outcome_eq_success]
  · exact ⟨fun heq => absurd heq hne, outcome_of_indifferent⟩
  · refine .inr ⟨hflaws, ?_⟩
    obtain ⟨hd, -⟩ | ⟨e, hd, -⟩ := hdiagnostics
    · exact .inl hd
    · exact .inr ⟨e, hd⟩

theorem conducts_step (h : s.step action source = some (r, t)) :
    s.Conducts action source r t := by
  obtain ⟨hflaws, rfl, rfl⟩ | ⟨hflaws, hflag, rfl, rfl⟩ | ⟨hflaws, -, hran⟩ := step_cases h
  · exact conducts_rejected rfl rfl rfl fun _ => step_rejects hflaws
  · exact conducts_rejected (by rw [hflaws]) hflag rfl fun _ => step_ignores hflaws hflag
  · exact conducts_ran hflaws hran

/-- A step flags a syntax error of its text and clears no flag. -/
theorem step_hadError (h : s.step action source = some (r, t)) :
    t.hadError = true ↔ s.hadError = true ∨ flaws source ≠ [] := by
  obtain ⟨hflaws, -, rfl⟩ | ⟨-, hflag, -, rfl⟩ | ⟨hflaws, hflag, p, -, hfinish⟩ := step_cases h
  · simp [hflaws]
  · simp [hflag]
  · simp [(finish_cases hfinish).1, hflag, hflaws]

theorem flaws_not_runtime (e : RuntimeError) : .runtime e ∉ flaws source := by
  simp [flaws]

/-- A step flags the run-time error that it reports and clears no flag. -/
theorem step_hadRuntimeError (h : s.step action source = some (r, t)) :
    t.hadRuntimeError = true ↔ s.hadRuntimeError = true ∨ ∃ e, .runtime e ∈ r.diagnostics := by
  obtain ⟨-, rfl, rfl⟩ | ⟨-, -, rfl, rfl⟩ | ⟨-, -, p, -, hfinish⟩ := step_cases h
  · simp [flaws_not_runtime]
  · simp
  · obtain ⟨-, -, ⟨hd, ht⟩ | ⟨e, hd, ht⟩⟩ := finish_cases hfinish
    · simp [hd, ht]
    · simp [hd, ht]

/-! ## Many steps -/

namespace Session

/-- What a session can be asked to do. -/
inductive Request where
  | run (source : String)
  | line (source : String)
  | reset
  | lookup (name : String)

/-- The text that is to be run. -/
def Request.text? : Request → Option String
  | run source => some source
  | line source => some source
  | _ => none

inductive Answer where
  | report (r : Report)
  | done
  | value (v : Option Value)

/-- Do what is asked; nothing if a program has no end. -/
def serve (cfg : Setting) (fuel : Nat) (s : Session) : Request → Option (Answer × Session)
  | .run source => (s.run cfg fuel source).map fun x => (.report x.1, x.2)
  | .line source => (s.runLine cfg fuel source).map fun x => (.report x.1, x.2)
  | .reset => some (.done, s.reset)
  | .lookup name => some (.value (s.machine.global? name), s)

structure Exchange where
  request : Request
  answer : Answer

/-- The session after the exchanges of a log, the latest one first. -/
inductive Served (cfg : Setting) : List Exchange → Session → Prop where
  | start : Served cfg [] initial
  | next {log : List Exchange} {s t : Session} {fuel : Nat} {request : Request}
      {answer : Answer} (before : Served cfg log s)
      (step : s.serve cfg fuel request = some (answer, t)) :
      Served cfg (⟨request, answer⟩ :: log) t

/-- The exchanges since the flags were last cleared. A line clears them before it is run. -/
def sinceReset : List Exchange → List Exchange
  | [] => []
  | x :: earlier =>
    match x.request with
    | .reset => []
    | .line _ => [x]
    | _ => x :: sinceReset earlier

/-- The text of the request has syntax errors. -/
def Exchange.Flawed (x : Exchange) : Prop :=
  ∃ source, x.request.text? = some source ∧ flaws source ≠ []

/-- A run-time error is reported. -/
def Exchange.Failed (x : Exchange) : Prop :=
  ∃ r e, x.answer = .report r ∧ .runtime e ∈ r.diagnostics

end Session

variable {cfg : Setting} {log : List Exchange}

/-- A flag that is set by certain exchanges tells whether there was one since it was last
cleared. -/
theorem served_flag {flag : Session → Bool} {P : Exchange → Prop}
    (hreset : ∀ s, flag (reset s) = false)
    (hstep : ∀ request {action s t source r}, step action s source = some (r, t) →
      request.text? = some source → (flag t = true ↔ flag s = true ∨ P ⟨request, .report r⟩))
    (hlookup : ∀ name v, ¬ P ⟨.lookup name, .value v⟩) (h : Served cfg log s) :
    flag s = true ↔ ∃ x ∈ sinceReset log, P x := by
  induction h with
  | start =>
    have hinitial : flag initial = false := hreset initial
    simp [sinceReset, hinitial]
  | @next log s t fuel request answer before step ih =>
    cases request with
    | run source =>
      obtain ⟨⟨r, t⟩, hrun, hx⟩ := Option.map_eq_some_iff.mp step
      cases hx
      rw [hstep (.run source) hrun rfl, ih]
      simp [sinceReset, or_comm]
    | line source =>
      obtain ⟨⟨r, t⟩, hrun, hx⟩ := Option.map_eq_some_iff.mp step
      cases hx
      rw [hstep (.line source) hrun rfl, hreset]
      simp [sinceReset]
    | reset =>
      cases step
      simp [sinceReset, hreset]
    | lookup name =>
      cases step
      simp [sinceReset, hlookup, ih]

theorem served_hadError (h : Served cfg log s) :
    s.hadError = true ↔ ∃ x ∈ sinceReset log, x.Flawed := by
  refine served_flag (fun _ => rfl) (fun _ _ _ _ _ _ hstep htext => ?_) (fun _ _ => ?_) h
  · simp [step_hadError hstep, Exchange.Flawed, htext]
  · simp [Exchange.Flawed, Request.text?]

theorem served_hadRuntimeError (h : Served cfg log s) :
    s.hadRuntimeError = true ↔ ∃ x ∈ sinceReset log, x.Failed := by
  refine served_flag (fun _ => rfl) (fun _ _ _ _ _ _ hstep _ => ?_) (fun _ _ => ?_) h
  · simp [step_hadRuntimeError hstep, Exchange.Failed]
  · simp [Exchange.Failed]

/-- After any requests the flags tell what happened since they were last cleared, and the
next step depends on the history through them alone: it conducts itself as `Conducts` says,
and a text without syntax errors is ignored while a syntax error is flagged. -/
theorem session_protocol (h : Served cfg log s) :
    (s.hadError = true ↔ ∃ x ∈ sinceReset log, x.Flawed) ∧
    (s.hadRuntimeError = true ↔ ∃ x ∈ sinceReset log, x.Failed) ∧
    (∀ fuel source r t, s.run cfg fuel source = some (r, t) →
      s.Conducts (interpret cfg fuel) source r t) ∧
    (∀ fuel source r t, s.runLine cfg fuel source = some (r, t) →
      s.reset.Conducts (echo cfg fuel) source r t) ∧
    (∀ fuel source, s.hadError = true → flaws source = [] →
      s.run cfg fuel source = some (⟨.syntaxError, [], []⟩, s)) :=
  ⟨served_hadError h, served_hadRuntimeError h, fun _ _ _ _ => conducts_step,
    fun _ _ _ _ => conducts_step, fun _ _ hflag hflaws => step_ignores hflaws hflag⟩

/-- A script that cannot be read, a line that fails and another script that cannot be read:
both flags are set, and the next script is ignored. -/
theorem session_protocol_two_scripts_and_a_line :
    let cfg : Setting := { clock := fun _ => 0 }
    ∃ log s, Served cfg log s ∧ log.length = 3 ∧ (sinceReset log).length = 2 ∧
      (∃ x ∈ sinceReset log, x.Flawed) ∧ (∃ x ∈ sinceReset log, x.Failed) ∧
      s.run cfg 9 "print nil;" = some (⟨.syntaxError, [], []⟩, s) := by
  intro cfg
  have hruns : ((initial.run cfg 9 "print nil").bind fun x => (x.2.runLine cfg 9 "-nil;").bind
      fun y => (y.2.run cfg 9 "print ;").map fun z => (z.2.hadError, z.2.hadRuntimeError)) =
        some (true, true) := by decide +kernel
  obtain ⟨⟨ra, sa⟩, ha, hruns⟩ := Option.bind_eq_some_iff.mp hruns
  obtain ⟨⟨rb, sb⟩, hb, hruns⟩ := Option.bind_eq_some_iff.mp hruns
  obtain ⟨⟨rc, sc⟩, hc, hflags⟩ := Option.map_eq_some_iff.mp hruns
  simp only [Prod.mk.injEq] at hflags
  have hfirst : initial.serve cfg 9 (.run "print nil") = some (.report ra, sa) := by
    simp [serve, ha]
  have hsecond : sa.serve cfg 9 (.line "-nil;") = some (.report rb, sb) := by simp [serve, hb]
  have hthird : sb.serve cfg 9 (.run "print ;") = some (.report rc, sc) := by simp [serve, hc]
  have hserved := Served.next (.next (.next .start hfirst) hsecond) hthird
  obtain ⟨herror, hruntime, -, -, hignores⟩ := session_protocol hserved
  refine ⟨_, sc, hserved, rfl, rfl, herror.mp hflags.1, hruntime.mp hflags.2, ?_⟩
  exact hignores 9 "print nil;" hflags.1 (List.isEmpty_iff.mp (by decide +kernel))

end Treewalk
