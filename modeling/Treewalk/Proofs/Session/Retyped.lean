import Treewalk.Proofs.Printing.Constants
import Treewalk.Proofs.Session.Echo
import Treewalk.Proofs.Session.Quotes

/-!
# What is shown can be typed in again

The value of a line is shown as it would stand in a program. Strings are not escaped, and need
not be, since no string of a session has a quote in it. So a constant that was shown is shown
again when its text is typed in. The one exception are exponents, which cannot be typed in.

Results:

* `shows_constant`: the text of a constant as a line.
* `rejects_exponential`: the text of a number with an exponent as a line.
* `shown_can_be_retyped`: both for all that a session shows, and that strings have no quotes.
-/
namespace Treewalk

open Session

/-- The line shows the value and does nothing else, in any session. -/
def ShowsOnly (cfg : Setting) (source : String) (v : Value) : Prop :=
  ∀ (s : Session) (r : Report) (t : Session), s.RunsLine cfg source r t ↔
    r = ⟨.success, [v.code], []⟩ ∧ t = ⟨s.machine.print v.code, false, false⟩

/-- The line is a syntax error and nothing is run, in any session. -/
def IsRejected (cfg : Setting) (source : String) : Prop :=
  flaws source ≠ [] ∧
  ∀ (s : Session) (r : Report) (t : Session), s.RunsLine cfg source r t ↔
    r = ⟨.syntaxError, [], flaws source⟩ ∧ t = ⟨s.machine, true, false⟩

/-- No variable holds a string with a quote. -/
def Store.Unquoted (s : Store) : Prop := ∀ id name v, s.bound? id name = some v → v.Unquoted

variable {cfg : Setting} {log : List Exchange} {s : Session} {source : String} {v : Value}

/-! ## Texts of values as lines -/

theorem finishLone_value (s : Session) (v : Value) :
    s.finishLone (fun v => #[v.code]) (.ok v s.machine) =
      some (⟨.success, [v.code], []⟩, ⟨s.machine.print v.code, false, false⟩) := by
  have hprinted : (s.machine.print v.code).printed = s.machine.printed ++ #[v.code] := rfl
  have hsince := Machine.printedSince_append hprinted
  show some (Report.mk _ ((s.machine.print v.code).printedSince s.machine.printed.size) [], _) = _
  rw [hsince]
  rfl

/-- A constant and a semicolon, typed in, are shown as the constant. -/
theorem shows_constant (cfg : Setting) (h : v.Constant) (hquote : v.Unquoted) :
    ShowsOnly cfg (v.code ++ ";") v := by
  obtain ⟨e, he, fuel, hvalue⟩ := analyze_code h hquote
  intro s r t
  have hruns : s.finishLone (fun v => #[v.code]) (evaluate cfg fuel e s.machine) = _ :=
    hvalue cfg s.machine ▸ finishLone_value s v
  constructor
  · rintro ⟨fuel', hr⟩
    rw [runLine_lone he] at hr
    rw [evaluate_unique (ended_of_finishLone hr) (ended_of_finishLone hruns), hruns] at hr
    cases hr
    exact ⟨rfl, rfl⟩
  · rintro ⟨rfl, rfl⟩
    exact ⟨fuel, (runLine_lone he fuel).trans hruns⟩

/-- A number with an exponent and a semicolon, typed in, are rejected. -/
theorem rejects_exponential (cfg : Setting) (h : v.Exponential) :
    IsRejected cfg (v.code ++ ";") := by
  have hflaws := flaws_exponential h
  refine ⟨hflaws, fun s r t => ⟨?_, ?_⟩⟩
  · rintro ⟨fuel, hr⟩
    rw [runLine, step_rejects hflaws] at hr
    cases hr
    exact ⟨rfl, rfl⟩
  · rintro ⟨rfl, rfl⟩
    exact ⟨0, step_rejects hflaws⟩

/-! ## Values told by their texts -/

theorem Callable.head_text (c : Callable) : c.text.toList.head? = some '<' := by
  cases c with
  | clock => rfl
  | function d closure => simp [Callable.text]

/-- What starts with a quote is a string. -/
theorem constant_of_quote (h : v.code.toList.head? = some '"') : v.Constant := by
  cases v with
  | nil | bool b | string s => trivial
  | number x => exact absurd (List.mem_of_mem_head? h) (quote_not_mem_text x)
  | callable id c =>
    rw [show (Value.callable id c).code = c.text from rfl, c.head_text] at h
    cases h

/-- What starts with a digit and has an `e` is a number with an exponent. -/
theorem exponential_of_digit {c : Char} (h : v.code.toList.head? = some c)
    (hc : Piece.isDigit c = true) (he : 'e' ∈ v.code.toList) : v.Exponential := by
  cases v with
  | nil =>
    cases h
    cases hc
  | bool b =>
    cases b <;>
      (cases h
       cases hc)
  | string s =>
    simp only [Value.code, String.toList_append] at h
    cases h
    cases hc
  | number x =>
    refine ⟨?_, he⟩
    by_contra hfinite
    have htexts : ∀ text ∈ ["NaN", "Infinity", "-Infinity"],
        text.toList.head?.map Piece.isDigit = some false := by decide
    have hnot := htexts _ (text_of_not_finite hfinite)
    rw [show (Value.number x).text.toList.head? = some c from h, Option.map_some, hc] at hnot
    cases hnot
  | callable id f =>
    rw [show (Value.callable id f).code = f.text from rfl, f.head_text] at h
    cases h
    cases hc

/-! ## Values that are shown -/

theorem Standard.Meets.unquoted {s : Store} (h : unquoted.Meets s) : s.Unquoted :=
  fun id name v hv => (h id name v hv).1

/-- No string that is shown has a quote in it. -/
theorem shown_unquoted (h : Served cfg log s) (hv : s.Shows cfg source v) : v.Unquoted := by
  obtain ⟨e, fuel, m, he, hm⟩ := hv
  have hstmt := admits_unquoted (.line source) source _ rfl he (.expr e) List.mem_cons_self
  have hexpr := kept_unquoted.stmtExprs hstmt e List.mem_cons_self
  exact evaluate_unquoted hexpr (served_unquoted h) hm

/-- The value of a lone expression is the last thing that its line prints. -/
theorem runLine_shown {e : Expr} {fuel : Nat} {m : Machine}
    (he : analyze source = ([], some [.expr e]))
    (hm : evaluate cfg fuel e s.machine = .ok v m) :
    ∃ lines, s.runLine cfg fuel source =
      some (⟨.success, lines ++ [v.code], []⟩, ⟨m.print v.code, false, false⟩) := by
  obtain ⟨lines, hlines⟩ : Printed s.machine (after (evaluate cfg fuel e s.machine)) :=
    (PreservesAt.all printed_moves fuel).evaluate e s.machine
  rw [hm] at hlines
  have hprinted : (m.print v.code).printed = s.machine.printed ++ (lines ++ #[v.code]) := by
    rw [Machine.print, show m.printed = s.machine.printed ++ lines from hlines,
      Array.push_eq_append, Array.append_assoc]
  refine ⟨lines.toList, ?_⟩
  rw [runLine_lone he, hm]
  show some (Report.mk _ ((m.print v.code).printedSince s.machine.printed.size) [], _) = _
  rw [Machine.printedSince_append hprinted, Array.toList_append]
  rfl

/-- A line that prints something which the script does not print shows a value. -/
theorem shows_of_printed {fuel : Nat} {r r' : Report} {t t' : Session}
    (hr : s.runLine cfg fuel source = some (r, t))
    (hr' : s.reset.run cfg fuel source = some (r', t')) (hsuccess : r.outcome = .success)
    (hne : r.printed ≠ r'.printed) :
    ∃ v, s.Shows cfg source v ∧ r.printed.getLast? = some v.code := by
  obtain ⟨e, he⟩ : ∃ e, analyze source = ([], some [.expr e]) := by
    by_contra hnone
    rw [runLine_eq_run fun p hp e he => hnone ⟨e, he ▸ hp⟩, hr'] at hr
    cases hr
    exact hne rfl
  cases hv : evaluate cfg fuel e s.machine with
  | ok v m =>
    obtain ⟨lines, hline⟩ := runLine_shown he hv
    rw [hline] at hr
    cases hr
    exact ⟨v, ⟨e, fuel, m, he, hv⟩, by simp⟩
  | error stop m =>
    rw [runLine_lone he, hv] at hr
    cases stop with
    | error err =>
      cases hr
      cases hsuccess
    | _ => cases hr

/-- In every session, no string that a variable holds or that an expression has for a value
contains a quote. Whenever a line shows `nil`, a boolean, a string or a finite number without an
exponent, that text with a semicolon, typed in at any later time, succeeds, changes no variable
and shows the same text again. A finite number that is shown with an exponent is rejected when
it is typed in, and nothing is run. -/
theorem shown_can_be_retyped (h : Served cfg log s) :
    s.machine.store.Unquoted ∧
    (∀ fuel request, ∀ z ∈ s.during cfg fuel request, z.machine.store.Unquoted ∧
      ∀ e, z.event = .expr e → ∀ fuel v m, evaluate cfg fuel e z.machine = .ok v m → v.Unquoted) ∧
    ∀ source v, s.Shows cfg source v →
      (∃ r t, s.RunsLine cfg source r t ∧ r.outcome = .success ∧
        r.printed.getLast? = some v.code) ∧
      (v.Constant → ShowsOnly cfg (v.code ++ ";") v) ∧
      (v.Exponential → IsRejected cfg (v.code ++ ";")) := by
  refine ⟨(served_unquoted h).unquoted, fun fuel request z hz => ?_, fun source v hv => ?_⟩
  · obtain ⟨hmeets, hbegins⟩ := holds_unquoted h hz
    refine ⟨hmeets.unquoted, fun e he fuel v m hm => ?_⟩
    rw [he] at hbegins
    exact evaluate_unquoted hbegins hmeets hm
  · obtain ⟨e, fuel, m, he, hm⟩ := id hv
    obtain ⟨lines, hline⟩ := runLine_shown he hm
    refine ⟨⟨_, _, ⟨fuel, hline⟩, rfl, by simp⟩, fun hconstant => ?_, rejects_exponential cfg⟩
    exact shows_constant cfg hconstant (shown_unquoted h hv)

/-- A string that was put together from a negative number is shown and typed in again, and a
small number is shown and cannot be typed in again. -/
theorem shown_can_be_retyped_variables :
    let cfg : Setting := { clock := fun _ => 0 }
    let script := "var half = -0.5; var label = \"half: \" + half; var tiny = 0.0000001;"
    ∃ log s v v', Served cfg log s ∧ (initial.run cfg 9 script).map Prod.snd = some s ∧
      s.Shows cfg "label;" v ∧ ShowsOnly cfg "\"half: -0.5\";" v ∧
      s.Shows cfg "tiny;" v' ∧ IsRejected cfg "1e-7;" := by
  intro cfg script
  have hruns : ((initial.run cfg 9 script).bind fun x => (x.2.runLine cfg 9 "label;").bind
      fun y => (x.2.reset.run cfg 9 "label;").bind fun y' => (x.2.runLine cfg 9 "tiny;").bind
        fun z => (x.2.reset.run cfg 9 "tiny;").map fun z' =>
          [(y.1.outcome, y.1.printed), (y'.1.outcome, y'.1.printed), (z.1.outcome, z.1.printed),
            (z'.1.outcome, z'.1.printed)]) =
      some [(.success, ["\"half: -0.5\""]), (.success, []), (.success, ["1e-7"]),
        (.success, [])] := by decide +kernel
  obtain ⟨⟨r₀, s⟩, hs, hruns⟩ := Option.bind_eq_some_iff.mp hruns
  obtain ⟨⟨ra, ta⟩, ha, hruns⟩ := Option.bind_eq_some_iff.mp hruns
  obtain ⟨⟨ra', ta'⟩, ha', hruns⟩ := Option.bind_eq_some_iff.mp hruns
  obtain ⟨⟨rb, tb⟩, hb, hruns⟩ := Option.bind_eq_some_iff.mp hruns
  obtain ⟨⟨rb', tb'⟩, hb', hfacts⟩ := Option.map_eq_some_iff.mp hruns
  simp only [List.cons.injEq, Prod.mk.injEq] at hfacts
  obtain ⟨⟨hasuccess, halines⟩, ⟨-, halines'⟩, ⟨hbsuccess, hblines⟩, ⟨-, hblines'⟩, -⟩ := hfacts
  obtain ⟨v, hv, hvcode⟩ := shows_of_printed ha ha' hasuccess (by rw [halines, halines']; nofun)
  obtain ⟨u, hu, hucode⟩ := shows_of_printed hb hb' hbsuccess (by rw [hblines, hblines']; nofun)
  rw [halines, List.getLast?_singleton, Option.some.injEq] at hvcode
  rw [hblines, List.getLast?_singleton, Option.some.injEq] at hucode
  have hserve : initial.serve cfg 9 (.run script) = some (.report r₀, s) := by rw [serve, hs]; rfl
  have hserved : Served cfg [⟨.run script, .report r₀⟩] s := .next .start hserve
  obtain ⟨-, -, hshown⟩ := shown_can_be_retyped hserved
  obtain ⟨-, hlabel, -⟩ := hshown _ _ hv
  obtain ⟨-, -, htiny⟩ := hshown _ _ hu
  have hconstant : v.Constant := constant_of_quote (by rw [← hvcode]; rfl)
  have hexponential : u.Exponential :=
    exponential_of_digit (c := '1') (by rw [← hucode]; rfl) rfl (by rw [← hucode]; decide)
  refine ⟨_, s, v, u, hserved, by rw [hs]; rfl, hv, ?_, hu, ?_⟩
  · rw [← hvcode] at hlabel
    exact hlabel hconstant
  · rw [← hucode] at htiny
    exact htiny hexponential

end Treewalk
