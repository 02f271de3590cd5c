import Treewalk.Proofs.Fuel
import Treewalk.Proofs.Grammar.Append
import Treewalk.Proofs.Lexical.LineBreak
import Treewalk.Proofs.Lines.Marks
import Treewalk.Proofs.Lines.Reading
import Treewalk.Proofs.Machine.Moves
import Treewalk.Proofs.Machine.Returns
import Treewalk.Proofs.Session.Reached

/-!
# Scripts in parts

A script can be cut in two between lines: running its parts one after the other
does what running all of it does. Only the lines of the second part differ; they
are counted from its own start. Where a line comes from is told by a run with marks
(`Session.RunsMarked`), of which both runs are images.

Results:

* `analyze_join`: the program of two texts, one above the other, is their programs
  one after the other.
* `run_in_parts`: running two texts, one above the other, and running them in turn.
-/
namespace Treewalk

open Session

/-! ## The program of two texts -/

theorem analyze_join {a b : String} {p q : Program} (ha : analyze a = ([], some p))
    (hb : analyze b = ([], some q)) :
    analyze (a ++ "\n" ++ b) = ([], some (p ++ Stmt.relabelAll (· + endLine a) q)) := by
  obtain ⟨hae, hap⟩ := analyze_eq.mp ha
  obtain ⟨hbe, hbp⟩ := analyze_eq.mp hb
  obtain ⟨htokens, herrors⟩ := Lexical.scan_newline a b (by simp [hae])
  refine analyze_eq.mpr ⟨by simp [herrors, hae, hbe], ?_⟩
  rw [htokens, ← Lexical.scan_tokens]
  exact parse_append hap (parse_relabel _ hbp)

/-! ## Relabelled reports -/

section Reports

variable (f : Nat → Nat)

def Diagnostic.relabel : Diagnostic → Diagnostic
  | .lexical e => .lexical { e with line := f e.line }
  | .grammar e => .grammar { e with token := e.token.relabel f }
  | .runtime e => .runtime (e.relabel f)

def Report.relabel (r : Report) : Report :=
  { r with diagnostics := r.diagnostics.map (Diagnostic.relabel f) }

def Session.relabel (s : Session) : Session := { s with machine := s.machine.relabel f }

theorem finish_relabel (hadRuntimeError : Bool) (before : Nat)
    (r : EStateM.Result Stop Machine Unit) :
    finish hadRuntimeError before (relabelResult f id r) =
      (finish hadRuntimeError before r).map fun x => (x.1.relabel f, x.2.relabel f) := by
  cases r with
  | ok a m => rfl
  | error e m => cases e <;> rfl

end Reports

/-- The report of a run with lines that were printed just before it. -/
def Report.printedAfter (lines : List String) (r : Report) : Report :=
  { r with printed := lines ++ r.printed }

theorem Machine.printedSince_append {m : Machine} {old lines : Array String}
    (h : m.printed = old ++ lines) : m.printedSince old.size = lines.toList := by
  simp [Machine.printedSince, h]

theorem finish_after {m m' : Machine} {lines : Array String} (hadRuntimeError : Bool)
    (hm : m'.printed = m.printed ++ lines) (r : EStateM.Result Stop Machine Unit)
    (hr : Printed m' (after r)) :
    finish hadRuntimeError m.printed.size r =
      (finish hadRuntimeError m'.printed.size r).map fun x =>
        (x.1.printedAfter lines.toList, x.2) := by
  obtain ⟨more, hmore⟩ := hr
  have hsince : (after r).printedSince m.printed.size =
      lines.toList ++ (after r).printedSince m'.printed.size := by
    rw [Machine.printedSince_append hmore,
      Machine.printedSince_append (hmore.trans (by rw [hm, Array.append_assoc])),
      Array.toList_append]
  cases r with
  | ok a t =>
    simp only [after] at hsince
    simp only [finish, hsince, Option.map_some]
    rfl
  | error e t =>
    simp only [after] at hsince
    cases e with
    | error e =>
      simp only [finish, hsince, Option.map_some]
      rfl
    | _ => rfl

/-! ## Runs that end -/

/-- Running the text ends with this report and this session. -/
def Session.Runs (cfg : Setting) (s : Session) (source : String) (r : Report) (t : Session) :
    Prop :=
  ∃ fuel, s.run cfg fuel source = some (r, t)

/-- Running the program ends with this report and this session, in which the lines of
`s` are marked as held and those of the program as given. -/
def Session.RunsMarked (cfg : Setting) (s : Session) (p : Program) (r : Report) (t : Session) :
    Prop :=
  ∃ fuel, finish s.hadRuntimeError s.machine.printed.size (interpretMarked cfg fuel p s.machine) =
    some (r, t)

variable {cfg : Setting} {s t : Session} {source : String} {p : Program} {r : Report}

theorem run_eq_finish (h : analyze source = ([], some p)) (hs : s.hadError = false) (fuel : Nat) :
    s.run cfg fuel source =
      finish s.hadRuntimeError s.machine.printed.size (interpret cfg fuel p s.machine) := by
  simp only [run, step, h, hs]
  rfl

theorem finish_extends {fuel fuel' : Nat} {hadRuntimeError : Bool} {before : Nat} {m : Machine}
    {x : Report × Session} (h : finish hadRuntimeError before (interpret cfg fuel p m) = some x)
    (hf : fuel ≤ fuel') : interpret cfg fuel' p m = interpret cfg fuel p m := by
  obtain ⟨m', hm⟩ | hm := interpret_extends hf p m
  · rw [hm] at h
    cases h
  · exact hm

/-- However much fuel there is, a run that ends ends in one way. -/
theorem Session.Runs.unique {r' : Report} {t' : Session} (h : analyze source = ([], some p))
    (hs : s.hadError = false) (hr : s.Runs cfg source r t) (hr' : s.Runs cfg source r' t') :
    r' = r ∧ t' = t := by
  obtain ⟨fuel, hr⟩ := hr
  obtain ⟨fuel', hr'⟩ := hr'
  rw [run_eq_finish h hs] at hr hr'
  rw [← finish_extends hr (Nat.le_max_left fuel fuel')] at hr
  rw [← finish_extends hr' (Nat.le_max_right fuel fuel'), hr] at hr'
  cases hr'
  exact ⟨rfl, rfl⟩

/-- A run is the run with marks, without its marks. -/
theorem runs_iff_marked (h : analyze source = ([], some p)) (hs : s.hadError = false) :
    s.Runs cfg source r t ↔
      ∃ r' t', s.RunsMarked cfg p r' t' ∧ r = r'.relabel unmarked ∧ t = t'.relabel unmarked := by
  have hfuel : ∀ fuel, s.run cfg fuel source = (finish s.hadRuntimeError s.machine.printed.size
      (interpretMarked cfg fuel p s.machine)).map fun x =>
        (x.1.relabel unmarked, x.2.relabel unmarked) := by
    intro fuel
    rw [run_eq_finish h hs, interpret_unmarked, finish_relabel]
  simp only [Session.Runs, Session.RunsMarked, hfuel, Option.map_eq_some_iff, Prod.mk.injEq,
    Prod.exists]
  constructor
  · rintro ⟨fuel, r', t', hr, rfl, rfl⟩
    exact ⟨r', t', ⟨fuel, hr⟩, rfl, rfl⟩
  · rintro ⟨r', t', ⟨fuel, hr⟩, rfl, rfl⟩
    exact ⟨fuel, r', t', hr, rfl, rfl⟩

/-! ## One text above the other -/

theorem runs_success (h : analyze source = ([], some p)) (he : s.hadError = false)
    (hr : s.Runs cfg source r t) (ho : r.outcome = .success) :
    t.hadError = false ∧ t.hadRuntimeError = s.hadRuntimeError ∧
      ∃ lines fuel, interpret cfg fuel p s.machine = .ok () t.machine ∧
        t.machine.printed = s.machine.printed ++ lines ∧ r.printed = lines.toList := by
  obtain ⟨fuel, hr⟩ := hr
  rw [run_eq_finish h he] at hr
  have hprinted := interpret_printed cfg fuel p s.machine
  cases hi : interpret cfg fuel p s.machine with
  | ok a m =>
    rw [hi] at hr hprinted
    cases hr
    obtain ⟨lines, hlines⟩ := hprinted
    exact ⟨rfl, rfl, lines, fuel, hi, hlines, Machine.printedSince_append hlines⟩
  | error e m =>
    rw [hi] at hr
    cases e with
    | error e => cases hr; cases ho
    | _ => cases hr

/-- What follows a part that ends with an error is not run. -/
theorem runs_join_error {a b : String} {q : Program} (ha : analyze a = ([], some p))
    (hb : analyze b = ([], some q)) (he : s.hadError = false) (hf : s.hadRuntimeError = false)
    (hr : s.Runs cfg a r t) (ho : r.outcome = .runtimeError) :
    s.Runs cfg (a ++ "\n" ++ b) r t := by
  obtain ⟨fuel, hr⟩ := hr
  refine ⟨fuel, ?_⟩
  have hregular := parse_regular (analyze_eq.mp ha).2
  rw [run_eq_finish ha he] at hr
  rw [run_eq_finish (analyze_join ha hb) he, interpret_append fuel hregular]
  cases hi : interpret cfg fuel p s.machine with
  | ok a m =>
    rw [hi, hf] at hr
    cases hr
    cases ho
  | error e m => rw [bind_of_error hi, ← hi, hr]

/-- What follows a part that succeeds is run next, further down. -/
theorem run_join {a b : String} {q : Program} {fuel : Nat} {lines : Array String}
    (ha : analyze a = ([], some p)) (hb : analyze b = ([], some q)) (he : s.hadError = false)
    (hf : t.hadRuntimeError = s.hadRuntimeError)
    (hi : interpret cfg fuel p s.machine = .ok () t.machine)
    (hl : t.machine.printed = s.machine.printed ++ lines) :
    s.run cfg fuel (a ++ "\n" ++ b) =
      (finish t.hadRuntimeError t.machine.printed.size (interpretMarked cfg fuel q t.machine)).map
        fun x => ((x.1.relabel (shifted (endLine a))).printedAfter lines.toList,
          x.2.relabel (shifted (endLine a))) := by
  have hregular := parse_regular (analyze_eq.mp ha).2
  rw [run_eq_finish (analyze_join ha hb) he, interpret_append fuel hregular, bind_of_ok hi,
    finish_after _ hl _ (interpret_printed cfg fuel _ t.machine), interpret_shifted,
    finish_relabel, hf, Option.map_map]
  rfl

theorem runs_join_iff {a b : String} {q : Program} {ra rb : Report} {sb : Session}
    (ha : analyze a = ([], some p)) (hb : analyze b = ([], some q)) (he : s.hadError = false)
    (hr : s.Runs cfg a ra t) (ho : ra.outcome = .success) :
    s.Runs cfg (a ++ "\n" ++ b) rb sb ↔
      ∃ r' t', t.RunsMarked cfg q r' t' ∧
        rb = (r'.relabel (shifted (endLine a))).printedAfter ra.printed ∧
        sb = t'.relabel (shifted (endLine a)) := by
  obtain ⟨-, hf, lines, fuel₀, hi, hl, hp⟩ := runs_success ha he hr ho
  -- With enough fuel for the first part the run is an image of the marked one.
  have hjoin : ∀ fuel, fuel₀ ≤ fuel → s.run cfg fuel (a ++ "\n" ++ b) =
      (finish t.hadRuntimeError t.machine.printed.size (interpretMarked cfg fuel q t.machine)).map
        fun x => ((x.1.relabel (shifted (endLine a))).printedAfter ra.printed,
          x.2.relabel (shifted (endLine a))) := by
    intro fuel hle
    rw [hp]
    refine run_join ha hb he hf ?_ hl
    obtain ⟨m', hm⟩ | hm := interpret_extends hle p s.machine
    · rw [hi] at hm
      cases hm
    · rw [hm, hi]
  constructor
  · rintro ⟨fuel, hrun⟩
    have hmax : s.run cfg (max fuel₀ fuel) (a ++ "\n" ++ b) = some (rb, sb) := by
      rw [run_eq_finish (analyze_join ha hb) he] at hrun ⊢
      rw [finish_extends hrun (Nat.le_max_right fuel₀ fuel), hrun]
    rw [hjoin _ (Nat.le_max_left fuel₀ fuel), Option.map_eq_some_iff] at hmax
    obtain ⟨⟨r', t'⟩, hmarked, hx⟩ := hmax
    cases hx
    exact ⟨r', t', ⟨_, hmarked⟩, rfl, rfl⟩
  · rintro ⟨r', t', ⟨fuel, hmarked⟩, rfl, rfl⟩
    refine ⟨max fuel₀ fuel, ?_⟩
    rw [hjoin _ (Nat.le_max_left fuel₀ fuel)]
    rw [interpretMarked, ← finish_extends hmarked (Nat.le_max_right fuel₀ fuel)] at hmarked
    rw [interpretMarked, hmarked]
    rfl

/-- Running two texts, one above the other, and running them in turn. If the first one
succeeds, both ways end or neither does, and what they end with comes from one run of
the second program with marked lines: running it on its own takes the marks away, and
running it below the first text also moves its own lines down. If the first one ends
with a run-time error, the second one makes no difference. -/
theorem run_in_parts {a b : String} {pa pb : Program} {s sa : Session} {ra : Report}
    (ha : analyze a = ([], some pa)) (hb : analyze b = ([], some pb))
    (he : s.hadError = false) (hf : s.hadRuntimeError = false) (hr : s.Runs cfg a ra sa) :
    (ra.outcome = .success →
      ((∃ r t, s.Runs cfg (a ++ "\n" ++ b) r t) ↔ ∃ rb sb, sa.Runs cfg b rb sb) ∧
      ∀ rb sb, sa.Runs cfg b rb sb → ∃ r' t', sa.RunsMarked cfg pb r' t' ∧
        rb = r'.relabel unmarked ∧ sb = t'.relabel unmarked ∧
        ∀ r t, s.Runs cfg (a ++ "\n" ++ b) r t ↔
          r = ⟨rb.outcome, ra.printed ++ rb.printed,
            r'.diagnostics.map (Diagnostic.relabel (shifted (1 + a.toList.count '\n')))⟩ ∧
          t = t'.relabel (shifted (1 + a.toList.count '\n'))) ∧
    (ra.outcome = .runtimeError →
      ∀ r t, s.Runs cfg (a ++ "\n" ++ b) r t ↔ r = ra ∧ t = sa) := by
  constructor
  · intro ho
    obtain ⟨hsa, -⟩ := runs_success ha he hr ho
    have hend : ∀ {r t}, s.Runs cfg (a ++ "\n" ++ b) r t ↔ _ := runs_join_iff ha hb he hr ho
    have hown : ∀ {r t}, sa.Runs cfg b r t ↔ _ := runs_iff_marked hb hsa
    refine ⟨⟨?_, ?_⟩, fun rb sb hrb => ?_⟩
    · rintro ⟨r, t, hrun⟩
      obtain ⟨r', t', hmarked, -, -⟩ := hend.mp hrun
      exact ⟨_, _, hown.mpr ⟨r', t', hmarked, rfl, rfl⟩⟩
    · rintro ⟨r, t, hrun⟩
      obtain ⟨r', t', hmarked, -, -⟩ := hown.mp hrun
      exact ⟨_, _, hend.mpr ⟨r', t', hmarked, rfl, rfl⟩⟩
    · obtain ⟨r', t', hmarked, rfl, rfl⟩ := hown.mp hrb
      refine ⟨r', t', hmarked, rfl, rfl, fun r t => ?_⟩
      have hjoined := hend.mpr ⟨r', t', hmarked, rfl, rfl⟩
      constructor
      · exact hjoined.unique (analyze_join ha hb) he
      · rintro ⟨rfl, rfl⟩
        exact hjoined
  · intro ho r t
    have hjoined := runs_join_error ha hb he hf hr ho
    constructor
    · exact hjoined.unique (analyze_join ha hb) he
    · rintro ⟨rfl, rfl⟩
      exact hjoined

theorem analyze_get (source : String) (h : (analyze source).1.isEmpty = true)
    (hp : (analyze source).2.isSome = true) :
    analyze source = ([], some ((analyze source).2.get hp)) := by
  rw [Option.some_get, ← List.isEmpty_iff.mp h]

/-- A function of the first text is printed and negated in the second one. -/
theorem run_in_parts_negation :
    let cfg : Setting := { clock := fun _ => 0 }
    let a := "fun f() \x7b\x7d"
    let b := "print f;\n-f;"
    ∃ pa pb ra sa, analyze a = ([], some pa) ∧ analyze b = ([], some pb) ∧
      initial.Runs cfg a ra sa ∧ ra.outcome = .success ∧
      ∃ r t, initial.Runs cfg (a ++ "\n" ++ b) r t ∧
        r.outcome = .runtimeError ∧ r.printed = ["<fn f>"] := by
  intro cfg a b
  have ha := analyze_get a (by decide +kernel) (by decide +kernel)
  have hb := analyze_get b (by decide +kernel) (by decide +kernel)
  have hruns : ((initial.run cfg 9 a).bind fun x => (x.2.run cfg 9 b).map fun y =>
      (x.1.outcome, y.1.outcome, x.1.printed ++ y.1.printed)) =
        some (.success, .runtimeError, ["<fn f>"]) := by decide +kernel
  obtain ⟨⟨ra, sa⟩, hra, hsecond⟩ := Option.bind_eq_some_iff.mp hruns
  obtain ⟨⟨rb, sb⟩, hrb, hx⟩ := Option.map_eq_some_iff.mp hsecond
  simp only [Prod.mk.injEq] at hx
  obtain ⟨hfirst, hboth, hprinted⟩ := hx
  obtain ⟨r', t', -, -, -, h⟩ :=
    ((run_in_parts ha hb rfl rfl ⟨9, hra⟩).1 hfirst).2 rb sb ⟨9, hrb⟩
  exact ⟨_, _, ra, sa, ha, hb, ⟨9, hra⟩, hfirst, _, _, (h _ _).mpr ⟨rfl, rfl⟩, hboth, hprinted⟩

end Treewalk
