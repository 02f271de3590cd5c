import Treewalk.Proofs.Machine.Timeline
import Treewalk.Proofs.Session.Reached

/-!
# Control comes back

However a run ends, with a value, a `return` or an error from any depth of blocks and
calls, code runs in the same scope as before and the same calls are open. On the way no
more calls are open at once than the limit allows. So between the steps of a session
code runs in the globals and no call is open.

Results:

* `restores_moves`: every move of the machine gives control back.
* `confined_during`: open calls stay within the limit at every moment of a run.
* `control_restored`: both, for every run and for the steps of every session.
-/
namespace Treewalk

/-! ## After a run -/

/-- Code runs in the same scope again, with as many calls open. -/
def Restores (m m' : Machine) : Prop := m'.scope = m.scope ∧ m'.depth = m.depth

theorem restores_moves : MachineMoves Restores where
  refl _ := ⟨rfl, rfl⟩
  trans h h' := ⟨h'.1.trans h.1, h'.2.trans h.2⟩
  print _ _ := ⟨rfl, rfl⟩
  define _ _ _ _ := ⟨rfl, rfl⟩
  create _ := ⟨rfl, rfl⟩
  clock _ := ⟨rfl, rfl⟩
  enclose _ _ := ⟨rfl, rfl⟩
  inScope _ _ _ h := ⟨rfl, h.2⟩
  activate _ _ h := ⟨h.1, Nat.sub_eq_of_eq_add h.2⟩

/-! ## During a run -/

/-- At no moment of the run more calls are open than at its start or at the limit. -/
theorem compositional_staysWithin (limit : Nat) :
    Compositional (some limit) (some limit)
      fun _ x _ => StaysOpen (fun d d' => d' ≤ max d limit) x := by
  refine compositional_staysOpen (fun d => Nat.le_max_left d limit) fun d d' hroom hd' => ?_
  -- The call is opened below the limit, so one more call does not exceed it.
  have hlimit : d < limit := by simpa using hroom
  omega

/-- A run that ends with `r` never has more calls open than the limit, neither at one of its
moments nor by the machine's own count. -/
structure Confined {α : Type} (limit : Nat) (m : Machine) (r : EStateM.Result Stop Machine α)
    (moments : List Moment) : Prop where
  moments : ∀ z ∈ moments, z.machine.depth ≤ limit
  counted : (after r).deepest ≤ max m.deepest limit

theorem foldl_opened_le {limit : Nat} {moments : List Moment}
    (h : ∀ z ∈ moments, z.machine.depth ≤ limit) (d : Nat) :
    moments.foldl (fun d z => max d z.opened) d ≤ max d limit := by
  induction moments generalizing d with
  | nil => exact Nat.le_max_left _ _
  | cons z zs ih =>
    obtain ⟨hz, hzs⟩ := List.forall_mem_cons.mp h
    have hopened : z.opened ≤ limit := by
      unfold Moment.opened
      split <;> omega
    have := ih hzs (max d z.opened)
    rw [List.foldl_cons]
    omega

/-- Open calls stay within the limit at every moment of a run. -/
theorem confined_during {α : Type} {limit : Nat} {x : Recorded α}
    (hw : StaysOpen (fun d d' => d' ≤ max d limit) x) (hc : CountsOpen x) {m : Machine}
    (hm : m.depth ≤ limit) : Confined limit m (x.run m) (x.timeline m) := by
  have hmoments : ∀ z ∈ x.timeline m, z.machine.depth ≤ limit := by
    intro z hz
    have : z.machine.depth ≤ max m.depth limit := (hw m).2 z hz
    rwa [Nat.max_eq_right hm] at this
  refine ⟨hmoments, ?_⟩
  rw [hc m]
  exact foldl_opened_le hmoments m.deepest

/-- So they do in any run that ends alike. -/
theorem Confined.of_after {α β : Type} {limit : Nat} {m : Machine}
    {r : EStateM.Result Stop Machine α} {r' : EStateM.Result Stop Machine β}
    {moments : List Moment} (h : Confined limit m r moments) (hr : after r = after r') :
    Confined limit m r' moments :=
  ⟨h.moments, hr ▸ h.counted⟩

/-! ## Between the steps of a session -/

theorem restores_echo (cfg : Setting) (fuel : Nat) (p : Program) :
    Preserves Restores (Session.echo cfg fuel p) := by
  unfold Session.echo
  split
  · exact preserves_bind restores_moves ((PreservesAt.all restores_moves fuel).evaluate _)
      fun _ => preserves_step restores_moves (.printLine _)
  · exact preserves_interpret restores_moves cfg fuel _

theorem restores_step {action : Program → Eval Unit} (h : ∀ p, Preserves Restores (action p))
    {s t : Session} {source : String} {r : Report} (hstep : s.step action source = some (r, t)) :
    Restores s.machine t.machine := by
  obtain ht | ⟨p, -, ht⟩ := step_machine hstep
  · rw [ht]
    exact restores_moves.refl _
  · rw [ht]
    exact h p s.machine

theorem reached_atRest {cfg : Setting} {s : Session} (h : s.Reached cfg) :
    s.machine.scope = Machine.globals ∧ s.machine.depth = 0 := by
  induction h with
  | initial => exact ⟨rfl, rfl⟩
  | @run s t fuel source r _ hstep ih =>
    have := restores_step (preserves_interpret restores_moves cfg fuel) hstep
    exact ⟨this.1.trans ih.1, this.2.trans ih.2⟩
  | @runLine s t fuel source r _ hstep ih =>
    have := restores_step (restores_echo cfg fuel) hstep
    exact ⟨this.1.trans ih.1, this.2.trans ih.2⟩

/-! ## All of it -/

/-- However an expression, a statement or a block in any scope ends, code runs in the same
scope as before and the same calls are open; on the way there are never more than the limit
allows. After every step of a session, whether it fails or not, code runs in the globals and
no call is open. -/
theorem control_restored (cfg : Setting) :
    (∀ (fuel : Nat) (m : Machine),
      (∀ e, Restores m (after (evaluate cfg fuel e m))) ∧
      (∀ s, Restores m (after (execute cfg fuel s m))) ∧
      ∀ id body, Restores m (after (Eval.inScope id (executeAll cfg fuel body) m))) ∧
    (∀ limit, cfg.callLimit = some limit → ∀ (fuel : Nat) (m : Machine), m.depth ≤ limit →
      (∀ e, Confined limit m (evaluate cfg fuel e m) (duringExpr cfg fuel e m)) ∧
      (∀ s, Confined limit m (execute cfg fuel s m) (duringStmt cfg fuel s m)) ∧
      ∀ id body, Confined limit m (Eval.inScope id (executeAll cfg fuel body) m)
        (duringBlock cfg fuel id body m)) ∧
    ∀ s : Session, s.Reached cfg → s.machine.scope = Machine.globals ∧ s.machine.depth = 0 := by
  refine ⟨fun fuel m => ?_, fun limit hlimit fuel m hm => ?_, fun s => reached_atRest⟩
  · have h : PreservesAt Restores cfg fuel := .all restores_moves fuel
    exact ⟨fun e => h.evaluate e m, fun s => h.execute s m,
      fun id body => preserves_inScope restores_moves id (h.executeAll body) m⟩
  · obtain ⟨clock, callLimit, ternary⟩ := cfg
    obtain rfl : callLimit = some limit := hlimit
    let cfg : Setting := ⟨clock, some limit, ternary⟩
    have hwithin := compositional_staysWithin limit
    have hcounts := compositional_countsOpen (some limit)
    refine ⟨fun e => ?_, fun s => ?_, fun id body => ?_⟩
    · have h := confined_during (hwithin.evaluate cfg fuel [] e) (hcounts.evaluate cfg fuel [] e) hm
      exact h.of_after (congrArg after (congrFun (runs_evaluate cfg fuel [] e) m))
    · have h := confined_during (hwithin.execute cfg fuel [] s) (hcounts.execute cfg fuel [] s) hm
      exact h.of_after (after_execute cfg fuel [] s m)
    · have hw := (hwithin.executeAll cfg fuel [] 0 body).inScope id
      have hc := (hcounts.executeAll cfg fuel [] 0 body).inScope id
      have hruns := projects_inScope id (runs_executeAll cfg fuel [] 0 body)
      exact (confined_during hw hc hm).of_after (hruns.after m)

/-- An error in a block of a called function, and a call that is open at some moment. -/
theorem control_restored_negation :
    let cfg : Setting := { clock := fun _ => 0 }
    let source := "fun f() \x7b \x7b -f; \x7d \x7d f();"
    let reading : Expr :=
      .call (.name ⟨.identifier, "clock", none, 1⟩) ⟨.rightParen, ")", none, 1⟩ []
    (∃ r t, Session.initial.run cfg 20 source = some (r, t) ∧ r.outcome = .runtimeError ∧
      t.machine.scope = Machine.globals ∧ t.machine.depth = 0) ∧
    ∃ z ∈ duringExpr cfg 3 reading Machine.initial, z.machine.depth = 1 ∧
      z.machine.depth ≤ 1024 ∧
      Restores Machine.initial (after (evaluate cfg 3 reading Machine.initial)) := by
  intro cfg source reading
  obtain ⟨hrestores, hconfined, hrest⟩ := control_restored cfg
  have hrun : (Session.initial.run cfg 20 source).map (fun x => x.1.outcome) =
      some .runtimeError := by decide +kernel
  obtain ⟨⟨r, t⟩, hr, ho⟩ := Option.map_eq_some_iff.mp hrun
  have hdepths : (duringExpr cfg 3 reading Machine.initial).map (fun z => z.machine.depth) =
      [0, 0, 1] := by decide +kernel
  obtain ⟨z, hz, hone⟩ : ∃ z ∈ duringExpr cfg 3 reading Machine.initial, z.machine.depth = 1 := by
    apply List.mem_map.mp
    rw [hdepths]
    decide
  have hwithin := ((hconfined 1024 rfl 3 Machine.initial (by decide)).1 reading).moments z hz
  exact ⟨⟨r, t, hr, ho, hrest t (.run .initial hr)⟩, z, hz, hone, hwithin,
    (hrestores 3 Machine.initial).1 reading⟩

end Treewalk
