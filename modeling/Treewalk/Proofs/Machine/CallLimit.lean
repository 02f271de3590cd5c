import Treewalk.Proofs.Machine.Timeline

/-!
# The limit for open calls

A run under a limit and the same run without one go the same way until the latter opens
a call beyond the limit. There the former ends with a stack overflow.

Results:

* `compositional_cutOff`: the two runs side by side.
* `callLimit_transparent`: what the end of either run says about the other one.
-/
namespace Treewalk

/-! ## Two runs side by side -/

/-- Nothing but the scope that code runs in and the open calls differ. -/
structure SameEffects (m m' : Machine) : Prop where
  store : m'.store = m.store
  printed : m'.printed = m.printed
  created : m'.created = m.created
  readings : m'.readings = m.readings

/-- The result is a stack overflow at the call that begins with the moment, with all that
was done up to then. -/
def OverflowsAt {α : Type} (z : Moment) (r : EStateM.Result Stop Machine α) : Prop :=
  ∃ c paren args m, z.event = .call c paren args ∧
    r = .error (.error ⟨paren, .stackOverflow⟩) m ∧ SameEffects z.machine m

/-- `y` does what `x` does, except that it overflows where the timeline of `x` first has
more than `limit` calls open. -/
def CutOff (limit : Nat) {α β : Type} (g : α → β) (x : Recorded α) (y : Eval β) : Prop :=
  ∀ m,
    match (x.timeline m).find? (fun z => limit < z.opened) with
    | none => viewed id g (x.run m) = y m
    | some z => OverflowsAt z (y m)

theorem OverflowsAt.bind {α β : Type} {z : Moment} {x : Eval α} {k : α → Eval β} {m : Machine}
    (h : OverflowsAt z (x m)) : OverflowsAt z ((x >>= k) m) := by
  obtain ⟨c, paren, args, m', he, hx, heffects⟩ := h
  exact ⟨c, paren, args, m', he, bind_of_error hx, heffects⟩

/-- Leaving scopes and calls on the way out has no other effects. -/
theorem OverflowsAt.leaving {α : Type} {z : Moment} {r : EStateM.Result Stop Machine α}
    (h : OverflowsAt z r) {f : Machine → Machine} (hf : ∀ m, SameEffects m (f m)) :
    OverflowsAt z (leaving f r) := by
  obtain ⟨c, paren, args, m, he, rfl, heffects⟩ := h
  have hleft := hf m
  exact ⟨c, paren, args, f m, he, rfl, hleft.store.trans heffects.store,
    hleft.printed.trans heffects.printed, hleft.created.trans heffects.created,
    hleft.readings.trans heffects.readings⟩

theorem compositional_cutOff (limit : Nat) :
    Compositional (some limit) none (CutOff limit) where
  pure _ _ := rfl
  step _ h m := h m
  starting s h m := by
    have hm := h m
    simp only [Recorded.timeline_starting, Timeline.starting, List.find?_cons, Moment.opened_elim,
      Nat.not_lt_zero, decide_false]
    exact hm
  bind {_ _ _ _ g _ x y _ _} h hk m := by
    have hm := h m
    rw [Recorded.timeline_bind, Timeline.next, List.find?_append]
    cases hfind : (x.timeline m).find? (fun z => limit < z.opened) with
    | some z =>
      rw [hfind] at hm
      exact OverflowsAt.bind hm
    | none =>
      rw [hfind] at hm
      rw [Option.none_or, Timeline.following, Recorded.run_bind]
      cases hx : x.run m with
      | ok a m₁ =>
        rw [hx] at hm
        rw [bind_of_ok hx, bind_of_ok (hm.symm : y m = .ok (g a) m₁)]
        exact hk a m₁
      | error e m₁ =>
        rw [hx] at hm
        rw [bind_of_error hx, bind_of_error (hm.symm : y m = .error e m₁)]
        rfl
  inScope {_ _ g x y} scope h m := by
    have hm := h { m with scope := scope }
    rw [Recorded.run_inScope, Recorded.timeline_inScope, Timeline.inScope, inScope_eq, inScope_eq]
    cases hfind : (x.timeline { m with scope := scope }).find? (fun z => limit < z.opened) with
    | some z =>
      rw [hfind] at hm
      exact OverflowsAt.leaving hm fun _ => ⟨rfl, rfl, rfl, rfl⟩
    | none =>
      rw [hfind] at hm
      exact (viewed_leaving _ g _).trans (congrArg _ hm)
  activate {_ _ g x y} c paren args h m := by
    have hm := h m.enter
    have hnone : (none : Option Nat).any (fun l => decide (l ≤ m.depth)) = false := rfl
    rw [Recorded.run_activate, Recorded.timeline_activate, Timeline.activate, hnone,
      if_neg Bool.false_ne_true, Timeline.starting, List.find?_cons, activate_eq hnone,
      show Moment.opened ⟨.call c paren args, m.enter⟩ = m.depth + 1 from rfl]
    by_cases hfull : limit ≤ m.depth
    · have hy : Eval.activate (some limit) paren y m = _ :=
        activate_full (by simpa using hfull) paren y
      rw [decide_eq_true (Nat.lt_succ_of_le hfull)]
      exact ⟨c, paren, args, m, rfl, hy, rfl, rfl, rfl, rfl⟩
    · -- Below the limit both runs open the call.
      have hy : Eval.activate (some limit) paren y m = _ :=
        activate_eq (by simpa using hfull) paren y
      rw [decide_eq_false (Nat.not_lt.mpr (Nat.lt_of_not_le hfull)), hy]
      cases hfind : (x.timeline m.enter).find? (fun z => limit < z.opened) with
      | some z =>
        rw [hfind] at hm
        exact OverflowsAt.leaving hm fun _ => ⟨rfl, rfl, rfl, rfl⟩
      | none =>
        rw [hfind] at hm
        exact (viewed_leaving _ g _).trans (congrArg _ hm)

/-! ## Whole programs -/

/-- Running the program ends, and this is its result. -/
def Finishes (cfg : Setting) (p : Program) (m : Machine) (r : EStateM.Result Stop Machine Unit) :
    Prop :=
  (∃ fuel, interpret cfg fuel p m = r) ∧ ∀ m', r ≠ .error .outOfFuel m'

/-- The result is a stack overflow. -/
def Overflowed : EStateM.Result Stop Machine Unit → Prop
  | .error (.error e) _ => e.fault = .stackOverflow
  | _ => False

theorem OverflowsAt.overflowed {z : Moment} {r : EStateM.Result Stop Machine Unit}
    (h : OverflowsAt z r) : Overflowed r := by
  obtain ⟨c, paren, args, m, -, rfl, -⟩ := h
  rfl

theorem cutOff_program (cfg : Setting) (limit fuel : Nat) (p : Program) (m : Machine) :
    match (duringProgram (cfg.within none) fuel p m).find? (fun z => limit < z.opened) with
    | none => interpret (cfg.within none) fuel p m = interpret (cfg.within (some limit)) fuel p m
    | some z => OverflowsAt z (interpret (cfg.within (some limit)) fuel p m) := by
  have h := (compositional_cutOff limit).interpret cfg fuel [] 0 p m
  rwa [runs_interpret, viewed_id] at h

/-- A run under a limit that ends without a stack overflow ends the same way without the
limit. A run without limit that ends and never has more than `limit` calls open, native ones
included, ends the same way under it. If it opens more, then the run under the limit ends with
a stack overflow at the parenthesis that closes the first such call, with what was printed and
stored up to then. -/
theorem callLimit_transparent (cfg : Setting) (limit : Nat) (p : Program) (m : Machine) :
    (∀ r, Finishes (cfg.within (some limit)) p m r → ¬ Overflowed r →
      Finishes (cfg.within none) p m r) ∧
    (∀ fuel r, interpret (cfg.within none) fuel p m = r → (∀ m', r ≠ .error .outOfFuel m') →
      (∀ z ∈ duringProgram (cfg.within none) fuel p m, z.opened ≤ limit) →
      Finishes (cfg.within (some limit)) p m r) ∧
    ∀ fuel, (∃ z ∈ duringProgram (cfg.within none) fuel p m, limit < z.opened) →
      ∃ c paren args m₁ m₂,
        (duringProgram (cfg.within none) fuel p m).find? (fun z => limit < z.opened) =
          some ⟨.call c paren args, m₁⟩ ∧
        Finishes (cfg.within (some limit)) p m (.error (.error ⟨paren, .stackOverflow⟩) m₂) ∧
        m₂.printed = m₁.printed ∧ m₂.store = m₁.store := by
  refine ⟨?_, fun fuel r hr hended hwithin => ?_, fun fuel => ?_⟩
  · rintro r ⟨⟨fuel, hr⟩, hended⟩ hnot
    have h := cutOff_program cfg limit fuel p m
    split at h
    · exact ⟨⟨fuel, h.trans hr⟩, hended⟩
    · rw [hr] at h
      exact absurd h.overflowed hnot
  · have h := cutOff_program cfg limit fuel p m
    split at h
    · exact ⟨⟨fuel, h.symm.trans hr⟩, hended⟩
    · rename_i z hz
      have hbeyond : limit < z.opened := by simpa using List.find?_some hz
      exact absurd (hwithin z (List.mem_of_find?_eq_some hz)) (Nat.not_le.mpr hbeyond)
  · rintro ⟨z, hz, hbeyond⟩
    have h := cutOff_program cfg limit fuel p m
    split at h
    · rename_i hnone
      exact absurd (decide_eq_true hbeyond) (List.find?_eq_none.mp hnone z hz)
    · rename_i first hfirst
      obtain ⟨c, paren, args, m₂, he, hr, heffects⟩ := h
      obtain ⟨event, m₁⟩ := first
      obtain rfl : event = .call c paren args := he
      exact ⟨c, paren, args, m₁, m₂, hfirst, ⟨⟨fuel, hr⟩, nofun⟩, heffects.printed,
        heffects.store⟩

/-- A function that calls itself prints three times under a limit of three; a call of the
clock stays within a limit of one. -/
theorem callLimit_transparent_recursion :
    let cfg : Setting := { clock := fun _ => 0 }
    let recursion := "fun f() \x7b print f; f(); \x7d f();"
    let reading := "print clock() == nil;"
    (∃ p, (Session.analyze recursion).2 = some p ∧ ∃ paren m,
      Finishes (cfg.within (some 3)) p Machine.initial
        (.error (.error ⟨paren, .stackOverflow⟩) m) ∧ m.printed.size = 3) ∧
    ∃ p r, (Session.analyze reading).2 = some p ∧ (after r).printed = #["false"] ∧
      Finishes (cfg.within (some 1)) p Machine.initial r ∧
      Finishes (cfg.within none) p Machine.initial r := by
  intro cfg recursion reading
  constructor
  · obtain ⟨p, hp⟩ := Option.isSome_iff_exists.mp
      (show (Session.analyze recursion).2.isSome = true by decide +kernel)
    have hfirst : ((Session.analyze recursion).2.bind fun p =>
        ((duringProgram (cfg.within none) 40 p Machine.initial).find? fun z => 3 < z.opened).map
          fun z => z.machine.printed.size) = some 3 := by decide +kernel
    rw [hp, Option.bind_some] at hfirst
    obtain ⟨z, hz, hsize⟩ := Option.map_eq_some_iff.mp hfirst
    have hbeyond : 3 < z.opened := by simpa using List.find?_some hz
    obtain ⟨c, paren, args, m₁, m₂, hcall, hends, hprinted, -⟩ :=
      (callLimit_transparent cfg 3 p Machine.initial).2.2 40
        ⟨z, List.mem_of_find?_eq_some hz, hbeyond⟩
    rw [hz] at hcall
    cases hcall
    exact ⟨p, hp, paren, m₂, hends, by rw [hprinted]; exact hsize⟩
  · obtain ⟨p, hp⟩ := Option.isSome_iff_exists.mp
      (show (Session.analyze reading).2.isSome = true by decide +kernel)
    have hrun : ((Session.analyze reading).2.map fun p =>
        match interpret (cfg.within none) 9 p Machine.initial with
        | .ok _ m => some m.printed
        | .error _ _ => none) = some (some #["false"]) := by decide +kernel
    have hopened : ((Session.analyze reading).2.map fun p =>
        (duringProgram (cfg.within none) 9 p Machine.initial).all fun z => z.opened ≤ 1) =
          some true := by decide +kernel
    rw [hp, Option.map_some, Option.some.injEq] at hrun hopened
    cases hr : interpret (cfg.within none) 9 p Machine.initial with
    | error e m =>
      rw [hr] at hrun
      cases hrun
    | ok a m =>
      rw [hr] at hrun
      have hprinted : m.printed = #["false"] := Option.some.inj hrun
      obtain ⟨hfrom, hto, -⟩ := callLimit_transparent cfg 1 p Machine.initial
      have hends := hto 9 _ hr nofun fun z hz => by simpa using List.all_eq_true.mp hopened z hz
      exact ⟨p, .ok a m, hp, hprinted, hends, hfrom _ hends id⟩

end Treewalk
