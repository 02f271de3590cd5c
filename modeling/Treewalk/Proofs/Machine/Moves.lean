import Treewalk.Proofs.Machine.Timeline

/-!
# What running can do to the machine

Running prints, binds names, makes callables, reads the clock, opens scopes, and
goes into and out of scopes and calls; nothing else. So a relation between
machines that each of these `MachineMoves` keeps holds between the machines
before and after any run, however it ends (`PreservesAt.all`).

Results:

* `interpret_printed`: what has been printed stays printed.
-/
namespace Treewalk

/-- A relation that all moves of the machine keep. -/
structure MachineMoves (R : Machine → Machine → Prop) : Prop where
  refl : ∀ m, R m m
  trans : ∀ {m₁ m₂ m₃}, R m₁ m₂ → R m₂ m₃ → R m₁ m₃
  print : ∀ m line, R m { m with printed := m.printed.push line }
  define : ∀ m id name value, R m { m with store := m.store.define id name value }
  create : ∀ m, R m { m with created := m.created + 1 }
  clock : ∀ m, R m { m with readings := m.readings + 1 }
  enclose : ∀ m outer, R m { m with store := (m.store.enclose outer).2 }
  inScope : ∀ m id m', R { m with scope := id } m' → R m { m' with scope := m.scope }
  activate : ∀ m m', R m.enter m' → R m m'.leave

/-- A computation keeps the relation, wherever it starts. -/
def Preserves {α : Type} (R : Machine → Machine → Prop) (x : Eval α) : Prop :=
  ∀ m, R m (after (x m))

section Primitives

variable {R : Machine → Machine → Prop} {α β : Type}

theorem preserves_bind (hR : MachineMoves R) {x : Eval α} {k : α → Eval β} (hx : Preserves R x)
    (hk : ∀ a, Preserves R (k a)) : Preserves R (x >>= k) := by
  intro m
  have h := hx m
  cases hm : x m with
  | ok a m₁ =>
    rw [hm] at h
    rw [bind_of_ok hm]
    exact hR.trans h (hk a m₁)
  | error e m₁ =>
    rw [hm] at h
    rw [bind_of_error hm]
    exact h

theorem preserves_pure (hR : MachineMoves R) (a : α) : Preserves R (pure a) := fun m => hR.refl m

/-- Binding several names is binding them one by one. -/
theorem moves_defineAll (hR : MachineMoves R) (id : ScopeId) (bs : List (String × Value))
    (m : Machine) : R m { m with store := m.store.defineAll id bs } := by
  induction bs generalizing m with
  | nil => exact hR.refl m
  | cons b bs ih => exact hR.trans (hR.define m id b.1 b.2) (ih _)

/-- Every step is one of the moves, or a few of them. -/
theorem preserves_step (hR : MachineMoves R) {x : Eval α} (hx : x.IsStep) : Preserves R x := by
  intro m
  cases hx with
  | outOfFuel | fault | scope => exact hR.refl m
  | ofExcept r => cases r <;> exact hR.refl m
  | printLine line => exact hR.print m line
  | get t =>
    unfold Eval.get
    split <;> exact hR.refl m
  | assign t v =>
    unfold Eval.assign
    split
    · exact hR.define m _ _ _
    · exact hR.refl m
  | define name v => exact hR.define m _ _ _
  | close d => exact hR.create m
  | readClock cfg => exact hR.clock m
  | enclose outer bs => exact hR.trans (hR.enclose m outer) (moves_defineAll hR _ bs _)

theorem preserves_inScope (hR : MachineMoves R) (id : ScopeId) {x : Eval α} (hx : Preserves R x) :
    Preserves R (Eval.inScope id x) := by
  intro m
  rw [inScope_eq, after_leaving]
  exact hR.inScope m id _ (hx _)

theorem preserves_activate (hR : MachineMoves R) (limit : Option Nat) (paren : Token) {x : Eval α}
    (hx : Preserves R x) : Preserves R (Eval.activate limit paren x) := by
  intro m
  obtain h | h := activate_cases limit paren x m
  · rw [h]
    exact hR.refl m
  · rw [h, after_leaving]
    exact hR.activate m _ (hx _)

end Primitives

theorem compositional_preserves {R : Machine → Machine → Prop} (hR : MachineMoves R)
    (limit : Option Nat) : Compositional limit limit fun _ x _ => Preserves R x.run where
  pure a := preserves_pure hR a
  step h _ := preserves_step hR h
  starting _ h := h
  bind h hk := preserves_bind hR h hk
  inScope id h := preserves_inScope hR id h
  activate _ paren _ h := preserves_activate hR _ paren h

/-- With this much fuel, running keeps the relation. -/
structure PreservesAt (R : Machine → Machine → Prop) (cfg : Setting) (fuel : Nat) : Prop where
  evaluate : ∀ e, Preserves R (evaluate cfg fuel e)
  evaluateAll : ∀ es, Preserves R (evaluateAll cfg fuel es)
  execute : ∀ s, Preserves R (execute cfg fuel s)
  executeAll : ∀ ss, Preserves R (executeAll cfg fuel ss)

section Runs

variable {R : Machine → Machine → Prop} {cfg : Setting}

theorem PreservesAt.all (hR : MachineMoves R) (fuel : Nat) : PreservesAt R cfg fuel := by
  have h := compositional_preserves hR cfg.callLimit
  refine ⟨fun e => ?_, fun es => ?_, fun s m => ?_, fun ss m => ?_⟩
  · rw [← runs_evaluate cfg fuel [] e]
    exact h.evaluate cfg fuel [] e
  · rw [← runs_evaluateAll cfg fuel [] 0 es]
    exact h.evaluateAll cfg fuel [] 0 es
  · rw [← after_execute cfg fuel [] s]
    exact h.execute cfg fuel [] s m
  · rw [← after_executeAll cfg fuel [] 0 ss]
    exact h.executeAll cfg fuel [] 0 ss m

theorem preserves_interpret (hR : MachineMoves R) (cfg : Setting) (fuel : Nat) (p : Program) :
    Preserves R (interpret cfg fuel p) := by
  rw [← runs_interpret cfg fuel [] 0 p]
  exact (compositional_preserves hR cfg.callLimit).interpret cfg fuel [] 0 p

end Runs

/-! ## Output -/

/-- What the first machine has printed, the second one has printed first. -/
def Printed (m m' : Machine) : Prop := ∃ lines, m'.printed = m.printed ++ lines

theorem printed_moves : MachineMoves Printed where
  refl m := ⟨#[], by simp⟩
  trans := by
    rintro m₁ m₂ m₃ ⟨l, h⟩ ⟨l', h'⟩
    exact ⟨l ++ l', by rw [h', h, Array.append_assoc]⟩
  print m line := ⟨#[line], by simp⟩
  define _ _ _ _ := ⟨#[], by simp⟩
  create _ := ⟨#[], by simp⟩
  clock _ := ⟨#[], by simp⟩
  enclose _ _ := ⟨#[], by simp⟩
  inScope _ _ _ h := h
  activate _ _ h := h

/-- What has been printed stays printed. -/
theorem interpret_printed (cfg : Setting) (fuel : Nat) (p : Program) (m : Machine) :
    Printed m (after (interpret cfg fuel p m)) :=
  preserves_interpret printed_moves cfg fuel p m

end Treewalk
