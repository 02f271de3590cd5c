import Treewalk.Proofs.Loops.Simulation
import Treewalk.Proofs.Scoping.Session

/-!
# Well-formed machines

A machine names scopes by number. In a well-formed one all these numbers are those of
scopes that have been opened: the one that code runs in, those around a scope, and those
that functions close over. So a scope that is opened later is none of them.

Results:

* `Scoping.wellFormed_sights`: at every moment of a session the machine is well-formed.
-/
namespace Treewalk

/-- The scope that a function closes over. -/
def Value.closure? : Value → Option ScopeId
  | .callable _ (.function _ closure) => some closure
  | _ => none

structure Machine.WellFormed (m : Machine) : Prop where
  scope : m.scope < m.store.scopes.size
  chains : m.store.Closed
  closures : ∀ i name v, m.store.bound? i name = some v →
    ∀ closure ∈ v.closure?, closure < m.store.scopes.size

/-- No scope is to spare. -/
def nothingSpare : ScopeId → Bool := fun _ => false

@[simp]
theorem rank_nothingSpare (i : ScopeId) : rank nothingSpare i = i := rank_eq_self fun _ _ => rfl

@[simp]
theorem slimChain_nothingSpare (chain : List ScopeId) : slimChain nothingSpare chain = chain := by
  have hkeep : (chain.filter fun i => !nothingSpare i) = chain :=
    List.filter_eq_self.mpr fun _ _ => rfl
  unfold slimChain
  rw [hkeep]
  exact (List.map_congr_left fun i _ => rank_nothingSpare i).trans (List.map_id _)

@[simp]
theorem Value.slim_nothingSpare (v : Value) : v.slim nothingSpare = v := by
  cases v with
  | callable id c =>
    cases c with
    | clock => rfl
    | function d closure => simp [Value.slim, Callable.slim]
  | _ => rfl

theorem Value.fits_nothingSpare {v : Value} {size : Nat} :
    v.Fits nothingSpare size ↔ ∀ closure ∈ v.closure?, closure < size := by
  cases v with
  | callable id c => cases c <;> simp [Value.Fits, Value.closure?, nothingSpare]
  | _ => simp [Value.Fits, Value.closure?]

/-- A well-formed machine is its own copy without scopes to spare. -/
theorem Machine.WellFormed.padded {m : Machine} (h : m.WellFormed) : Padded nothingSpare m m where
  registers := rfl
  store := by
    refine ⟨?_, ?_, h.chains, ?_, ?_, ?_, ?_⟩
    · intro i hi
      cases hi
    · simp
    · intro i _ _
      simp
    · intro i name hi
      cases hi
    · intro i _ _ name
      rw [rank_nothingSpare]
      cases m.store.bound? i name with
      | none => rfl
      | some v => simp
    · intro i name v hv
      exact Value.fits_nothingSpare.mpr (h.closures i name v hv)
  sees := ⟨h.scope, (slimChain_nothingSpare _).symm⟩

/-! ## Sessions -/

theorem Scoping.Mirrors.wellFormed {root : Node} {p : Picture} (h : Mirrors root p)
    (hscope : p.machine.scope < p.scopes) : p.machine.WellFormed where
  scope := hscope
  chains := h.inside
  closures i name v hv closure hc := by
    have hcloses := h.closes i name v hv
    cases v with
    | callable id c =>
      cases c with
      | clock => cases hc
      | function d outer =>
        cases hc
        exact hcloses.1.2
    | _ => cases hc

theorem Machine.wellFormed_initial : Machine.initial.WellFormed := by
  have hgood : Scoping.Good (.session []) .initial := Scoping.good_initial
  exact hgood.now.wellFormed (by decide)

/-- Whenever a part of a session's programs begins or ends, the machine is well-formed. -/
theorem Scoping.wellFormed_sights (cfg : Setting) (inputs : List Input) :
    ∀ s ∈ (watchSession cfg inputs).sights, s.picture.machine.WellFormed := by
  intro s hs
  have hmirrors := (good_watchSession cfg inputs).sights s hs
  exact hmirrors.picture.wellFormed hmirrors.scope

end Treewalk
