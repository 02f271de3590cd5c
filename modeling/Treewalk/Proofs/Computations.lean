/-!
# Computations with a state

Readers and evaluators are computations that keep their state when they stop. These lemmas open
a sequence of two of them, forwards from the result of the first one and backwards from the
result of both, and take a result apart: the state that is left, and how the computation ended. A
computation `Projects` to another one if that does the same with less in its state.

Results:

* `bind_of_ok`, `bind_of_error`, `bind_eq_ok`: two computations in sequence.
* `after_leaving`, `ending_leaving`: changing the state at the end changes nothing else.
* `Projects.bind`: forgetting a part of the state, in sequence.
-/
namespace Treewalk

variable {ε σ α β : Type}

/-! ## In sequence -/

section Sequence

variable {x : EStateM ε σ α} {f : α → EStateM ε σ β}

theorem bind_of_ok {a : α} {s s' : σ} (h : x s = .ok a s') : (x >>= f) s = f a s' := by
  show EStateM.bind x f s = _
  rw [EStateM.bind, h]

theorem bind_of_error {e : ε} {s s' : σ} (h : x s = .error e s') :
    (x >>= f) s = .error e s' := by
  show EStateM.bind x f s = _
  rw [EStateM.bind, h]

theorem bind_eq_ok {b : β} {s t : σ} :
    (x >>= f) s = .ok b t ↔ ∃ a s', x s = .ok a s' ∧ f a s' = .ok b t := by
  constructor
  · intro hb
    cases h : x s with
    | ok a s' => exact ⟨a, s', rfl, by rwa [bind_of_ok h] at hb⟩
    | error e s' => rw [bind_of_error h] at hb; cases hb
  · rintro ⟨a, s', h, hf⟩
    rw [bind_of_ok h, hf]

end Sequence

/-! ## Ends -/

/-- The state after a computation, whether it ended with a result or not. -/
def after : EStateM.Result ε σ α → σ
  | .ok _ s => s
  | .error _ s => s

/-- How a computation ended, whatever state it left behind. -/
def ending : EStateM.Result ε σ α → Except ε α
  | .ok a _ => .ok a
  | .error e _ => .error e

/-- The result of a computation that has one. -/
def result? : EStateM.Result ε σ α → Option α
  | .ok a _ => some a
  | .error _ _ => none

/-- The same end with another state in place of the one that is left. -/
def leaving (f : σ → σ) : EStateM.Result ε σ α → EStateM.Result ε σ α
  | .ok a s => .ok a (f s)
  | .error e s => .error e (f s)

section Ends

variable {r : EStateM.Result ε σ α}

theorem leaving_eq_ok {f : σ → σ} {a : α} {t : σ} :
    leaving f r = .ok a t ↔ ∃ s, r = .ok a s ∧ f s = t := by
  constructor
  · intro h
    cases r with
    | ok b s =>
      cases h
      exact ⟨s, rfl, rfl⟩
    | error e s => cases h
  · rintro ⟨s, rfl, rfl⟩
    rfl

theorem leaving_eq_error {f : σ → σ} {e : ε} {t : σ} :
    leaving f r = .error e t ↔ ∃ s, r = .error e s ∧ f s = t := by
  constructor
  · intro h
    cases r with
    | ok a s => cases h
    | error e' s =>
      cases h
      exact ⟨s, rfl, rfl⟩
  · rintro ⟨s, rfl, rfl⟩
    rfl

theorem result?_eq_some {a : α} (h : result? r = some a) : ∃ s, r = .ok a s := by
  cases r with
  | ok b s =>
    cases h
    exact ⟨s, rfl⟩
  | error e s => cases h

@[simp]
theorem ending_leaving (f : σ → σ) (r : EStateM.Result ε σ α) :
    ending (leaving f r) = ending r := by
  cases r <;> rfl

@[simp]
theorem after_leaving (f : σ → σ) (r : EStateM.Result ε σ α) :
    after (leaving f r) = f (after r) := by
  cases r <;> rfl

end Ends

/-! ## Less of the state -/

section Projection

variable {τ γ δ : Type} {view : σ → τ} {f : α → β} {g : γ → δ}

/-- The end as it is without a part of the state and of the result. -/
def viewed (view : σ → τ) (f : α → β) : EStateM.Result ε σ α → EStateM.Result ε τ β
  | .ok a s => .ok (f a) (view s)
  | .error e s => .error e (view s)

theorem after_viewed (view : σ → τ) (f : α → β) (r : EStateM.Result ε σ α) :
    after (viewed view f r) = view (after r) := by
  cases r <;> rfl

@[simp]
theorem viewed_id (r : EStateM.Result ε σ α) : viewed id id r = r := by
  cases r <;> rfl

theorem viewed_leaving (f : σ → σ) (g : α → β) (r : EStateM.Result ε σ α) :
    viewed id g (leaving f r) = leaving f (viewed id g r) := by
  cases r <;> rfl

/-- The second computation is the first one, as far as `view` and `f` show states and results. -/
def Projects (view : σ → τ) (f : α → β) (x : EStateM ε σ α) (y : EStateM ε τ β) : Prop :=
  ∀ s, viewed view f (x s) = y (view s)

/-- Nothing is forgotten. -/
theorem Projects.refl (x : EStateM ε σ α) : Projects id id x x := fun s => viewed_id (x s)

theorem Projects.eq {x y : EStateM ε σ α} (h : Projects id id x y) : x = y := by
  funext s
  rw [← viewed_id (x s)]
  exact h s

theorem Projects.pure {a : α} {b : β} (h : f a = b) :
    Projects (ε := ε) view f (pure a) (pure b) := by
  intro s
  rw [← h]
  rfl

theorem Projects.bind {x : EStateM ε σ α} {y : EStateM ε τ β} {k : α → EStateM ε σ γ}
    {l : β → EStateM ε τ δ} (hx : Projects view f x y) (hk : ∀ a, Projects view g (k a) (l (f a))) :
    Projects view g (x >>= k) (y >>= l) := by
  intro s
  have h := hx s
  cases hs : x s with
  | ok a s₁ =>
    rw [hs] at h
    rw [bind_of_ok hs, bind_of_ok h.symm]
    exact hk a s₁
  | error e s₁ =>
    rw [hs] at h
    rw [bind_of_error hs, bind_of_error h.symm]
    rfl

/-- A change of the state at the end. -/
theorem Projects.leaving {x : EStateM ε σ α} {y : EStateM ε τ β} {h : σ → σ} {h' : τ → τ}
    (hx : Projects view f x y) (hh : ∀ s, view (h s) = h' (view s)) (s : σ) :
    viewed view f (leaving h (x s)) = leaving h' (y (view s)) := by
  rw [← hx s]
  cases x s <;> simp [viewed, Treewalk.leaving, hh]

theorem Projects.after {x : EStateM ε σ α} {y : EStateM ε τ β} (h : Projects view f x y) (s : σ) :
    view (after (x s)) = Treewalk.after (y (view s)) := by
  rw [← h s, after_viewed]

end Projection

end Treewalk
