import Treewalk.Proofs.Grammar.Readers
import Treewalk.Proofs.Computations

/-!
# What reading can do to the state

Reading moves on by a token, records a problem, skips to a statement boundary,
goes in and out of function bodies, and gives up at the token at hand; nothing
else. So a relation between states that each of these `Moves` keeps holds between
the states before and after any reading, whether it succeeds or not, and what
holds of every way to give up holds of every reading that fails
(`obeysStatements`).

Results:

* `keeps_moves`: what has been recorded stays recorded.
* `declaration_none`: when a declaration is skipped, a fatal problem has been
  recorded.
-/
namespace Treewalk

open Parse

/-- A relation `R` that all moves of a reader keep, and a property `E` of a halt and
the state in which it comes that every way to give up has. -/
structure Moves (R : ParseState → ParseState → Prop) (E : Halt → ParseState → Prop) : Prop where
  refl : ∀ s, R s s
  trans : ∀ {s₁ s₂ s₃}, R s₁ s₂ → R s₂ s₃ → R s₁ s₃
  advance : ∀ s, R s s.advance
  record : ∀ s b, R s (s.record b)
  resynced : ∀ s, R s s.resynced
  function : ∀ s s', R { s with functions := s.functions + 1 } s' →
    R s { s' with functions := s'.functions - 1 }
  fatal : ∀ s p, p.fatal = true → E (.fatal (s.blame p)) s
  outOfFuel : ∀ s, E .outOfFuel s
  leave : ∀ h s n, E h s → E h { s with functions := n }

section Primitives

variable {R : ParseState → ParseState → Prop} {E : Halt → ParseState → Prop} {α β : Type}

/-- The state is related to the one of a result, and if there is no result, the
halt has the property. -/
def Kept (R : ParseState → ParseState → Prop) (E : Halt → ParseState → Prop) (s : ParseState) :
    EStateM.Result Halt ParseState α → Prop
  | .ok _ s' => R s s'
  | .error h s' => R s s' ∧ E h s'

/-- A computation keeps the relation and the property, wherever it starts. -/
def Obeys (R : ParseState → ParseState → Prop) (E : Halt → ParseState → Prop) (x : Parse α) :
    Prop :=
  ∀ s, Kept R E s (x s)

theorem obeys_bind (hR : Moves R E) {x : Parse α} {f : α → Parse β} (hx : Obeys R E x)
    (hf : ∀ a, Obeys R E (f a)) : Obeys R E (x >>= f) := by
  intro s
  have h := hx s
  cases hs : x s with
  | ok a s₁ =>
    rw [hs] at h
    rw [bind_of_ok hs]
    have h' := hf a s₁
    cases hfs : f a s₁ with
    | ok b s₂ => rw [hfs] at h'; exact hR.trans h h'
    | error e s₂ => rw [hfs] at h'; exact ⟨hR.trans h h'.1, h'.2⟩
  | error e s₁ =>
    rw [hs] at h
    rw [bind_of_error hs]
    exact h

theorem obeys_pure (hR : Moves R E) (a : α) : Obeys R E (pure a) := fun s => hR.refl s

theorem obeys_outOfFuel (hR : Moves R E) : Obeys R E (Parse.outOfFuel : Parse α) :=
  fun s => ⟨hR.refl s, hR.outOfFuel s⟩

theorem obeys_fail (hR : Moves R E) {p : Problem} (hp : p.fatal = true) :
    Obeys R E (fail p : Parse α) :=
  fun s => ⟨hR.refl s, hR.fatal s p hp⟩

theorem obeys_peek (hR : Moves R E) : Obeys R E peek? := fun s => hR.refl s

theorem obeys_check (hR : Moves R E) (k : Kind) : Obeys R E (check k) := fun s => hR.refl s

theorem obeys_blame {p : Problem} {f : Blame → Parse β}
    (hf : ∀ b, b.problem = p → Obeys R E (f b)) : Obeys R E (Parse.blame p >>= f) :=
  fun s => hf (s.blame p) rfl s

theorem obeys_inFunction (hR : Moves R E) : Obeys R E inFunction := fun s => hR.refl s

theorem obeys_skip (hR : Moves R E) : Obeys R E skip := fun s => hR.advance s

theorem obeys_record (hR : Moves R E) (b : Blame) : Obeys R E (record b) := fun s => hR.record s b

theorem obeys_accept (hR : Moves R E) (p : Kind → Bool) : Obeys R E (accept? p) := by
  intro s
  rw [accept?_apply]
  split
  · exact hR.refl s
  · split
    · exact hR.advance s
    · exact hR.refl s

theorem obeys_expect (hR : Moves R E) (what : Missing) : Obeys R E (expect what) := by
  intro s
  rw [expect_apply]
  split
  · exact ⟨hR.refl s, hR.fatal s _ rfl⟩
  · split
    · exact hR.advance s
    · exact ⟨hR.refl s, hR.fatal s _ rfl⟩

theorem obeys_reportIf (hR : Moves R E) (c : Bool) (p : Problem) : Obeys R E (reportIf c p) := by
  intro s
  cases c with
  | false => exact hR.refl s
  | true => exact hR.record s _

theorem enterFunction_of_ok {x : Parse α} {s s₁ : ParseState} {a : α}
    (h : x { s with functions := s.functions + 1 } = .ok a s₁) :
    enterFunction x s = .ok a { s₁ with functions := s₁.functions - 1 } := by
  simp only [enterFunction_apply, h]

theorem enterFunction_of_error {x : Parse α} {s s₁ : ParseState} {halt : Halt}
    (h : x { s with functions := s.functions + 1 } = .error halt s₁) :
    enterFunction x s = .error halt { s₁ with functions := s₁.functions - 1 } := by
  simp only [enterFunction_apply, h]

theorem obeys_enterFunction (hR : Moves R E) {x : Parse α} (hx : Obeys R E x) :
    Obeys R E (enterFunction x) := by
  intro s
  have h := hx { s with functions := s.functions + 1 }
  cases hs : x { s with functions := s.functions + 1 } with
  | ok a s₁ =>
    rw [hs] at h
    rw [enterFunction_of_ok hs]
    exact hR.function s _ h
  | error e s₁ =>
    rw [hs] at h
    rw [enterFunction_of_error hs]
    exact ⟨hR.function s _ h.1, hR.leave _ _ _ h.2⟩

theorem recovering_eq_none {x : Parse α} {s s' : ParseState} :
    recovering x s = .ok none s' ↔
      ∃ b s₁, x s = .error (.fatal b) s₁ ∧ s' = (s₁.record b).resynced := by
  cases hs : x s with
  | ok a s₁ => simp [recovering_apply, hs]
  | error e s₁ =>
    cases e with
    | outOfFuel => simp [recovering_apply, hs]
    | fatal b =>
      simp only [recovering_apply, hs, EStateM.Result.ok.injEq, EStateM.Result.error.injEq,
        Halt.fatal.injEq, true_and]
      constructor
      · rintro rfl; exact ⟨b, s₁, ⟨rfl, rfl⟩, rfl⟩
      · rintro ⟨c, s₂, ⟨rfl, rfl⟩, rfl⟩; rfl

theorem recovering_of_outOfFuel {x : Parse α} {s s₁ : ParseState}
    (h : x s = .error .outOfFuel s₁) : recovering x s = .error .outOfFuel s₁ := by
  simp only [recovering_apply, h]

theorem obeys_recovering (hR : Moves R E) {x : Parse α} (hx : Obeys R E x) :
    Obeys R E (recovering x) := by
  intro s
  have h := hx s
  rw [recovering_apply]
  cases hs : x s with
  | ok a s₁ => rwa [hs] at h
  | error e s₁ =>
    rw [hs] at h
    cases e with
    | fatal b => exact hR.trans h.1 (hR.trans (hR.record s₁ b) (hR.resynced (s₁.record b)))
    | outOfFuel => exact h

end Primitives

/-! ## Readers -/

section Readers

variable {R : ParseState → ParseState → Prop} {E : Halt → ParseState → Prop} {fuel : Nat}

theorem composed_obeys (hR : Moves R E) : Composed (Single (Obeys R E)) where
  pure := obeys_pure hR
  bind := obeys_bind hR
  outOfFuel := obeys_outOfFuel hR
  fail := obeys_fail hR
  peek := obeys_peek hR
  check := obeys_check hR
  skip := obeys_skip hR
  accept := obeys_accept hR
  expect := obeys_expect hR
  reportIf c _ _ _ := obeys_reportIf hR c _
  blame := obeys_blame
  record _ := obeys_record hR _
  inFunction := obeys_inFunction hR
  reportReturn c := obeys_reportIf hR c _
  enterFunction := obeys_enterFunction hR
  recovering := obeys_recovering hR
  recordMild _ := obeys_record hR _

/-- Every function that reads statements keeps the relation. -/
theorem obeysStatements (hR : Moves R E) (fuel : Nat) : StatementReadersAt (Single (Obeys R E)) fuel :=
  .all (composed_obeys hR) fuel

end Readers

/-! ## Recorded problems -/

/-- Every problem recorded in `s` is recorded in `s'`. -/
def Keeps (s s' : ParseState) : Prop := ∀ b ∈ s.problems, b ∈ s'.problems

/-- A reader gives up with a fatal problem of the token at hand. -/
def GivesUp (h : Halt) (s : ParseState) : Prop :=
  ∀ b, h = .fatal b → b.problem.fatal = true ∧ b = s.blame b.problem

theorem keeps_moves : Moves Keeps GivesUp where
  refl _ _ h := h
  trans h h' b hb := h' b (h b hb)
  advance s b hb := by
    unfold ParseState.advance
    split <;> exact hb
  record s c b hb := Array.mem_push.mpr (.inl hb)
  resynced _ _ hb := hb
  function _ _ h b hb := h b hb
  fatal s p hp b hb := by
    cases hb
    exact ⟨hp, rfl⟩
  outOfFuel s b hb := by cases hb
  leave h s n hE b hb := hE b hb

/-- No recorded problem is fatal. -/
def NoFatal (s : ParseState) : Prop := ∀ b ∈ s.problems, b.problem.fatal = false

/-- Readers that succeed without a fatal problem had none when they started. -/
theorem NoFatal.of_ok {α : Type} {x : Parse α} (hx : Obeys Keeps GivesUp x) {s s' : ParseState}
    {a : α} (h : x s = .ok a s') (hs' : NoFatal s') : NoFatal s := by
  have hk := hx s
  rw [h] at hk
  exact fun b hb => hs' b (hk b hb)

theorem recovering_none {α : Type} {x : Parse α} (hx : Obeys Keeps GivesUp x)
    {s s' : ParseState} (h : recovering x s = .ok none s') : ¬ NoFatal s' := by
  obtain ⟨b, s₁, he, rfl⟩ := recovering_eq_none.mp h
  have hs := hx s
  rw [he] at hs
  intro hn
  have hb := hn b Array.mem_push_self
  rw [(hs.2 b rfl).1] at hb
  cases hb

/-- When a declaration is skipped, a fatal problem has been recorded. -/
theorem declaration_none {fuel : Nat} {s s' : ParseState}
    (h : declaration fuel s = .ok none s') : ¬ NoFatal s' := by
  cases fuel with
  | zero => cases h
  | succ fuel =>
    have ih := obeysStatements keeps_moves fuel
    exact recovering_none (ih.unrecovered (composed_obeys keeps_moves).toAssembled) h

end Treewalk
