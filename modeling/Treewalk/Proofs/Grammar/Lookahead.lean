import Treewalk.Proofs.Grammar.Moves

/-!
# One token of lookahead

A reader looks at the token at hand and at no later one, except that it skips to a
statement boundary after a problem. So two token sequences that are the same up to a cut
are read in the same way until the cut is passed, and the fatal problems of the tokens
before it are the same.

Results:

* `composed_causal`: this holds of all readers.
* `early_declarations`: the fatal problems before the cut.
-/
namespace Treewalk

open Parse

variable {α β : Type}

/-- All problems that have been met, also the one that a reader has given up with. -/
def blames : EStateM.Result Halt ParseState α → List Blame
  | .ok _ s => s.problems.toList
  | .error (.fatal b) s => s.problems.toList ++ [b]
  | .error .outOfFuel s => s.problems.toList

/-- The fatal problems of tokens before the cut. -/
def early (cut : Nat) (bs : List Blame) : List Blame :=
  bs.filter fun b => b.problem.fatal && decide (b.index < cut)

variable {cut : Nat}

theorem early_append (bs cs : List Blame) : early cut (bs ++ cs) = early cut bs ++ early cut cs :=
  List.filter_append bs cs

theorem early_of_not_fatal {b : Blame} (h : b.problem.fatal = false) : early cut [b] = [] := by
  simp [early, h]

theorem early_of_late {b : Blame} (h : cut ≤ b.index) : early cut [b] = [] := by
  have : ¬ b.index < cut := by omega
  simp [early, this]

/-! ## The same tokens up to a cut -/

/-- Two states that differ in the tokens behind the cut only. -/
structure Alike (cut : Nat) (s u : ParseState) : Prop where
  position : s.position = u.position
  functions : s.functions = u.functions
  problems : s.problems = u.problems
  rest : s.rest.take (cut - s.position) = u.rest.take (cut - s.position)

namespace Alike

variable {s u : ParseState}

theorem head (h : Alike cut s u) (hs : s.position < cut) : s.rest.head? = u.rest.head? := by
  have htake := congrArg List.head? h.rest
  have hpos : cut - s.position ≠ 0 := by omega
  simpa [List.head?_take, hpos] using htake

theorem blame (h : Alike cut s u) (hs : s.position < cut) (p : Problem) :
    s.blame p = u.blame p := by
  unfold ParseState.blame
  rw [h.position, h.head hs]

theorem advance (h : Alike cut s u) (hs : s.position < cut) :
    Alike cut s.advance u.advance := by
  have hhead := h.head hs
  have hrest := h.rest
  unfold ParseState.advance
  cases hr : s.rest with
  | nil =>
    rw [hr, List.head?_nil, eq_comm, List.head?_eq_none_iff] at hhead
    rw [hhead]
    exact h
  | cons t ts =>
    cases hv : u.rest with
    | nil => simp [hr, hv] at hhead
    | cons v vs =>
      refine ⟨by simp [h.position], h.functions, h.problems, ?_⟩
      rw [hr, hv, show cut - s.position = cut - (s.position + 1) + 1 by omega,
        List.take_succ_cons, List.take_succ_cons] at hrest
      exact List.tail_eq_of_cons_eq hrest

theorem record (h : Alike cut s u) (b : Blame) : Alike cut (s.record b) (u.record b) :=
  ⟨h.position, h.functions, by simp [ParseState.record, h.problems], h.rest⟩

theorem functions_eq (h : Alike cut s u) (n : Nat) :
    Alike cut { s with functions := n } { u with functions := n } :=
  ⟨h.position, rfl, h.problems, h.rest⟩

end Alike

theorem resync_pos (t : Token) (ts : List Token) : 1 ≤ (resync (t :: ts)).1 := by
  cases ts with
  | nil => exact Nat.le_refl 1
  | cons u us =>
    unfold resync
    split
    · exact Nat.le_refl 1
    · exact Nat.succ_le_succ (Nat.zero_le _)

/-- Skipping to a statement boundary stops at the same token before the cut, or goes past
the cut in both sequences. -/
theorem resync_take {k : Nat} {ts us : List Token} (h : ts.take k = us.take k) :
    (resync ts).1 = (resync us).1 ∧
        (resync ts).2.take (k - (resync ts).1) = (resync us).2.take (k - (resync ts).1) ∨
      k ≤ (resync ts).1 ∧ k ≤ (resync us).1 := by
  induction ts generalizing us k with
  | nil =>
    cases k with
    | zero => exact .inr ⟨Nat.zero_le _, Nat.zero_le _⟩
    | succ k =>
      cases us with
      | nil => exact .inl ⟨rfl, rfl⟩
      | cons v vs => simp at h
  | cons t ts ih =>
    rcases k with _ | k
    · exact .inr ⟨Nat.zero_le _, Nat.zero_le _⟩
    cases us with
    | nil => simp at h
    | cons v vs =>
      rw [List.take_succ_cons, List.take_succ_cons, List.cons.injEq] at h
      obtain ⟨rfl, htail⟩ := h
      rcases k with _ | k
      · exact .inr ⟨resync_pos t ts, resync_pos t vs⟩
      -- The token after `t` is before the cut as well, so both decide in the same way.
      cases ts with
      | nil =>
        cases vs with
        | nil => exact .inl ⟨rfl, rfl⟩
        | cons w ws => simp at htail
      | cons u us =>
        cases vs with
        | nil => simp at htail
        | cons w ws =>
          have hstep := ih htail
          rw [List.take_succ_cons, List.take_succ_cons, List.cons.injEq] at htail
          obtain ⟨rfl, htail⟩ := htail
          unfold resync
          split
          · exact .inl ⟨rfl, by simp [htail]⟩
          · rcases hstep with ⟨hcount, hrest⟩ | ⟨hts, hvs⟩
            · refine .inl ⟨congrArg (· + 1) hcount, ?_⟩
              simpa only [Nat.add_sub_add_right] using hrest
            · exact .inr ⟨Nat.succ_le_succ hts, Nat.succ_le_succ hvs⟩

theorem Alike.resynced {s u : ParseState} (h : Alike cut s u) (hs : s.position < cut) :
    Alike cut s.resynced u.resynced ∨
      cut ≤ s.resynced.position ∧ cut ≤ u.resynced.position := by
  have hposition := h.position
  unfold ParseState.resynced
  rcases resync_take h.rest with ⟨hcount, hrest⟩ | ⟨hts, hus⟩
  · refine .inl ⟨by simp [hposition, hcount], h.functions, h.problems, ?_⟩
    simpa only [Nat.sub_sub] using hrest
  · exact .inr ⟨by dsimp only; omega, by dsimp only; omega⟩

/-! ## Readers -/

/-- Two results that are the same up to the cut. -/
inductive Agree (cut : Nat) : EStateM.Result Halt ParseState α →
    EStateM.Result Halt ParseState α → Prop where
  | ok {a : α} {s u : ParseState} (h : Alike cut s u) : Agree cut (.ok a s) (.ok a u)
  | error {halt : Halt} {s u : ParseState} (h : Alike cut s u) :
      Agree cut (.error halt s) (.error halt u)
  /-- Both readers have passed the cut. -/
  | past {r r' : EStateM.Result Halt ParseState α} (h : cut ≤ (after r).position)
      (h' : cut ≤ (after r').position) (hearly : early cut (blames r) = early cut (blames r')) :
      Agree cut r r'

/-- The result, reached from a state past the cut, has nothing to do with tokens before it. -/
def Late (cut : Nat) (s : ParseState) (r : EStateM.Result Halt ParseState α) : Prop :=
  cut ≤ (after r).position ∧ early cut (blames r) = early cut s.problems.toList

/-- What the reader does before the cut depends on the tokens before it only. -/
structure Causal (cut : Nat) (x : Parse α) : Prop where
  late : ∀ s, cut ≤ s.position → Late cut s (x s)
  agree : ∀ s u, s.position < cut → Alike cut s u → Agree cut (x s) (x u)

variable {x : Parse α} {f : α → Parse β}

/-- What comes after a reader that has passed the cut adds nothing early. -/
theorem late_bind (hf : ∀ a, Causal cut (f a)) {s : ParseState}
    (h : cut ≤ (after (x s)).position) :
    cut ≤ (after ((x >>= f) s)).position ∧
      early cut (blames ((x >>= f) s)) = early cut (blames (x s)) := by
  cases hr : x s with
  | ok a s₁ =>
    rw [hr] at h
    rw [bind_of_ok hr]
    exact (hf a).late s₁ h
  | error halt s₁ =>
    rw [hr] at h
    rw [bind_of_error hr]
    exact ⟨h, by cases halt <;> rfl⟩

theorem causal_bind (hx : Causal cut x) (hf : ∀ a, Causal cut (f a)) :
    Causal cut (x >>= f) := by
  refine ⟨fun s hs => ?_, fun s u hs hsu => ?_⟩
  · obtain ⟨hpast, hearly⟩ := hx.late s hs
    obtain ⟨hpast', hearly'⟩ := late_bind hf hpast
    exact ⟨hpast', hearly'.trans hearly⟩
  · have hagree := hx.agree s u hs hsu
    generalize hr : x s = r at hagree
    generalize hr' : x u = r' at hagree
    cases hagree with
    | @ok a s₁ u₁ h =>
      rw [bind_of_ok hr, bind_of_ok hr']
      by_cases hs₁ : s₁.position < cut
      · exact (hf a).agree s₁ u₁ hs₁ h
      · have hposition := h.position
        obtain ⟨hpast, hearly⟩ := (hf a).late s₁ (by omega)
        obtain ⟨hpast', hearly'⟩ := (hf a).late u₁ (by omega)
        exact .past hpast hpast' (by rw [hearly, hearly', h.problems])
    | error h =>
      rw [bind_of_error hr, bind_of_error hr']
      exact .error h
    | past h h' hearly =>
      rw [← hr] at h hearly
      rw [← hr'] at h' hearly
      obtain ⟨hpast, hsame⟩ := late_bind hf h
      obtain ⟨hpast', hsame'⟩ := late_bind hf h'
      exact .past hpast hpast' (by rw [hsame, hsame', hearly])

/-! ## Steps -/

theorem causal_pure (a : α) : Causal cut (pure a : Parse α) :=
  ⟨fun _ hs => ⟨hs, rfl⟩, fun _ _ _ h => .ok h⟩

theorem causal_outOfFuel : Causal cut (Parse.outOfFuel : Parse α) :=
  ⟨fun _ hs => ⟨hs, rfl⟩, fun _ _ _ h => .error h⟩

/-- Giving up at a token past the cut is no early problem. -/
theorem late_fatal {s : ParseState} (hs : cut ≤ s.position) (p : Problem) :
    Late cut s (.error (.fatal (s.blame p)) s : EStateM.Result Halt ParseState α) := by
  refine ⟨hs, ?_⟩
  rw [blames, early_append, early_of_late hs, List.append_nil]

theorem causal_fail (p : Problem) : Causal cut (fail p : Parse α) := by
  refine ⟨fun s hs => late_fatal hs p, fun s u hs h => ?_⟩
  simp only [fail_apply]
  rw [h.blame hs]
  exact .error h

theorem causal_peek : Causal cut peek? := by
  refine ⟨fun _ hs => ⟨hs, rfl⟩, fun s u hs h => ?_⟩
  simp only [peek?_apply]
  rw [h.head hs]
  exact .ok h

theorem causal_check (k : Kind) : Causal cut (check k) := by
  refine ⟨fun _ hs => ⟨hs, rfl⟩, fun s u hs h => ?_⟩
  simp only [check_apply]
  rw [h.head hs]
  exact .ok h

theorem late_advance {s : ParseState} (hs : cut ≤ s.position) (a : α) :
    Late cut s (.ok a s.advance) := by
  unfold ParseState.advance
  split
  · exact ⟨hs, rfl⟩
  · exact ⟨Nat.le_succ_of_le hs, rfl⟩

theorem causal_skip : Causal cut skip :=
  ⟨fun _ hs => late_advance hs (), fun _ _ hs h => .ok (h.advance hs)⟩

theorem causal_accept (p : Kind → Bool) : Causal cut (accept? p) := by
  refine ⟨fun s hs => ?_, fun s u hs h => ?_⟩
  · simp only [accept?_apply]
    split
    · exact ⟨hs, rfl⟩
    · split
      · exact late_advance hs _
      · exact ⟨hs, rfl⟩
  · have hhead := h.head hs
    have hadvance := h.advance hs
    simp only [accept?_apply]
    cases hr : s.rest <;> cases hv : u.rest <;> simp only [hr, hv, List.head?_nil,
      List.head?_cons, reduceCtorEq, Option.some.injEq] at hhead
    · exact .ok h
    · subst hhead
      dsimp only
      split
      · exact .ok hadvance
      · exact .ok h

theorem causal_expect (what : Missing) : Causal cut (expect what) := by
  refine ⟨fun s hs => ?_, fun s u hs h => ?_⟩
  · simp only [expect_apply]
    split
    · exact late_fatal hs _
    · split
      · exact late_advance hs _
      · exact late_fatal hs _
  · have hhead := h.head hs
    have hadvance := h.advance hs
    simp only [expect_apply]
    rw [h.blame hs]
    cases hr : s.rest <;> cases hv : u.rest <;> simp only [hr, hv, List.head?_nil,
      List.head?_cons, reduceCtorEq, Option.some.injEq] at hhead
    · exact .error h
    · subst hhead
      dsimp only
      split
      · exact .ok hadvance
      · exact .error h

theorem causal_inFunction : Causal cut inFunction := by
  refine ⟨fun _ hs => ⟨hs, rfl⟩, fun s u hs h => ?_⟩
  simp only [inFunction_apply]
  rw [h.functions]
  exact .ok h

theorem early_record (s : ParseState) {b : Blame} (hb : b.problem.fatal = false) :
    early cut (s.record b).problems.toList = early cut s.problems.toList := by
  rw [ParseState.record, Array.toList_push, early_append, early_of_not_fatal hb, List.append_nil]

theorem causal_record {b : Blame} (hb : b.problem.fatal = false) : Causal cut (record b) :=
  ⟨fun s hs => ⟨hs, early_record s hb⟩, fun _ _ _ h => .ok (h.record b)⟩

theorem causal_reportIf (c : Bool) {p : Problem} (hp : p.fatal = false) :
    Causal cut (reportIf c p) := by
  cases c with
  | false => exact ⟨fun _ hs => ⟨hs, rfl⟩, fun _ _ _ h => .ok h⟩
  | true =>
    refine ⟨fun s hs => ⟨hs, early_record s hp⟩, fun s u hs h => ?_⟩
    simp only [reportIf_apply]
    rw [h.blame hs]
    exact .ok (h.record _)

theorem causal_blame {p : Problem} {f : Blame → Parse β}
    (hf : ∀ b, b.problem = p → Causal cut (f b)) : Causal cut (Parse.blame p >>= f) := by
  refine ⟨fun s hs => (hf (s.blame p) rfl).late s hs, fun s u hs h => ?_⟩
  have hagree := (hf (s.blame p) rfl).agree s u hs h
  have hs' : (Parse.blame p >>= f) s = f (s.blame p) s := rfl
  have hu' : (Parse.blame p >>= f) u = f (u.blame p) u := rfl
  rw [hs', hu', ← h.blame hs]
  exact hagree

/-- Leaving a function body moves nothing and reports nothing. -/
theorem enterFunction_leaves (x : Parse α) (s : ParseState) :
    (after (enterFunction x s)).position =
        (after (x { s with functions := s.functions + 1 })).position ∧
      blames (enterFunction x s) = blames (x { s with functions := s.functions + 1 }) := by
  cases hr : x { s with functions := s.functions + 1 } with
  | ok a s₁ =>
    rw [enterFunction_of_ok hr]
    exact ⟨rfl, rfl⟩
  | error halt s₁ =>
    rw [enterFunction_of_error hr]
    cases halt <;> exact ⟨rfl, rfl⟩

theorem causal_enterFunction (hx : Causal cut x) : Causal cut (enterFunction x) := by
  refine ⟨fun s hs => ?_, fun s u hs h => ?_⟩
  · obtain ⟨hposition, hblames⟩ := enterFunction_leaves x s
    rw [Late, hposition, hblames]
    exact hx.late { s with functions := s.functions + 1 } hs
  · obtain ⟨hposition, hblames⟩ := enterFunction_leaves x s
    obtain ⟨hposition', hblames'⟩ := enterFunction_leaves x u
    have hinner : Alike cut { s with functions := s.functions + 1 }
        { u with functions := u.functions + 1 } := by
      rw [h.functions]
      exact h.functions_eq _
    have hagree := hx.agree { s with functions := s.functions + 1 } _ hs hinner
    generalize hr : x { s with functions := s.functions + 1 } = r at hagree
    generalize hr' : x { u with functions := u.functions + 1 } = r' at hagree
    cases hagree with
    | ok h₁ =>
      rw [enterFunction_of_ok hr, enterFunction_of_ok hr', h₁.functions]
      exact .ok (h₁.functions_eq _)
    | error h₁ =>
      rw [enterFunction_of_error hr, enterFunction_of_error hr', h₁.functions]
      exact .error (h₁.functions_eq _)
    | past hpast hpast' hearly =>
      rw [hr] at hposition hblames
      rw [hr'] at hposition' hblames'
      exact .past (by rw [hposition]; exact hpast) (by rw [hposition']; exact hpast')
        (by rw [hblames, hblames', hearly])

/-- Recovery moves forward and reports what the reader has given up with. -/
theorem recovering_moves (x : Parse α) (s : ParseState) :
    (after (x s)).position ≤ (after (recovering x s)).position ∧
      blames (recovering x s) = blames (x s) := by
  cases hr : x s with
  | ok a s₁ =>
    simp only [recovering_apply, hr]
    exact ⟨Nat.le_refl _, rfl⟩
  | error halt s₁ =>
    cases halt with
    | fatal b =>
      rw [recovering_eq_none.mpr ⟨b, s₁, hr, rfl⟩]
      exact ⟨Nat.le_add_right _ _, Array.toList_push⟩
    | outOfFuel =>
      rw [recovering_of_outOfFuel hr]
      exact ⟨Nat.le_refl _, rfl⟩

/-- Two readers that give up at the same token before the cut go on at the same token, or
both past the cut. -/
theorem agree_recovered {s u : ParseState} (h : Alike cut s u) (b : Blame) :
    Agree cut (.ok (none : Option α) (s.record b).resynced) (.ok none (u.record b).resynced) := by
  have hposition := h.position
  have hproblems : (s.record b).problems = (u.record b).problems := (h.record b).problems
  by_cases hs : s.position < cut
  · rcases (h.record b).resynced hs with hsame | ⟨hpast, hpast'⟩
    · exact .ok hsame
    · exact .past hpast hpast' (congrArg (fun bs : Array Blame => early cut bs.toList) hproblems)
  · have hskip : ∀ v : ParseState, v.position ≤ (v.record b).resynced.position :=
      fun v => Nat.le_add_right _ _
    have hs' := hskip s
    have hu' := hskip u
    exact .past (by simp only [after]; omega) (by simp only [after]; omega)
      (congrArg (fun bs : Array Blame => early cut bs.toList) hproblems)

theorem causal_recovering (hx : Causal cut x) : Causal cut (recovering x) := by
  refine ⟨fun s hs => ?_, fun s u hs h => ?_⟩
  · obtain ⟨hposition, hblames⟩ := recovering_moves x s
    obtain ⟨hpast, hearly⟩ := hx.late s hs
    exact ⟨by omega, by rw [hblames, hearly]⟩
  · obtain ⟨hposition, hblames⟩ := recovering_moves x s
    obtain ⟨hposition', hblames'⟩ := recovering_moves x u
    have hagree := hx.agree s u hs h
    generalize hr : x s = r at hagree
    generalize hr' : x u = r' at hagree
    cases hagree with
    | ok h₁ =>
      simp only [recovering_apply, hr, hr']
      exact .ok h₁
    | @error halt s₁ u₁ h₁ =>
      cases halt with
      | fatal b =>
        rw [recovering_eq_none.mpr ⟨b, s₁, hr, rfl⟩, recovering_eq_none.mpr ⟨b, u₁, hr', rfl⟩]
        exact agree_recovered h₁ b
      | outOfFuel =>
        rw [recovering_of_outOfFuel hr, recovering_of_outOfFuel hr']
        exact .error h₁
    | past hpast hpast' hearly =>
      rw [hr] at hposition hblames
      rw [hr'] at hposition' hblames'
      exact .past (by omega) (by omega) (by rw [hblames, hblames', hearly])

theorem composed_causal (cut : Nat) : Composed (Single (Causal cut)) where
  pure := causal_pure
  bind := causal_bind
  outOfFuel := causal_outOfFuel
  fail _ := causal_fail _
  peek := causal_peek
  check := causal_check
  skip := causal_skip
  accept := causal_accept
  expect := causal_expect
  reportIf c _ hp _ := causal_reportIf c hp
  blame := causal_blame
  record hb := causal_record (by rw [hb]; rfl)
  inFunction := causal_inFunction
  reportReturn c := causal_reportIf c rfl
  enterFunction := causal_enterFunction
  recovering := causal_recovering
  recordMild := causal_record

/-- The fatal problems before the cut depend on the tokens before it only. -/
theorem early_declarations {ts us : List Token} (h : ts.take cut = us.take cut) (fuel : Nat)
    (inBlock : Bool) :
    early cut (blames (declarations fuel inBlock (.initial ts))) =
      early cut (blames (declarations fuel inBlock (.initial us))) := by
  have hcausal : Causal cut (declarations fuel inBlock) :=
    (StatementReadersAt.all (composed_causal cut) fuel).declarations inBlock
  by_cases hcut : 0 < cut
  · have halike : Alike cut (.initial ts) (.initial us) := ⟨rfl, rfl, rfl, h⟩
    have hagree := hcausal.agree (.initial ts) (.initial us) hcut halike
    generalize declarations fuel inBlock (ParseState.initial ts) = r at hagree ⊢
    generalize declarations fuel inBlock (ParseState.initial us) = r' at hagree ⊢
    cases hagree with
    | ok h₁ => rw [blames, blames, h₁.problems]
    | @error halt s₁ u₁ h₁ => cases halt <;> simp only [blames, h₁.problems]
    | past _ _ hearly => exact hearly
  · have hlate : ∀ vs, early cut (blames (declarations fuel inBlock (.initial vs))) = [] := by
      intro vs
      exact (hcausal.late (.initial vs) (by simp only [ParseState.initial]; omega)).2
    rw [hlate, hlate]

end Treewalk
