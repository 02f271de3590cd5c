import Treewalk.Proofs.Grammar.Moves
import Treewalk.Proofs.Grammar.Steps

/-!
# Reading a part of a program

A part of a program is read with other tokens behind it, and after other tokens that had
problems of their own. As long as a reader stops before the end of its part it cannot
tell: it does the same as on the part alone (`Mimics`). A reader of statements that
succeeds may even go up to the end, unless an `else` comes next (`Completes`).

Results:

* `MimicsAt.all`: readers of expressions mimic themselves.
* `CompletesAt.all`: readers of statements complete what they read.
-/
namespace Treewalk

open Grammar Parse

/-- The problem, after a number of other tokens. -/
def Blame.shift (b : Blame) (n : Nat) : Blame := { b with index := b.index + n }

/-- What is around a part of a program. -/
structure Context where
  /-- The tokens behind the part. -/
  behind : List Token
  /-- How many tokens come before it. -/
  offset : Nat
  /-- The problems of the tokens before it. -/
  earlier : Array Blame

namespace Context

variable (c : Context) {α : Type}

/-- A state inside the part, seen from the whole program. -/
def embed (s : ParseState) : ParseState :=
  ⟨s.rest ++ c.behind, s.position + c.offset, s.functions,
    c.earlier ++ s.problems.map (·.shift c.offset)⟩

/-- A result inside the part, seen from the whole program. -/
def result : EStateM.Result Halt ParseState α → EStateM.Result Halt ParseState α
  | .ok a s => .ok a (c.embed s)
  | .error (.fatal b) s => .error (.fatal (b.shift c.offset)) (c.embed s)
  | .error .outOfFuel s => .error .outOfFuel (c.embed s)

/-- The token at hand is the same in the part and in the program. -/
def Sees (s : ParseState) : Prop := c.behind = [] ∨ s.rest ≠ []

/-- The reader has stopped before the end of the part. -/
def Inside : EStateM.Result Halt ParseState α → Prop
  | .ok _ s => c.Sees s
  | .error (.fatal _) s => c.Sees s
  | .error .outOfFuel _ => False

/-- The reader has succeeded, or has given up before the end of the part. -/
def Settled : EStateM.Result Halt ParseState α → Prop
  | .ok _ _ => True
  | .error (.fatal _) s => c.Sees s
  | .error .outOfFuel _ => False

variable {c}

theorem Inside.settled {r : EStateM.Result Halt ParseState α} (h : c.Inside r) : c.Settled r := by
  cases r with
  | ok a s => trivial
  | error halt s => cases halt <;> exact h

theorem Sees.head {s : ParseState} (h : c.Sees s) : (c.embed s).rest.head? = s.rest.head? := by
  obtain h | h := h
  · simp [embed, h]
  · simp only [embed, List.head?_append]
    rw [List.head?_eq_some_head h, Option.some_or]

theorem Sees.advance {s : ParseState} (h : c.Sees s) :
    (c.embed s).advance = c.embed s.advance := by
  obtain ⟨rest, n, fs, bs⟩ := s
  cases rest with
  | nil =>
    have hbehind : c.behind = [] := h.resolve_right (fun h => h rfl)
    simp [ParseState.advance, embed, hbehind]
  | cons t ts => simp [ParseState.advance, embed, Nat.add_right_comm]

theorem Sees.blame {s : ParseState} (h : c.Sees s) (p : Problem) :
    (c.embed s).blame p = (s.blame p).shift c.offset := by
  unfold ParseState.blame Blame.shift
  rw [h.head]
  rfl

theorem embed_record (s : ParseState) (b : Blame) :
    (c.embed s).record (b.shift c.offset) = c.embed (s.record b) := by
  simp [embed, ParseState.record]

/-! ## Readers -/

/-- The state in which a reader has stopped is at the end, if it has not run out of fuel. -/
def AtEnd : EStateM.Result Halt ParseState α → Prop
  | .ok _ s => s.rest = []
  | .error (.fatal _) s => s.rest = []
  | .error .outOfFuel _ => True

variable (c) in
/-- Before the end of the part the second reader does in the program what the first one does
in the part. -/
structure Mimics (x y : Parse α) : Prop where
  spent : ∀ s, s.rest = [] → AtEnd (x s)
  inside : ∀ s, c.Inside (x s) → y (c.embed s) = c.result (x s)

variable (c) in
/-- It does so at the end as well, if it succeeds. -/
structure Closes (x y : Parse α) : Prop where
  spent : ∀ s, s.rest = [] → AtEnd (x s)
  settled : ∀ s, c.Settled (x s) → y (c.embed s) = c.result (x s)

variable (c) in
/-- And it cannot succeed without a token. -/
structure Completes (x y : Parse α) : Prop extends c.Closes x y where
  needs : ∀ s, s.rest = [] → ∀ a s', x s ≠ .ok a s'

theorem Closes.mimics {x y : Parse α} (h : c.Closes x y) : c.Mimics x y :=
  ⟨h.spent, fun s hs => h.settled s hs.settled⟩

variable {β : Type} {x y : Parse α} {f g : α → Parse β}

theorem spent_bind (hx : ∀ s, s.rest = [] → AtEnd (x s))
    (hf : ∀ a s, s.rest = [] → AtEnd (f a s)) : ∀ s, s.rest = [] → AtEnd ((x >>= f) s) := by
  intro s hs
  have h := hx s hs
  cases hr : x s with
  | ok a s₁ =>
    rw [hr] at h
    rw [bind_of_ok hr]
    exact hf a s₁ h
  | error halt s₁ =>
    rw [hr] at h
    rw [bind_of_error hr]
    cases halt <;> exact h

/-- Where the reader of a part has stopped inside it, it was inside all the time. -/
theorem sees_of_inside {s : ParseState} (hx : s.rest = [] → AtEnd (x s)) (h : c.Inside (x s)) :
    c.Sees s := by
  by_cases hs : s.rest = []
  · have hend := hx hs
    cases hr : x s with
    | ok a s₁ =>
      rw [hr] at h hend
      exact .inl (h.resolve_right fun hne => hne hend)
    | error halt s₁ =>
      rw [hr] at h hend
      cases halt with
      | fatal b => exact .inl (h.resolve_right fun hne => hne hend)
      | outOfFuel => exact h.elim
  · exact .inr hs

/-- It is enough that both readers do the same where they see the same token. -/
theorem Mimics.of_sees (hspent : ∀ s, s.rest = [] → AtEnd (x s))
    (h : ∀ s, c.Sees s → y (c.embed s) = c.result (x s)) : c.Mimics x y :=
  ⟨hspent, fun s hs => h s (sees_of_inside (hspent s) hs)⟩

theorem result_bind_ok {s s₁ : ParseState} {a : α} (hr : x s = .ok a s₁)
    (hx : y (c.embed s) = c.result (x s)) (hf : g a (c.embed s₁) = c.result (f a s₁)) :
    (y >>= g) (c.embed s) = c.result ((x >>= f) s) := by
  rw [hr] at hx
  rw [bind_of_ok hr, bind_of_ok hx]
  exact hf

theorem result_bind_error {s s₁ : ParseState} {halt : Halt} (hr : x s = .error halt s₁)
    (hx : y (c.embed s) = c.result (x s)) :
    (y >>= g) (c.embed s) = c.result ((x >>= f) s) := by
  rw [hr] at hx
  rw [bind_of_error hr]
  cases halt <;> exact bind_of_error hx

theorem Mimics.bind (hx : c.Mimics x y) (hf : ∀ a, c.Mimics (f a) (g a)) :
    c.Mimics (x >>= f) (y >>= g) := by
  refine ⟨spent_bind hx.spent fun a => (hf a).spent, fun s hs => ?_⟩
  cases hr : x s with
  | ok a s₁ =>
    rw [bind_of_ok hr] at hs
    have hsees : c.Sees s₁ := sees_of_inside ((hf a).spent s₁) hs
    exact result_bind_ok hr (hx.inside s (by rw [hr]; exact hsees)) ((hf a).inside s₁ hs)
  | error halt s₁ =>
    rw [bind_of_error hr] at hs
    exact result_bind_error hr (hx.inside s (by rw [hr]; cases halt <;> exact hs))

theorem Closes.bind (hx : c.Closes x y) (hf : ∀ a, c.Closes (f a) (g a)) :
    c.Closes (x >>= f) (y >>= g) := by
  refine ⟨spent_bind hx.spent fun a => (hf a).spent, fun s hs => ?_⟩
  cases hr : x s with
  | ok a s₁ =>
    rw [bind_of_ok hr] at hs
    exact result_bind_ok hr (hx.settled s (by rw [hr]; trivial)) ((hf a).settled s₁ hs)
  | error halt s₁ =>
    rw [bind_of_error hr] at hs
    exact result_bind_error hr (hx.settled s (by rw [hr]; cases halt <;> exact hs))

theorem Completes.bind (hx : c.Completes x y) (hf : ∀ a, c.Closes (f a) (g a)) :
    c.Completes (x >>= f) (y >>= g) := by
  refine ⟨hx.toCloses.bind hf, fun s hs b s' hb => ?_⟩
  obtain ⟨a, s₁, ha, -⟩ := bind_eq_ok.mp hb
  exact hx.needs s hs a s₁ ha

/-- What needs a token gives up at the end, so if it has settled it was not there, or the part
is all there is. -/
theorem Completes.sees (hx : c.Completes x y) {s : ParseState} (h : c.Settled (x s)) :
    c.Sees s := by
  by_cases hs : s.rest = []
  · refine sees_of_inside (hx.spent s) ?_
    cases hr : x s with
    | ok a s₁ => exact (hx.needs s hs a s₁ hr).elim
    | error halt s₁ =>
      rw [hr] at h
      cases halt <;> exact h
  · exact .inr hs

/-- What needs a token completes what comes before it. -/
theorem Mimics.complete (hx : c.Mimics x y) (hf : ∀ a, c.Completes (f a) (g a)) :
    c.Completes (x >>= f) (y >>= g) := by
  refine ⟨⟨spent_bind hx.spent fun a => (hf a).spent, fun s hs => ?_⟩, fun s hs b s' hb => ?_⟩
  · cases hr : x s with
    | ok a s₁ =>
      rw [bind_of_ok hr] at hs
      have hsees : c.Sees s₁ := (hf a).sees hs
      exact result_bind_ok hr (hx.inside s (by rw [hr]; exact hsees)) ((hf a).settled s₁ hs)
    | error halt s₁ =>
      rw [bind_of_error hr] at hs
      exact result_bind_error hr (hx.inside s (by rw [hr]; cases halt <;> exact hs))
  · obtain ⟨a, s₁, ha, hb⟩ := bind_eq_ok.mp hb
    have hend := hx.spent s hs
    rw [ha] at hend
    exact (hf a).needs s₁ hend b s' hb

/-! ## Steps -/

theorem closes_pure (a : α) : c.Closes (pure a) (pure a) := ⟨fun _ h => h, fun _ _ => rfl⟩

theorem mimics_pure (a : α) : c.Mimics (pure a) (pure a) := (closes_pure a).mimics

theorem completes_outOfFuel (y : Parse α) : c.Completes Parse.outOfFuel y := by
  refine ⟨⟨fun _ _ => trivial, fun _ h => h.elim⟩, fun s _ a s' h => ?_⟩
  cases h

theorem mimics_outOfFuel (y : Parse α) : c.Mimics Parse.outOfFuel y :=
  (completes_outOfFuel y).mimics

theorem mimics_fail (p : Problem) : c.Mimics (fail p : Parse α) (fail p) := by
  refine .of_sees (fun _ h => h) fun s hs => ?_
  simp only [fail_apply]
  rw [hs.blame]
  rfl

theorem mimics_peek : c.Mimics peek? peek? := by
  refine .of_sees (fun _ h => h) fun s hs => ?_
  simp only [peek?_apply]
  rw [hs.head]
  rfl

theorem mimics_check (k : Kind) : c.Mimics (check k) (check k) := by
  refine .of_sees (fun _ h => h) fun s hs => ?_
  simp only [check_apply]
  rw [hs.head]
  rfl

theorem mimics_inFunction : c.Mimics inFunction inFunction := .of_sees (fun _ h => h) fun _ _ => rfl

theorem mimics_reportIf (b : Bool) (p : Problem) : c.Mimics (reportIf b p) (reportIf b p) := by
  cases b with
  | false => exact .of_sees (fun _ h => h) fun _ _ => rfl
  | true =>
    refine .of_sees (fun _ h => h) fun s hs => ?_
    simp only [reportIf_apply]
    rw [hs.blame, if_pos trivial, if_pos trivial, embed_record]
    rfl

theorem mimics_record (b : Blame) : c.Mimics (record b) (record (b.shift c.offset)) := by
  refine .of_sees (fun _ h => h) fun s hs => ?_
  simp only [Parse.record_apply]
  rw [embed_record]
  rfl

/-- The problem that is blamed is the same one in its place in the program. -/
theorem mimics_blame {p : Problem} {f g : Blame → Parse β}
    (hf : ∀ b, c.Mimics (f b) (g (b.shift c.offset))) :
    c.Mimics (Parse.blame p >>= f) (Parse.blame p >>= g) := by
  refine ⟨spent_bind (fun _ h => h) fun b => (hf b).spent, fun s hs => ?_⟩
  have hx : Parse.blame p s = .ok (s.blame p) s := rfl
  rw [bind_of_ok hx] at hs ⊢
  have hsees := sees_of_inside ((hf _).spent s) hs
  have hy : Parse.blame p (c.embed s) = .ok ((s.blame p).shift c.offset) (c.embed s) := by
    rw [Parse.blame_apply, hsees.blame]
  rw [bind_of_ok hy]
  exact (hf _).inside s hs

theorem advance_rest_nil {s : ParseState} (h : s.rest = []) : s.advance.rest = [] := by
  unfold ParseState.advance
  rw [h]
  exact h

theorem mimics_skip : c.Mimics skip skip := by
  refine .of_sees (fun _ h => advance_rest_nil h) fun s hs => ?_
  simp only [skip_apply]
  rw [hs.advance]
  rfl

theorem spent_accept (p : Kind → Bool) (s : ParseState) (hs : s.rest = []) :
    AtEnd (accept? p s) := by
  rw [accept?_apply, hs]
  exact hs

theorem Sees.accept {s : ParseState} (h : c.Sees s) (p : Kind → Bool) :
    accept? p (c.embed s) = c.result (accept? p s) := by
  cases hrest : s.rest with
  | nil =>
    have hbehind : c.behind = [] := h.resolve_right fun hne => hne hrest
    simp [accept?_apply, embed, hrest, hbehind, result]
  | cons t ts =>
    have hadvance := h.advance
    by_cases ht : p t.kind = true
    · simp only [accept?_apply, hrest, ht, if_true, result, ← hadvance]
      simp [embed, hrest, ht]
    · simp [accept?_apply, embed, hrest, ht, result]

theorem mimics_accept (p : Kind → Bool) : c.Mimics (accept? p) (accept? p) :=
  .of_sees (spent_accept p) fun _ hs => hs.accept p

/-- A token that does not come next behind the part is not found at its end either. -/
theorem closes_accept {p : Kind → Bool} (hp : ∀ t ∈ c.behind.head?, p t.kind = false) :
    c.Closes (accept? p) (accept? p) := by
  refine ⟨spent_accept p, fun s _ => ?_⟩
  cases hrest : s.rest with
  | cons t ts => exact Sees.accept (.inr (by rw [hrest]; exact List.cons_ne_nil t ts)) p
  | nil =>
    cases hbehind : c.behind with
    | nil => exact Sees.accept (.inl hbehind) p
    | cons t ts =>
      have ht : p t.kind = false := hp t (by rw [hbehind]; rfl)
      simp [accept?_apply, embed, hrest, hbehind, ht, result]

theorem closes_expect (what : Missing) : c.Closes (expect what) (expect what) := by
  refine ⟨fun s hs => ?_, fun s hs => ?_⟩
  · rw [expect_apply, hs]
    exact hs
  · cases hrest : s.rest with
    | nil =>
      have hx : expect what s = .error (.fatal (s.blame (.missing what))) s := by
        simp [expect_apply, hrest]
      rw [hx] at hs ⊢
      have hbehind : c.behind = [] := hs.resolve_right fun hne => hne hrest
      have hy : expect what (c.embed s) =
          .error (.fatal ((c.embed s).blame (.missing what))) (c.embed s) := by
        simp [expect_apply, embed, hrest, hbehind]
      rw [hy, Sees.blame hs]
      rfl
    | cons t ts =>
      have hsees : c.Sees s := .inr (by rw [hrest]; exact List.cons_ne_nil t ts)
      by_cases ht : t.kind = what.kind
      · have hadvance := hsees.advance
        simp only [expect_apply, hrest, ht, if_true, result, ← hadvance]
        simp [embed, hrest, ht]
      · have hblame := hsees.blame (.missing what)
        simp only [expect_apply, hrest, ht, if_false, result, ← hblame]
        simp [embed, hrest, ht]

theorem mimics_expect (what : Missing) : c.Mimics (expect what) (expect what) :=
  (closes_expect what).mimics

theorem completes_expect (what : Missing) : c.Completes (expect what) (expect what) := by
  refine ⟨closes_expect what, fun s hs a s' h => ?_⟩
  simp [expect_apply, hs] at h

theorem closes_enterFunction (hx : c.Closes x y) :
    c.Closes (enterFunction x) (enterFunction y) := by
  refine ⟨fun s hs => ?_, fun s hs => ?_⟩
  · have h := hx.spent { s with functions := s.functions + 1 } hs
    cases hr : x { s with functions := s.functions + 1 } with
    | ok a s₁ =>
      rw [hr] at h
      rw [enterFunction_of_ok hr]
      exact h
    | error halt s₁ =>
      rw [hr] at h
      rw [enterFunction_of_error hr]
      cases halt <;> exact h
  · have h := hx.settled { s with functions := s.functions + 1 }
    cases hr : x { s with functions := s.functions + 1 } with
    | ok a s₁ =>
      rw [hr] at h
      rw [enterFunction_of_ok hr, enterFunction_of_ok (s := c.embed s) (h trivial)]
      rfl
    | error halt s₁ =>
      rw [enterFunction_of_error hr] at hs ⊢
      rw [hr] at h
      cases halt with
      | fatal b =>
        rw [enterFunction_of_error (s := c.embed s) (h hs)]
        rfl
      | outOfFuel => exact hs.elim

/-- Skipping to a statement boundary inside the part, or to the end of a part that ends with
a semicolon, ends at the same place in the program. -/
theorem resync_append {us : List Token} : ∀ {ts : List Token},
    ((resync ts).2 ≠ [] ∨ us = [] ∨ ∃ t, ts.getLast? = some t ∧ t.kind = .semicolon) →
    resync (ts ++ us) = ((resync ts).1, (resync ts).2 ++ us)
  | [], h => by
    have hus : us = [] := by simpa [resync] using h
    rw [hus]
    rfl
  | [t], h => by
    cases us with
    | nil => rfl
    | cons u us =>
      have ht : t.kind = .semicolon := by simpa [resync] using h
      simp [resync, ht]
  | t :: u :: rest, h => by
    simp only [List.cons_append]
    unfold resync
    split
    · rfl
    · rename_i hnot
      have ih : resync (u :: rest ++ us) =
          ((resync (u :: rest)).1, (resync (u :: rest)).2 ++ us) := by
        refine resync_append ?_
        rw [resync, if_neg hnot, List.getLast?_cons_cons] at h
        exact h
      rw [← List.cons_append, ih]

/-- The boundary that is skipped to is the same one in the program. -/
theorem embed_resynced {s : ParseState} (h : (resync s.rest).2 ≠ [] ∨ c.behind = [] ∨
    ∃ t, s.rest.getLast? = some t ∧ t.kind = .semicolon) (b : Blame) :
    ((c.embed s).record (b.shift c.offset)).resynced = c.embed (s.record b).resynced := by
  have hresync := resync_append h
  rw [embed_record]
  unfold ParseState.resynced embed ParseState.record
  simp only [hresync, Nat.add_right_comm]

theorem mimics_recovering (hx : c.Mimics x y) : c.Mimics (recovering x) (recovering y) := by
  refine ⟨fun s hs => ?_, fun s hs => ?_⟩
  · have h := hx.spent s hs
    cases hr : x s with
    | ok a s₁ =>
      rw [hr] at h
      rw [recovering_eq_some.mpr hr]
      exact h
    | error halt s₁ =>
      rw [hr] at h
      cases halt with
      | fatal b =>
        rw [recovering_eq_none.mpr ⟨b, s₁, hr, rfl⟩]
        show (resync s₁.rest).2 = []
        rw [show s₁.rest = [] from h]
        rfl
      | outOfFuel =>
        rw [recovering_of_outOfFuel hr]
        trivial
  · have h := hx.inside s
    cases hr : x s with
    | ok a s₁ =>
      rw [recovering_eq_some.mpr hr] at hs ⊢
      rw [hr] at h
      exact recovering_eq_some.mpr (h hs)
    | error halt s₁ =>
      rw [hr] at h
      cases halt with
      | fatal b =>
        rw [recovering_eq_none.mpr ⟨b, s₁, hr, rfl⟩] at hs ⊢
        have hresync : c.behind = [] ∨ (resync s₁.rest).2 ≠ [] := hs
        have hsees : c.Sees s₁ := hresync.imp id fun hne hnil => hne (by rw [hnil]; rfl)
        have hor : (resync s₁.rest).2 ≠ [] ∨ c.behind = [] := hresync.symm
        have hy := recovering_eq_none.mpr ⟨_, _, h hsees, rfl⟩
        rw [embed_resynced (hor.imp id .inl)] at hy
        exact hy
      | outOfFuel =>
        rw [recovering_of_outOfFuel hr] at hs
        exact hs.elim

end Context

/-! ## Expressions -/

open Context

variable {c : Context}

/-- Readers of expressions mimic themselves with more fuel. -/
structure MimicsAt (c : Context) (fuel fuel' : Nat) : Prop where
  assignment : ∀ e, c.Mimics (assignment fuel e) (assignment fuel' e)
  chain : ∀ l, c.Mimics (chain fuel l) (chain fuel' l)
  chainTail : ∀ l left, c.Mimics (chainTail fuel l left) (chainTail fuel' l left)
  operand : ∀ l, c.Mimics (operand fuel l) (operand fuel' l)
  conditional : c.Mimics (conditional fuel) (conditional fuel')
  unary : c.Mimics (unary fuel) (unary fuel')
  callTail : ∀ callee, c.Mimics (callTail fuel callee) (callTail fuel' callee)
  arguments : ∀ count, c.Mimics (arguments fuel count) (arguments fuel' count)
  primary : c.Mimics (primary fuel) (primary fuel')

namespace MimicsAt

variable {fuel fuel' : Nat}

theorem zero (fuel' : Nat) : MimicsAt c 0 fuel' where
  assignment _ := mimics_outOfFuel _
  chain _ := mimics_outOfFuel _
  chainTail _ _ := mimics_outOfFuel _
  operand _ := mimics_outOfFuel _
  conditional := mimics_outOfFuel _
  unary := mimics_outOfFuel _
  callTail _ := mimics_outOfFuel _
  arguments _ := mimics_outOfFuel _
  primary := mimics_outOfFuel _

theorem assignment_succ (ih : MimicsAt c fuel fuel') (e : Extent) :
    c.Mimics (Parse.assignment (fuel + 1) e) (Parse.assignment (fuel' + 1) e) := by
  have htarget : c.Mimics (e.target.read fuel) (e.target.read fuel') := by
    cases e with
    | full => exact ih.chain .series
    | argument => exact ih.conditional
  rw [Treewalk.assignment_succ, Treewalk.assignment_succ]
  refine htarget.bind fun target => (mimics_check _).bind fun found => ?_
  cases found with
  | false => exact mimics_pure _
  | true =>
    refine mimics_blame fun b => mimics_skip.bind fun _ => (ih.assignment e).bind fun value => ?_
    cases target with
    | name t => exact mimics_pure _
    | _ => exact (mimics_record b).bind fun _ => mimics_pure _

theorem chainTail_succ (ih : MimicsAt c fuel fuel') (l : Level) (left : Expr) :
    c.Mimics (Parse.chainTail (fuel + 1) l left) (Parse.chainTail (fuel' + 1) l left) := by
  refine (mimics_accept _).bind fun r => ?_
  cases r with
  | none => exact mimics_pure _
  | some t => exact (ih.operand l).bind fun right => ih.chainTail l _

theorem operand_succ (ih : MimicsAt c fuel fuel') (l : Level) :
    c.Mimics (Parse.operand (fuel + 1) l) (Parse.operand (fuel' + 1) l) := by
  cases l with
  | series => exact ih.conditional
  | factor => exact ih.unary
  | _ => exact ih.chain _

theorem conditional_succ (ih : MimicsAt c fuel fuel') :
    c.Mimics (Parse.conditional (fuel + 1)) (Parse.conditional (fuel' + 1)) := by
  refine (ih.chain _).bind fun condition => (mimics_accept _).bind fun r => ?_
  cases r with
  | none => exact mimics_pure _
  | some t =>
    exact (ih.assignment _).bind fun _ => (mimics_expect _).bind fun _ =>
      ih.conditional.bind fun _ => mimics_pure _

theorem unary_succ (ih : MimicsAt c fuel fuel') :
    c.Mimics (Parse.unary (fuel + 1)) (Parse.unary (fuel' + 1)) := by
  refine (mimics_accept _).bind fun r => ?_
  cases r with
  | none => exact ih.primary.bind fun callee => ih.callTail callee
  | some t => exact ih.unary.bind fun _ => mimics_pure _

theorem callTail_succ (ih : MimicsAt c fuel fuel') (callee : Expr) :
    c.Mimics (Parse.callTail (fuel + 1) callee) (Parse.callTail (fuel' + 1) callee) := by
  refine (mimics_accept _).bind fun r => ?_
  cases r with
  | none => exact mimics_pure _
  | some t =>
    have hclose : ∀ args, c.Mimics
        (expect .parenAfterArguments >>= fun paren =>
          Parse.callTail fuel (.call callee paren args))
        (expect .parenAfterArguments >>= fun paren =>
          Parse.callTail fuel' (.call callee paren args)) :=
      fun args => (mimics_expect _).bind fun _ => ih.callTail _
    refine (mimics_check _).bind fun found => ?_
    cases found with
    | false => exact (ih.arguments 0).bind hclose
    | true => exact (mimics_pure []).bind hclose

theorem arguments_succ (ih : MimicsAt c fuel fuel') (count : Nat) :
    c.Mimics (Parse.arguments (fuel + 1) count) (Parse.arguments (fuel' + 1) count) := by
  refine (mimics_reportIf _ _).bind fun _ => (ih.assignment _).bind fun first =>
    (mimics_accept _).bind fun r => ?_
  cases r with
  | none => exact mimics_pure _
  | some t => exact (ih.arguments _).bind fun _ => mimics_pure _

theorem primary_succ (ih : MimicsAt c fuel fuel') :
    c.Mimics (Parse.primary (fuel + 1)) (Parse.primary (fuel' + 1)) := by
  refine mimics_peek.bind fun r => ?_
  cases r with
  | none => exact mimics_fail _
  | some t =>
    dsimp only
    split
    · exact mimics_skip.bind fun _ => (ih.assignment _).bind fun _ =>
        (mimics_expect _).bind fun _ => mimics_pure _
    · split
      · exact mimics_fail _
      · exact mimics_skip.bind fun _ => mimics_pure _

theorem all : ∀ {fuel fuel' : Nat}, fuel ≤ fuel' → MimicsAt c fuel fuel'
  | 0, fuel', _ => zero fuel'
  | _ + 1, _ + 1, h =>
    let ih := all (Nat.le_of_succ_le_succ h)
    ⟨ih.assignment_succ, fun l => (ih.operand l).bind fun left => ih.chainTail l left,
      ih.chainTail_succ, ih.operand_succ, ih.conditional_succ, ih.unary_succ, ih.callTail_succ,
      ih.arguments_succ, ih.primary_succ⟩

end MimicsAt

/-! ## Statements -/

section Statements

variable {fuel fuel' : Nat} (h : fuel ≤ fuel')

include h

theorem mimics_expression : c.Mimics (expression fuel) (expression fuel') :=
  (MimicsAt.all h).assignment .full

theorem mimics_expressionUnless (k : Kind) :
    c.Mimics (expressionUnless fuel k) (expressionUnless fuel' k) := by
  refine (mimics_check _).bind fun found => ?_
  cases found with
  | false => exact (mimics_expression h).bind fun _ => mimics_pure _
  | true => exact mimics_pure _

theorem completes_varDeclaration :
    c.Completes (varDeclaration fuel) (varDeclaration fuel') := by
  have hclose : ∀ name initial, c.Completes
      (expect .semicolonAfterVariable >>= fun _ => (pure (.var name initial) : Parse Stmt))
      (expect .semicolonAfterVariable >>= fun _ => pure (.var name initial)) :=
    fun name initial => (completes_expect _).bind fun _ => closes_pure _
  refine (mimics_expect _).complete fun name => (mimics_accept _).complete fun r => ?_
  cases r with
  | none => exact (mimics_pure none).complete (hclose name)
  | some t =>
    exact (mimics_expression h).complete fun e => (mimics_pure (some e)).complete (hclose name)

theorem completes_expressionStatement :
    c.Completes (expressionStatement fuel) (expressionStatement fuel') :=
  (mimics_expression h).complete fun _ => (completes_expect _).bind fun _ => closes_pure _

theorem completes_printStatement :
    c.Completes (printStatement fuel) (printStatement fuel') :=
  (mimics_expression h).complete fun _ => (completes_expect _).bind fun _ => closes_pure _

theorem completes_returnStatement (keyword : Token) :
    c.Completes (returnStatement fuel keyword) (returnStatement fuel' keyword) :=
  mimics_inFunction.complete fun _ => (mimics_reportIf _ _).complete fun _ =>
    mimics_skip.complete fun _ => (mimics_expressionUnless h _).complete fun _ =>
      (completes_expect _).bind fun _ => closes_pure _

theorem mimics_firstClause : c.Mimics (firstClause fuel) (firstClause fuel') := by
  refine (mimics_accept _).bind fun r => ?_
  cases r with
  | none => exact (completes_expressionStatement h).mimics.bind fun _ => mimics_pure _
  | some t =>
    dsimp only
    split
    · exact mimics_pure _
    · exact (completes_varDeclaration h).mimics.bind fun _ => mimics_pure _

end Statements

theorem mimics_parameters : ∀ {fuel fuel' : Nat} (count : Nat), fuel ≤ fuel' →
    c.Mimics (parameters fuel count) (parameters fuel' count)
  | 0, _, _, _ => mimics_outOfFuel _
  | fuel + 1, fuel' + 1, count, h => by
    refine (mimics_reportIf _ _).bind fun _ => (mimics_expect _).bind fun first =>
      (mimics_accept _).bind fun r => ?_
    cases r with
    | none => exact mimics_pure _
    | some t =>
      exact (mimics_parameters _ (Nat.le_of_succ_le_succ h)).bind fun _ => mimics_pure _

/-- Readers of statements complete what they read, those of declarations mimic themselves. -/
structure CompletesAt (c : Context) (fuel fuel' : Nat) : Prop where
  declaration : c.Mimics (declaration fuel) (declaration fuel')
  declarations : ∀ inBlock, c.Mimics (declarations fuel inBlock) (declarations fuel' inBlock)
  block : c.Completes (block fuel) (block fuel')
  functionDeclaration : c.Completes (functionDeclaration fuel) (functionDeclaration fuel')
  statement : c.Completes (statement fuel) (statement fuel')
  forStatement : c.Completes (forStatement fuel) (forStatement fuel')
  ifStatement : c.Completes (ifStatement fuel) (ifStatement fuel')
  whileStatement : c.Completes (whileStatement fuel) (whileStatement fuel')

namespace CompletesAt

variable {fuel fuel' : Nat}

theorem zero (fuel' : Nat) : CompletesAt c 0 fuel' where
  declaration := mimics_outOfFuel _
  declarations _ := mimics_outOfFuel _
  block := completes_outOfFuel _
  functionDeclaration := completes_outOfFuel _
  statement := completes_outOfFuel _
  forStatement := completes_outOfFuel _
  ifStatement := completes_outOfFuel _
  whileStatement := completes_outOfFuel _

theorem unrecovered (h : fuel ≤ fuel') (ih : CompletesAt c fuel fuel') :
    c.Completes (Parse.unrecovered fuel) (Parse.unrecovered fuel') := by
  refine (mimics_accept _).complete fun r => ?_
  cases r with
  | none => exact ih.statement
  | some t =>
    dsimp only
    split
    · exact ih.functionDeclaration
    · exact completes_varDeclaration h

theorem declarations_succ (ih : CompletesAt c fuel fuel') (inBlock : Bool) :
    c.Mimics (Parse.declarations (fuel + 1) inBlock) (Parse.declarations (fuel' + 1) inBlock) := by
  refine mimics_peek.bind fun r => ?_
  cases r with
  | none => exact mimics_pure _
  | some t =>
    dsimp only
    split
    · exact mimics_pure _
    · exact ih.declaration.bind fun _ => (ih.declarations _).bind fun _ => mimics_pure _

theorem functionDeclaration_succ (h : fuel ≤ fuel') (ih : CompletesAt c fuel fuel') :
    c.Completes (Parse.functionDeclaration (fuel + 1))
      (Parse.functionDeclaration (fuel' + 1)) := by
  have hbody : ∀ name params, c.Completes
      (do
        let _ ← expect .parenAfterParameters
        let _ ← expect .braceBeforeBody
        let body ← enterFunction (Parse.block fuel)
        return .function name params body : Parse Stmt)
      (do
        let _ ← expect .parenAfterParameters
        let _ ← expect .braceBeforeBody
        let body ← enterFunction (Parse.block fuel')
        return .function name params body : Parse Stmt) :=
    fun name params => (completes_expect _).bind fun _ => (closes_expect _).bind fun _ =>
      (closes_enterFunction ih.block.toCloses).bind fun _ => closes_pure _
  refine (mimics_expect _).complete fun name => (mimics_expect _).complete fun _ =>
    (mimics_check _).complete fun found => ?_
  cases found with
  | false => exact (mimics_parameters 0 h).complete (hbody name)
  | true => exact (mimics_pure []).complete (hbody name)

theorem statement_succ (h : fuel ≤ fuel') (ih : CompletesAt c fuel fuel') :
    c.Completes (Parse.statement (fuel + 1)) (Parse.statement (fuel' + 1)) := by
  refine mimics_peek.complete fun r => ?_
  cases r with
  | none => exact completes_expressionStatement h
  | some t =>
    dsimp only
    split
    · exact mimics_skip.complete fun _ => ih.forStatement
    · exact mimics_skip.complete fun _ => ih.ifStatement
    · exact mimics_skip.complete fun _ => completes_printStatement h
    · exact completes_returnStatement h t
    · exact mimics_skip.complete fun _ => ih.whileStatement
    · exact mimics_skip.complete fun _ => ih.block.bind fun _ => closes_pure _
    · exact completes_expressionStatement h

theorem forStatement_succ (h : fuel ≤ fuel') (ih : CompletesAt c fuel fuel') :
    c.Completes (Parse.forStatement (fuel + 1)) (Parse.forStatement (fuel' + 1)) :=
  (mimics_expect _).complete fun _ => (mimics_firstClause h).complete fun _ =>
    (mimics_expressionUnless h _).complete fun _ => (mimics_expect _).complete fun _ =>
      (mimics_expressionUnless h _).complete fun _ => (completes_expect _).bind fun _ =>
        ih.statement.toCloses.bind fun _ => closes_pure _

theorem ifStatement_succ (helse : NoElse c.behind) (h : fuel ≤ fuel')
    (ih : CompletesAt c fuel fuel') :
    c.Completes (Parse.ifStatement (fuel + 1)) (Parse.ifStatement (fuel' + 1)) := by
  -- The branch may be the end of the part; then no `else` must come next.
  have haccept : ∀ t ∈ c.behind.head?, decide (t.kind = .elseKw) = false :=
    fun t ht => decide_eq_false (helse t ht)
  refine (mimics_expect _).complete fun _ => (mimics_expression h).complete fun condition =>
    (completes_expect _).bind fun _ => ih.statement.toCloses.bind fun whenTrue =>
      (closes_accept haccept).bind fun r => ?_
  cases r with
  | none => exact closes_pure _
  | some t => exact ih.statement.toCloses.bind fun _ => closes_pure _

theorem whileStatement_succ (h : fuel ≤ fuel') (ih : CompletesAt c fuel fuel') :
    c.Completes (Parse.whileStatement (fuel + 1)) (Parse.whileStatement (fuel' + 1)) :=
  (mimics_expect _).complete fun _ => (mimics_expression h).complete fun _ =>
    (completes_expect _).bind fun _ => ih.statement.toCloses.bind fun _ => closes_pure _

theorem all (helse : NoElse c.behind) :
    ∀ {fuel fuel' : Nat}, fuel ≤ fuel' → CompletesAt c fuel fuel'
  | 0, fuel', _ => zero fuel'
  | _ + 1, _ + 1, h =>
    have h := Nat.le_of_succ_le_succ h
    let ih := all helse h
    ⟨mimics_recovering (ih.unrecovered h).mimics, ih.declarations_succ,
      (ih.declarations true).complete fun _ => (completes_expect _).bind fun _ => closes_pure _,
      ih.functionDeclaration_succ h, ih.statement_succ h, ih.forStatement_succ h,
      ih.ifStatement_succ helse h, ih.whileStatement_succ h⟩

end CompletesAt

end Treewalk
