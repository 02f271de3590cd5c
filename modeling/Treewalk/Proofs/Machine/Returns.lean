import Treewalk.Proofs.Grammar.Regular
import Treewalk.Machine.Run
import Treewalk.Proofs.Machine.Primitives

/-!
# Programs one after the other

A `return` leaves the statements up to the call it is in. Where there is none
outside of function bodies, control always reaches the end of a program, and what
follows it is run next.

Results:

* `execute_falls`: a statement without such a `return` never returns.
* `interpret_append`: two programs in a row are run one after the other.
-/
namespace Treewalk

/-- Control never leaves the computation with a `return`. -/
def Falls (x : Eval Flow) : Prop := ∀ m r m', x m = .ok r m' → r = .normal

variable {α : Type}

theorem falls_normal : Falls (pure .normal) := by
  intro m r m' h
  cases h
  rfl

theorem falls_outOfFuel : Falls Eval.outOfFuel := by
  intro m r m' h
  cases h

theorem falls_bind {x : Eval α} {k : α → Eval Flow} (hk : ∀ a, Falls (k a)) :
    Falls (x >>= k) := by
  intro m r m' h
  obtain ⟨a, m₁, -, h₁⟩ := bind_eq_ok.mp h
  exact hk a m₁ r m' h₁

/-- What comes after a computation that falls through. -/
theorem falls_then {x : Eval Flow} {k : Flow → Eval Flow} (hx : Falls x)
    (hk : Falls (k .normal)) : Falls (x >>= k) := by
  intro m r m' h
  obtain ⟨a, m₁, ha, h₁⟩ := bind_eq_ok.mp h
  obtain rfl := hx m a m₁ ha
  exact hk m₁ r m' h₁

theorem falls_inScope (id : ScopeId) {x : Eval Flow} (hx : Falls x) :
    Falls (Eval.inScope id x) := by
  intro m r m' h
  rw [inScope_eq] at h
  obtain ⟨m₁, hm, -⟩ := leaving_eq_ok.mp h
  exact hx _ _ _ hm

variable {cfg : Setting}

mutual

theorem execute_falls : (fuel : Nat) → {s : Stmt} → s.Regular false →
    Falls (execute cfg fuel s)
  | 0, _, _ => falls_outOfFuel
  | _ + 1, .expr _, _ => falls_bind fun _ => falls_normal
  | _ + 1, .print _, _ => falls_bind fun _ => falls_bind fun _ => falls_normal
  | _ + 1, .var _ none, _ => falls_bind fun _ => falls_normal
  | _ + 1, .var _ (some _), _ => falls_bind fun _ => falls_bind fun _ => falls_normal
  | fuel + 1, .block _, h =>
    falls_bind fun _ => falls_bind fun id => falls_inScope id (executeAll_falls fuel h)
  | fuel + 1, .ifThen _ _, h => by
    refine falls_bind fun v => ?_
    split
    · exact execute_falls fuel h.2
    · exact falls_normal
  | fuel + 1, .ifElse _ _ _, h => by
    refine falls_bind fun v => ?_
    split
    · exact execute_falls fuel h.1.2
    · exact execute_falls fuel h.2.2
  | fuel + 1, .whileLoop _ _, h => by
    refine falls_bind fun v => ?_
    split
    · exact falls_then (execute_falls fuel h.2) (execute_falls fuel h)
    · exact falls_normal
  | _ + 1, .function _ _ _, _ => falls_bind fun _ => falls_bind fun _ => falls_normal

theorem executeAll_falls : (fuel : Nat) → {ss : List Stmt} → Stmt.RegularAll ss false →
    Falls (executeAll cfg fuel ss)
  | 0, _, _ => falls_outOfFuel
  | _ + 1, [], _ => falls_normal
  | fuel + 1, _ :: _, h => falls_then (execute_falls fuel h.1) (executeAll_falls fuel h.2)

end

/-- Two programs in a row are run one after the other. -/
theorem interpret_append (fuel : Nat) {p : Program} (hp : Stmt.RegularAll p false) (q : Program) :
    interpret cfg fuel (p ++ q) = (do interpret cfg fuel p; interpret cfg fuel q) := by
  induction p with
  | nil => rfl
  | cons s ss ih =>
    funext m
    rw [List.cons_append, interpret, interpret, bind_assoc]
    cases hs : execute cfg fuel s m with
    | ok r m' =>
      obtain rfl := execute_falls fuel hp.1 m r m' hs
      rw [bind_of_ok hs, bind_of_ok hs]
      exact congrFun (ih hp.2) m'
    | error e m' => rw [bind_of_error hs, bind_of_error hs]

end Treewalk
