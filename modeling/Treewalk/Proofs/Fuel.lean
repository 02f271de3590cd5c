import Treewalk.Machine.Run
import Treewalk.Proofs.Machine.Primitives

/-!
# More fuel

A run that ends with some fuel ends the same way with more of it. So a program
has at most one result, whatever fuel it is run with.

Results:

* `evaluate_unique`: evaluating an expression has at most one result.
* `interpret_extends`: with more fuel a program does the same, unless it ran out.
-/
namespace Treewalk

variable {α β : Type}

/-- The second computation does the same as the first, unless that runs out of fuel. -/
def Extends (x y : Eval α) : Prop :=
  ∀ m, (∃ m', x m = .error .outOfFuel m') ∨ y m = x m

theorem Extends.refl (x : Eval α) : Extends x x := fun _ => .inr rfl

theorem Extends.trans {x y z : Eval α} (hxy : Extends x y) (hyz : Extends y z) : Extends x z := by
  intro m
  obtain h | h := hxy m
  · exact .inl h
  · rw [← h]
    exact hyz m

theorem extends_outOfFuel (y : Eval α) : Extends Eval.outOfFuel y := fun m => .inl ⟨m, rfl⟩

theorem extends_bind {x y : Eval α} {k k' : α → Eval β} (hx : Extends x y)
    (hk : ∀ a, Extends (k a) (k' a)) : Extends (x >>= k) (y >>= k') := by
  intro m
  obtain ⟨m', h⟩ | h := hx m
  · exact .inl ⟨m', bind_of_error h⟩
  · cases hm : x m with
    | ok a m₁ =>
      rw [bind_of_ok hm, bind_of_ok (h.trans hm)]
      exact hk a m₁
    | error e m₁ =>
      rw [bind_of_error hm, bind_of_error (h.trans hm)]
      exact .inr rfl

theorem extends_leaving (f : Machine → Machine) {r r' : EStateM.Result Stop Machine α}
    (h : (∃ m', r = .error .outOfFuel m') ∨ r' = r) :
    (∃ m', leaving f r = .error .outOfFuel m') ∨ leaving f r' = leaving f r := by
  obtain ⟨m', rfl⟩ | rfl := h
  · exact .inl ⟨f m', rfl⟩
  · exact .inr rfl

theorem extends_inScope (id : ScopeId) {x y : Eval α} (h : Extends x y) :
    Extends (Eval.inScope id x) (Eval.inScope id y) := by
  intro m
  rw [inScope_eq, inScope_eq]
  exact extends_leaving _ (h _)

theorem extends_activate (limit : Option Nat) (paren : Token) {x y : Eval α} (h : Extends x y) :
    Extends (Eval.activate limit paren x) (Eval.activate limit paren y) := by
  intro m
  cases hroom : limit.any (· ≤ m.depth) with
  | true =>
    rw [activate_full hroom, activate_full hroom]
    exact .inr rfl
  | false =>
    rw [activate_eq hroom, activate_eq hroom]
    exact extends_leaving _ (h _)

/-- One more unit of fuel changes nothing but where the fuel ends. -/
structure ExtendsAt (cfg : Setting) (fuel : Nat) : Prop where
  evaluate : ∀ e, Extends (evaluate cfg fuel e) (evaluate cfg (fuel + 1) e)
  evaluateAll : ∀ es, Extends (evaluateAll cfg fuel es) (evaluateAll cfg (fuel + 1) es)
  call : ∀ c paren args, Extends (call cfg fuel c paren args) (call cfg (fuel + 1) c paren args)
  execute : ∀ s, Extends (execute cfg fuel s) (execute cfg (fuel + 1) s)
  executeAll : ∀ ss, Extends (executeAll cfg fuel ss) (executeAll cfg (fuel + 1) ss)

namespace ExtendsAt

variable {cfg : Setting} {fuel : Nat}

theorem zero : ExtendsAt cfg 0 where
  evaluate _ := extends_outOfFuel _
  evaluateAll _ := extends_outOfFuel _
  call _ _ _ := extends_outOfFuel _
  execute _ := extends_outOfFuel _
  executeAll _ := extends_outOfFuel _

theorem evaluate_succ (ih : ExtendsAt cfg fuel) (e : Expr) :
    Extends (Treewalk.evaluate cfg (fuel + 1) e) (Treewalk.evaluate cfg (fuel + 2) e) := by
  cases e with
  | literal l => exact .refl _
  | grouping inner => exact ih.evaluate inner
  | unary op right => exact extends_bind (ih.evaluate right) fun _ => .refl _
  | binary left op right =>
    exact extends_bind (ih.evaluate left) fun _ => extends_bind (ih.evaluate right) fun _ => .refl _
  | logical left op right =>
    refine extends_bind (ih.evaluate left) fun v => ?_
    split
    · exact .refl _
    · exact ih.evaluate right
  | ternary op c t e =>
    refine extends_bind (ih.evaluate c) fun v => ?_
    split
    · exact extends_bind (ih.evaluate t) fun _ => extends_bind (ih.evaluate e) fun _ => .refl _
    · split
      · exact ih.evaluate t
      · exact ih.evaluate e
  | name t => exact .refl _
  | assign t value => exact extends_bind (ih.evaluate value) fun _ => .refl _
  | call callee paren args =>
    refine extends_bind (ih.evaluate callee) fun v => extends_bind (ih.evaluateAll args)
      fun vs => ?_
    cases v with
    | callable id c => exact ih.call c paren vs
    | _ => exact .refl _

theorem evaluateAll_succ (ih : ExtendsAt cfg fuel) (es : List Expr) :
    Extends (Treewalk.evaluateAll cfg (fuel + 1) es) (Treewalk.evaluateAll cfg (fuel + 2) es) := by
  cases es with
  | nil => exact .refl _
  | cons e es =>
    exact extends_bind (ih.evaluate e) fun _ => extends_bind (ih.evaluateAll es) fun _ => .refl _

theorem call_succ (ih : ExtendsAt cfg fuel) (c : Callable) (paren : Token) (args : List Value) :
    Extends (Treewalk.call cfg (fuel + 1) c paren args)
      (Treewalk.call cfg (fuel + 2) c paren args) := by
  unfold Treewalk.call
  split
  · exact .refl _
  · refine extends_activate _ _ ?_
    cases c with
    | clock => exact .refl _
    | function d closure =>
      exact extends_bind (.refl _) fun id =>
        extends_bind (extends_inScope id (ih.executeAll d.body)) fun _ => .refl _

theorem execute_succ (ih : ExtendsAt cfg fuel) (s : Stmt) :
    Extends (Treewalk.execute cfg (fuel + 1) s) (Treewalk.execute cfg (fuel + 2) s) := by
  cases s with
  | expr e => exact extends_bind (ih.evaluate e) fun _ => .refl _
  | print e => exact extends_bind (ih.evaluate e) fun _ => .refl _
  | var name initial =>
    cases initial with
    | none => exact .refl _
    | some e => exact extends_bind (ih.evaluate e) fun _ => .refl _
  | block body =>
    exact extends_bind (.refl _) fun outer => extends_bind (.refl _) fun id =>
      extends_inScope id (ih.executeAll body)
  | ifThen c t =>
    refine extends_bind (ih.evaluate c) fun v => ?_
    split
    · exact ih.execute t
    · exact .refl _
  | ifElse c t e =>
    refine extends_bind (ih.evaluate c) fun v => ?_
    split
    · exact ih.execute t
    · exact ih.execute e
  | whileLoop c body =>
    refine extends_bind (ih.evaluate c) fun v => ?_
    split
    · refine extends_bind (ih.execute body) fun r => ?_
      cases r with
      | returned v => exact .refl _
      | normal => exact ih.execute (.whileLoop c body)
    · exact .refl _
  | function name params body => exact .refl _
  | ret keyword value =>
    cases value with
    | none => exact .refl _
    | some e => exact extends_bind (ih.evaluate e) fun _ => .refl _

theorem executeAll_succ (ih : ExtendsAt cfg fuel) (ss : List Stmt) :
    Extends (Treewalk.executeAll cfg (fuel + 1) ss) (Treewalk.executeAll cfg (fuel + 2) ss) := by
  cases ss with
  | nil => exact .refl _
  | cons s ss =>
    refine extends_bind (ih.execute s) fun r => ?_
    cases r with
    | returned v => exact .refl _
    | normal => exact ih.executeAll ss

theorem all : ∀ fuel, ExtendsAt cfg fuel
  | 0 => zero
  | fuel + 1 =>
    let ih := all fuel
    ⟨ih.evaluate_succ, ih.evaluateAll_succ, ih.call_succ, ih.execute_succ, ih.executeAll_succ⟩

end ExtendsAt

/-- If one more unit of fuel changes nothing but where the fuel ends, no amount does. -/
theorem extends_of_le {x : Nat → Eval α} (hmore : ∀ fuel, Extends (x fuel) (x (fuel + 1)))
    {fuel fuel' : Nat} (h : fuel ≤ fuel') : Extends (x fuel) (x fuel') := by
  induction h with
  | refl => exact .refl _
  | step _ ih => exact ih.trans (hmore _)

/-- Two runs that do not run out of fuel end the same way. -/
theorem ended_unique {x : Nat → Eval α} (hmore : ∀ fuel, Extends (x fuel) (x (fuel + 1)))
    {a b : Nat} {m : Machine} (ha : ∀ m', x a m ≠ .error .outOfFuel m')
    (hb : ∀ m', x b m ≠ .error .outOfFuel m') : x a m = x b m := by
  have hmax : ∀ {fuel}, fuel ≤ max a b → (∀ m', x fuel m ≠ .error .outOfFuel m') →
      x (max a b) m = x fuel m := fun hle hended =>
    (extends_of_le hmore hle m).resolve_left fun ⟨m', hm⟩ => hended m' hm
  rw [← hmax (Nat.le_max_left a b) ha, hmax (Nat.le_max_right a b) hb]

/-- However an expression is evaluated to the end, the result is the same. -/
theorem evaluate_unique {cfg : Setting} {a b : Nat} {e : Expr} {m : Machine}
    (ha : ∀ m', evaluate cfg a e m ≠ .error .outOfFuel m')
    (hb : ∀ m', evaluate cfg b e m ≠ .error .outOfFuel m') :
    evaluate cfg a e m = evaluate cfg b e m :=
  ended_unique (fun fuel => (ExtendsAt.all fuel).evaluate e) ha hb

/-- With more fuel a program does the same, unless it ran out. -/
theorem interpret_extends {cfg : Setting} {fuel fuel' : Nat} (h : fuel ≤ fuel') (p : Program) :
    Extends (interpret cfg fuel p) (interpret cfg fuel' p) := by
  refine extends_of_le (x := fun fuel => interpret cfg fuel p) (fun fuel => ?_) h
  induction p with
  | nil => exact .refl _
  | cons s ss ih =>
    refine extends_bind ((ExtendsAt.all fuel).execute s) fun r => ?_
    cases r with
    | returned v => exact .refl _
    | normal => exact ih

end Treewalk
