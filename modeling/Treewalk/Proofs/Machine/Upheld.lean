import Treewalk.Proofs.Scoping.Mirror
import Treewalk.Proofs.Tree.Everywhere

/-!
# Standards that runs uphold

A standard asks something of the values, the trees and the stops of a run. It is kept if
the values that operators, literals and function declarations make meet it, and if it
passes from a tree to its parts and from a function to its body. A computation upholds the
standard if on a machine whose variables meet it it leaves such a machine behind, and a result
or a stop that meets it.

Results:

* `Standard.upholds_bind`, `Standard.upholds_activate` and so on: how to show this.
-/
namespace Treewalk

/-- What is asked of the values, trees and stops of a run. -/
structure Standard where
  value : Value → Prop
  expr : Expr → Prop
  stmt : Stmt → Prop
  stop : Stop → Prop

namespace Standard

variable {S : Standard}

/-- The result of an operator. -/
def Result (S : Standard) : Except Stop Value → Prop
  | .ok v => S.value v
  | .error e => S.stop e

/-- The parenthesis may be blamed for whatever a call can fail with. -/
structure Blames (S : Standard) (paren : Token) : Prop where
  notCallable : S.stop (.error ⟨paren, .notCallable⟩)
  badArity : ∀ (c : Callable) (got : Nat), got ≠ c.arity →
    S.stop (.error ⟨paren, .badArity c.arity got⟩)
  stackOverflow : S.stop (.error ⟨paren, .stackOverflow⟩)

/-- All that a run makes of what meets the standard meets it. -/
structure Kept (S : Standard) : Prop where
  outOfFuel : S.stop .outOfFuel
  nil : S.value .nil
  time : ∀ x, S.value (.number x)
  exprParts : ∀ {e}, S.expr e → ∀ part ∈ e.parts, S.expr part
  literal : ∀ {l}, S.expr (.literal l) → S.value (.ofLiteral l)
  unary : ∀ {op right v}, S.expr (.unary op right) → S.value v → S.Result (Value.unary op v)
  binary : ∀ {left op right l r}, S.expr (.binary left op right) → S.value l → S.value r →
    S.Result (Value.binary op l r)
  name : ∀ {t}, S.expr (.name t) → S.stop (.error (.undefined t))
  assign : ∀ {t value}, S.expr (.assign t value) → S.stop (.error (.undefined t))
  call : ∀ {callee paren args}, S.expr (.call callee paren args) → S.Blames paren
  stmtExprs : ∀ {s}, S.stmt s → ∀ e ∈ s.exprs, S.expr e
  stmtParts : ∀ {s}, S.stmt s → ∀ part ∈ s.parts, S.stmt part
  function : ∀ {name params body}, S.stmt (.function name params body) →
    ∀ id closure, S.value (.callable id (.function ⟨name, params, body⟩ closure))
  body : ∀ {id d closure}, S.value (.callable id (.function d closure)) → ∀ s ∈ d.body, S.stmt s

/-- All variables meet the standard. -/
def Meets (S : Standard) (s : Store) : Prop :=
  ∀ id name v, s.bound? id name = some v → S.value v

/-- The value on its way out of a statement. -/
def Flows (S : Standard) : Flow → Prop
  | .normal => True
  | .returned v => S.value v

/-- The outcome of a computation whose result has to satisfy `post`. -/
def Ends {α : Type} (S : Standard) (post : α → Prop) : EStateM.Result Stop Machine α → Prop
  | .ok a m => post a ∧ S.Meets m.store
  | .error e m => S.stop e ∧ S.Meets m.store

/-- On a machine that meets the standard the computation upholds it. -/
def Upholds {α : Type} (S : Standard) (post : α → Prop) (x : Eval α) : Prop :=
  ∀ m, S.Meets m.store → S.Ends post (x m)

/-! ## Variables -/

theorem Meets.define {s : Store} (h : S.Meets s) (id : ScopeId) (name : String) {v : Value}
    (hv : S.value v) : S.Meets (s.define id name v) := by
  intro d other w hw
  have hsize := Store.lt_of_bound? _ d other hw
  rw [Store.size_define] at hsize
  by_cases hid : id < s.scopes.size
  · rw [Store.bound?_define _ _ _ _ _ _ hid] at hw
    split at hw
    · cases hw
      exact hv
    · exact h d other w hw
  · -- A scope that does not exist binds nothing.
    have hne : id ≠ d := fun e => hid (e ▸ hsize)
    refine h d other w ?_
    rw [← hw]
    simp [Store.bound?, Store.define, Array.getElem?_modify, hne]

theorem Meets.defineAll {s : Store} (h : S.Meets s) (id : ScopeId)
    {bindings : List (String × Value)} (hbs : ∀ b ∈ bindings, S.value b.2) :
    S.Meets (s.defineAll id bindings) := by
  induction bindings generalizing s with
  | nil => exact h
  | cons b bs ih =>
    obtain ⟨hb, hbs⟩ := List.forall_mem_cons.mp hbs
    exact ih (h.define id b.1 hb) hbs

theorem Meets.enclose {s : Store} (h : S.Meets s) (outer : ScopeId) :
    S.Meets (s.enclose outer).2 := by
  intro d name v hv
  rw [Store.bound?_enclose] at hv
  exact h d name v hv

theorem Meets.lookup {s : Store} (h : S.Meets s) {id : ScopeId} {name : String} {v : Value}
    (hv : s.lookup id name = some v) : S.value v := by
  obtain ⟨i, -, hi⟩ := List.exists_of_findSome?_eq_some hv
  exact h i name v hi

/-- A new machine meets the standard, since it has one variable only. -/
theorem meets_initial (h : S.value (.callable 0 .clock)) : S.Meets Machine.initial.store := by
  have hempty : S.Meets Store.empty.root.2 := by
    intro id name v hv
    simp only [Store.root, Store.push, Store.empty, Store.bound?, List.push_toArray,
      List.nil_append] at hv
    rcases id with _ | id <;> simp [Scope.get?] at hv
  exact hempty.define _ _ h

theorem Upholds.after {α : Type} {post : α → Prop} {x : Eval α} (h : S.Upholds post x)
    {m : Machine} (hm : S.Meets m.store) : S.Meets (after (x m)).store := by
  have := h m hm
  cases hx : x m <;> (rw [hx] at this; exact this.2)

/-! ## Rules for computations -/

section Rules

variable {α β : Type} {post : α → Prop}

theorem Upholds.imp {x : Eval α} {post' : α → Prop} (h : S.Upholds post x)
    (hpost : ∀ a, post a → post' a) : S.Upholds post' x := by
  intro m hm
  have hends := h m hm
  cases hr : x m with
  | ok a m' =>
    rw [hr] at hends
    exact ⟨hpost a hends.1, hends.2⟩
  | error e m' =>
    rw [hr] at hends
    exact hends

theorem upholds_bind {post' : β → Prop} {x : Eval α} {k : α → Eval β} (hx : S.Upholds post x)
    (hk : ∀ a, post a → S.Upholds post' (k a)) : S.Upholds post' (x >>= k) := by
  intro m hm
  have h := hx m hm
  cases hr : x m with
  | ok a m₁ =>
    rw [hr] at h
    rw [bind_of_ok hr]
    exact hk a h.1 m₁ h.2
  | error e m₁ =>
    rw [hr] at h
    rw [bind_of_error hr]
    exact h

theorem upholds_pure {a : α} (h : post a) : S.Upholds post (pure a) := fun _ hm => ⟨h, hm⟩

theorem upholds_outOfFuel (hS : S.Kept) : S.Upholds post (Eval.outOfFuel : Eval α) :=
  fun _ hm => ⟨hS.outOfFuel, hm⟩

theorem upholds_fault {t : Token} {f : Fault} (h : S.stop (.error ⟨t, f⟩)) :
    S.Upholds post (Eval.fault t f : Eval α) := fun _ hm => ⟨h, hm⟩

theorem upholds_ofExcept {r : Except Stop Value} (h : S.Result r) :
    S.Upholds S.value (Eval.ofExcept r) := by
  intro m hm
  cases r with
  | ok v => exact ⟨h, hm⟩
  | error e => exact ⟨h, hm⟩

theorem upholds_get {t : Token} (h : S.stop (.error (.undefined t))) :
    S.Upholds S.value (Eval.get t) := by
  intro m hm
  unfold Eval.get Store.get
  cases hv : m.store.lookup m.scope t.lexeme with
  | none => exact ⟨h, hm⟩
  | some v => exact ⟨hm.lookup hv, hm⟩

theorem upholds_assign {t : Token} {v : Value} (h : S.stop (.error (.undefined t)))
    (hv : S.value v) : S.Upholds (fun _ => True) (Eval.assign t v) := by
  intro m hm
  unfold Eval.assign
  cases m.store.owner? m.scope t.lexeme with
  | none => exact ⟨h, hm⟩
  | some owner => exact ⟨trivial, hm.define owner t.lexeme hv⟩

theorem upholds_printLine (line : String) : S.Upholds (fun _ => True) (Eval.printLine line) :=
  fun _ hm => ⟨trivial, hm⟩

theorem upholds_scope : S.Upholds (fun _ => True) Eval.scope := fun _ hm => ⟨trivial, hm⟩

theorem upholds_define (name : String) {v : Value} (hv : S.value v) :
    S.Upholds (fun _ => True) (Eval.define name v) :=
  fun m hm => ⟨trivial, hm.define m.scope name hv⟩

theorem upholds_close {d : Declaration}
    (h : ∀ id closure, S.value (.callable id (.function d closure))) :
    S.Upholds S.value (Eval.close d) := fun m hm => ⟨h m.created m.scope, hm⟩

theorem upholds_readClock (hS : S.Kept) (cfg : Setting) :
    S.Upholds S.value (Eval.readClock cfg) := fun _ hm => ⟨hS.time _, hm⟩

theorem upholds_enclose (outer : ScopeId) {bindings : List (String × Value)}
    (hbs : ∀ b ∈ bindings, S.value b.2) :
    S.Upholds (fun _ => True) (Eval.enclose outer bindings) :=
  fun _ hm => ⟨trivial, (hm.enclose outer).defineAll _ hbs⟩

/-- A change at the end that keeps the store keeps the standard. -/
theorem Ends.leaving {post : α → Prop} {r : EStateM.Result Stop Machine α} (h : S.Ends post r)
    {f : Machine → Machine} (hf : ∀ m, (f m).store = m.store) : S.Ends post (leaving f r) := by
  cases r <;> exact ⟨h.1, (hf _).symm ▸ h.2⟩

theorem upholds_inScope (id : ScopeId) {x : Eval α} (hx : S.Upholds post x) :
    S.Upholds post (Eval.inScope id x) := by
  intro m hm
  rw [inScope_eq]
  exact (hx { m with scope := id } hm).leaving fun _ => rfl

theorem upholds_activate (limit : Option Nat) {paren : Token} {x : Eval α}
    (h : S.stop (.error ⟨paren, .stackOverflow⟩)) (hx : S.Upholds post x) :
    S.Upholds post (Eval.activate limit paren x) := by
  intro m hm
  obtain hfull | hroom := activate_cases limit paren x m
  · rw [hfull]
    exact ⟨h, hm⟩
  · rw [hroom]
    exact (hx m.enter hm).leaving fun _ => rfl

end Rules

end Standard

end Treewalk
