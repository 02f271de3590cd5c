import Treewalk.Machine.Basic
import Treewalk.Proofs.Computations

/-!
# What a computation is made of

A run is made of single steps of the machine (`Eval.IsStep`) and of two brackets. Code runs in a
scope and as an open call for as long as a computation goes on, and then the machine is as before
in that respect, however the computation ended: `inScope` and `activate` change the machine at
the start and at the end and leave the end itself alone.
-/
namespace Treewalk

/-- The steps of a run. -/
inductive Eval.IsStep : {α : Type} → Eval α → Prop where
  | outOfFuel {α : Type} : IsStep (Eval.outOfFuel : Eval α)
  | fault {α : Type} (t : Token) (f : Fault) : IsStep (Eval.fault t f : Eval α)
  | ofExcept (r : Except Stop Value) : IsStep (Eval.ofExcept r)
  | printLine (line : String) : IsStep (Eval.printLine line)
  | get (t : Token) : IsStep (Eval.get t)
  | assign (t : Token) (v : Value) : IsStep (Eval.assign t v)
  | define (name : String) (v : Value) : IsStep (Eval.define name v)
  | close (d : Declaration) : IsStep (Eval.close d)
  | readClock (cfg : Setting) : IsStep (Eval.readClock cfg)
  | scope : IsStep Eval.scope
  | enclose (outer : ScopeId) (bs : List (String × Value)) : IsStep (Eval.enclose outer bs)

@[simp]
theorem Machine.store_enter (m : Machine) : m.enter.store = m.store := rfl

@[simp]
theorem Machine.scope_enter (m : Machine) : m.enter.scope = m.scope := rfl

@[simp]
theorem Machine.store_leave (m : Machine) : m.leave.store = m.store := rfl

@[simp]
theorem Machine.scope_leave (m : Machine) : m.leave.scope = m.scope := rfl

variable {α : Type}

theorem inScope_eq (id : ScopeId) (x : Eval α) (m : Machine) :
    Eval.inScope id x m = leaving ({ · with scope := m.scope }) (x { m with scope := id }) := by
  unfold Eval.inScope
  cases x { m with scope := id } <;> rfl

section Call

variable {limit : Option Nat} {m : Machine}

theorem activate_eq (h : limit.any (· ≤ m.depth) = false) (paren : Token) (x : Eval α) :
    Eval.activate limit paren x m = leaving Machine.leave (x m.enter) := by
  unfold Eval.activate
  rw [h, if_neg Bool.false_ne_true]
  cases x m.enter <;> rfl

theorem activate_full (h : limit.any (· ≤ m.depth) = true) (paren : Token) (x : Eval α) :
    Eval.activate limit paren x m = .error (.error ⟨paren, .stackOverflow⟩) m := by
  unfold Eval.activate
  rw [h, if_pos rfl]

end Call

/-- A call is refused, or its body runs with one more call open. -/
theorem activate_cases (limit : Option Nat) (paren : Token) (x : Eval α) (m : Machine) :
    Eval.activate limit paren x m = .error (.error ⟨paren, .stackOverflow⟩) m ∨
      Eval.activate limit paren x m = leaving Machine.leave (x m.enter) := by
  cases h : limit.any (· ≤ m.depth) with
  | true => exact .inl (activate_full h paren x)
  | false => exact .inr (activate_eq h paren x)

end Treewalk
