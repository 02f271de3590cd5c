import Treewalk.RuntimeError
import Treewalk.Value

/-!
# Scopes and the store

The store holds every scope ever opened; a scope is known by its number. Each
scope has its own bindings and the scopes around it, innermost first. A name is
looked up and assigned in the first scope on the way outward that binds it, its
owner; a definition goes into the scope itself. `depth`, `lookup`, `get`, `define` and `assign`
mirror the functions of environments with these names, which walk from scope to scope.

Results:

* `Scope.get?_define`: a definition changes the value of its own name only.
* `chain_enclose`: a new scope is enclosed by the scope given and all around it.
* `chain_define`, `bound?_define`: a definition moves no scope and changes one
  binding of one scope.
* `lookup_eq_owner`: a name's value is the one that its owner binds.
-/
namespace Treewalk

structure Scope where
  bindings : List (String × Value)
  /-- The scopes around this one, innermost first. -/
  enclosing : List ScopeId

namespace Scope

def get? (s : Scope) (name : String) : Option Value := s.bindings.lookup name

/-- Bind a name, in place of an older binding of it. -/
def define (s : Scope) (name : String) (value : Value) : Scope :=
  { s with bindings := (name, value) :: s.bindings.filter (·.1 != name) }

theorem get?_define (s : Scope) (name other : String) (value : Value) :
    (s.define name value).get? other = if other = name then some value else s.get? other := by
  simp only [define, get?, List.lookup_cons]
  by_cases h : other = name
  · simp [h]
  · simp only [beq_eq_false_iff_ne.mpr h, if_neg h]
    induction s.bindings with
    | nil => rfl
    | cons b bs ih =>
      obtain ⟨k, v⟩ := b
      by_cases hk : k = name
      · have : (other == k) = false := by simpa [hk] using h
        simp [hk, List.lookup_cons, ih, beq_eq_false_iff_ne.mpr h]
      · simp [hk, List.lookup_cons, ih]

end Scope

structure Store where
  scopes : Array Scope

namespace Store

def empty : Store := ⟨#[]⟩

/-- A scope and those around it, innermost first. -/
def chain (s : Store) (id : ScopeId) : List ScopeId :=
  id :: (s.scopes[id]?.map Scope.enclosing).getD []

/-- How many scopes a name is looked up in. -/
def depth (s : Store) (id : ScopeId) : Nat := (s.chain id).length

/-- Open a scope with the given scopes around it. -/
def push (s : Store) (enclosing : List ScopeId) : ScopeId × Store :=
  (s.scopes.size, ⟨s.scopes.push ⟨[], enclosing⟩⟩)

/-- Open a scope with none around it. -/
def root (s : Store) : ScopeId × Store := s.push []

/-- Open a scope inside another one. Mirrors `new_enclosed`. -/
def enclose (s : Store) (outer : ScopeId) : ScopeId × Store := s.push (s.chain outer)

/-- The value that a scope itself binds to a name. -/
def bound? (s : Store) (id : ScopeId) (name : String) : Option Value :=
  s.scopes[id]?.bind (·.get? name)

/-- The first scope on the way outward that binds a name. -/
def owner? (s : Store) (id : ScopeId) (name : String) : Option ScopeId :=
  (s.chain id).find? fun i => (s.bound? i name).isSome

/-- The value of a name seen from a scope. -/
def lookup (s : Store) (id : ScopeId) (name : String) : Option Value :=
  (s.chain id).findSome? fun i => s.bound? i name

/-- Bind a name in a scope. -/
def define (s : Store) (id : ScopeId) (name : String) (value : Value) : Store :=
  ⟨s.scopes.modify id (·.define name value)⟩

/-- Bind several names in a scope, in order. -/
def defineAll (s : Store) (id : ScopeId) (bindings : List (String × Value)) : Store :=
  bindings.foldl (fun s b => s.define id b.1 b.2) s

/-- The value of a variable. -/
def get (s : Store) (id : ScopeId) (name : Token) : Except RuntimeError Value :=
  match s.lookup id name.lexeme with
  | some value => .ok value
  | none => .error (.undefined name)

/-- Give a variable a new value in the scope that binds it. -/
def assign (s : Store) (id : ScopeId) (name : Token) (value : Value) :
    Except RuntimeError Store :=
  match s.owner? id name.lexeme with
  | some owner => .ok (s.define owner name.lexeme value)
  | none => .error (.undefined name)

/-- A definition moves no scope. -/
@[simp]
theorem chain_define (s : Store) (id d : ScopeId) (name : String) (value : Value) :
    (s.define id name value).chain d = s.chain d := by
  simp only [chain, define, Array.getElem?_modify]
  split
  · cases s.scopes[d]? <;> rfl
  · rfl

/-- A definition changes one binding of one scope. -/
theorem bound?_define (s : Store) (id d : ScopeId) (name other : String) (value : Value)
    (h : id < s.scopes.size) :
    (s.define id name value).bound? d other =
      if d = id ∧ other = name then some value else s.bound? d other := by
  simp only [bound?, define, Array.getElem?_modify]
  by_cases hd : id = d
  · subst hd
    simp [Array.getElem?_eq_getElem h, Scope.get?_define]
  · have : ¬ d = id := fun e => hd e.symm
    simp [hd, this]

/-- A name's value is the one that its owner binds. -/
theorem lookup_eq_owner (s : Store) (id : ScopeId) (name : String) :
    s.lookup id name = (s.owner? id name).bind fun i => s.bound? i name := by
  unfold lookup owner?
  induction s.chain id with
  | nil => rfl
  | cons i is ih =>
    simp only [List.findSome?_cons, List.find?_cons]
    cases h : s.bound? i name with
    | none => simpa using ih
    | some v => simp [h]

/-- A new scope is enclosed by the scope given and all around it. -/
theorem chain_enclose (s : Store) (outer : ScopeId) :
    (s.enclose outer).2.chain (s.enclose outer).1 = (s.enclose outer).1 :: s.chain outer := by
  simp [enclose, push, chain]

end Store

end Treewalk
