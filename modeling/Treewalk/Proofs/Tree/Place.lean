import Treewalk.Proofs.Tree.Everywhere

/-!
# Places in the source

The source of a session is a tree: its programs, their statements, and all that
these hold. A place is the way from the root to a part, and the parts on that way
that have a scope of their own enclose the place: the blocks, the function bodies,
and the session itself, whose scope is the globals.

Results:

* `Node.enclosing_eq`: what encloses a place is its innermost scope and what encloses that.
* `Node.innermost_cons_of_opens`, `Node.innermost_cons_of_not`: the innermost scope of a part.
-/
namespace Treewalk

/-- A part of the source of a session. -/
inductive Node where
  /-- All programs of the session, which share the globals. -/
  | session (programs : List Program)
  | program (statements : Program)
  | stmt (s : Stmt)
  | expr (e : Expr)

/-- The way from the root to a part, last step first. -/
abbrev Place := List Nat

/-- The parts of a statement. -/
def Stmt.nodes : Stmt → List Node
  | .expr e | .print e => [.expr e]
  | .var _ e | .ret _ e => e.toList.map .expr
  | .block body | .function _ _ body => body.map .stmt
  | .ifThen c t => [.expr c, .stmt t]
  | .ifElse c t e => [.expr c, .stmt t, .stmt e]
  | .whileLoop c body => [.expr c, .stmt body]

/-- The entries of a list, numbered from `i` on, are as `P` says. -/
def Numbered {α : Type} (P : Nat → α → Prop) (i : Nat) (xs : List α) : Prop :=
  ∀ k x, xs[k]? = some x → P (i + k) x

section Numbered

variable {α : Type} {P : Nat → α → Prop} {i : Nat} {x : α} {xs : List α}

theorem Numbered.head (h : Numbered P i (x :: xs)) : P i x := h 0 x rfl

theorem Numbered.tail (h : Numbered P i (x :: xs)) : Numbered P (i + 1) xs := by
  intro k y hk
  have := h (k + 1) y hk
  rwa [show i + (k + 1) = i + 1 + k by omega] at this

end Numbered

/-- The name that a declaration binds. -/
def declares : Stmt → Option String
  | .var name _ | .function name _ _ => some name.lexeme
  | _ => none

namespace Node

def parts : Node → List Node
  | .session ps => ps.map .program
  | .program ss => ss.map .stmt
  | .stmt s => s.nodes
  | .expr e => e.parts.map .expr

/-- The part at a place. -/
def part? (root : Node) : Place → Option Node
  | [] => some root
  | i :: place => (root.part? place).bind fun node => node.parts[i]?

/-- A part with a scope of its own. -/
def opensScope : Node → Bool
  | .session _ | .stmt (.block _) | .stmt (.function ..) => true
  | _ => false

def opensAt (root : Node) (place : Place) : Bool := (root.part? place).any opensScope

/-- The scopes around a place, innermost first. -/
def enclosing (root : Node) : Place → List Place
  | [] => []
  | _ :: place => if root.opensAt place then place :: root.enclosing place else root.enclosing place

/-- The innermost scope around a place. -/
def innermost (root : Node) (place : Place) : Option Place := (root.enclosing place).head?

/-- The names declared directly in a scope. -/
def declared : Node → List String
  | .stmt (.block body) => body.filterMap declares
  | .stmt (.function _ params body) => params.map Token.lexeme ++ body.filterMap declares
  | _ => []

def declaredAt (root : Node) (place : Place) : List String :=
  ((root.part? place).map declared).getD []

/-- A statement without a scope of its own has expressions and statements for parts. -/
theorem nodes_eq {s : Stmt} (hs : (Node.stmt s).opensScope = false) :
    s.nodes = s.exprs.map .expr ++ s.parts.map .stmt := by
  cases s with
  | block body | function name params body => cases hs
  | var name initial | ret keyword initial => exact (List.append_nil _).symm
  | _ => rfl

variable {root : Node} {place L : Place} {i : Nat}

theorem enclosing_eq (h : root.innermost place = some L) :
    root.enclosing place = L :: root.enclosing L := by
  unfold innermost at h
  induction place with
  | nil => simp [enclosing] at h
  | cons i place ih =>
    simp only [enclosing] at h ⊢
    split at h
    · rename_i hopens
      rw [if_pos hopens]
      simp only [List.head?_cons, Option.some.injEq] at h
      rw [h]
    · rename_i hopens
      rw [if_neg hopens]
      exact ih h

/-- A part of a part without a scope of its own has the same scopes around it. -/
theorem enclosing_cons_of_not (h : root.opensAt place = false) :
    root.enclosing (i :: place) = root.enclosing place := by
  rw [enclosing, if_neg (by simp [h])]

theorem innermost_cons_of_opens (h : root.opensAt place = true) :
    root.innermost (i :: place) = some place := by
  rw [innermost, enclosing, if_pos h]
  rfl

theorem innermost_cons_of_not (h : root.opensAt place = false) :
    root.innermost (i :: place) = root.innermost place := by
  rw [innermost, enclosing_cons_of_not h]
  rfl

theorem opensAt_eq {node : Node} (h : root.part? place = some node) :
    root.opensAt place = node.opensScope := by
  simp [opensAt, h]

theorem part?_cons {node : Node} (h : root.part? place = some node) :
    root.part? (i :: place) = node.parts[i]? := by
  simp [Node.part?, h]

end Node

end Treewalk
