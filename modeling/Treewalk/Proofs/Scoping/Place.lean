import Treewalk.Proofs.Grammar.Regular
import Treewalk.Proofs.Tree.Place

/-!
# Places in sessions of parsed programs

In a parsed program a declaration stands directly in a block, a function body or the program
itself. So its name is among those that the innermost scope around it declares.

Results:

* `Node.getLast_enclosing`: the outermost scope is that of the globals.
* `Node.declares_mem`: a declaration is directly in the innermost scope around it.
-/
namespace Treewalk

namespace Node

variable {root : Node} {place L : Place} {i : Nat}

/-- A part of the source of a session of parsed programs. -/
def Regular : Node → Prop
  | .session ps => ∀ p ∈ ps, Stmt.RegularAll p false
  | .program ss => Stmt.RegularAll ss false
  | .stmt s => ∃ inFunction, s.Regular inFunction
  | .expr _ => True

theorem Regular.parts {node : Node} (h : node.Regular) : ∀ part ∈ node.parts, part.Regular := by
  intro part hpart
  cases node with
  | session ps =>
    obtain ⟨p, hp, rfl⟩ := List.mem_map.mp hpart
    exact h p hp
  | program ss =>
    obtain ⟨s, hs, rfl⟩ := List.mem_map.mp hpart
    exact ⟨false, Stmt.regularAll_iff.mp h s hs⟩
  | stmt s =>
    obtain ⟨b, h⟩ := h
    cases s with
    | expr e | print e =>
      obtain rfl := List.mem_singleton.mp hpart
      trivial
    | var name e | ret keyword e =>
      obtain ⟨x, -, rfl⟩ := List.mem_map.mp hpart
      trivial
    | block body =>
      obtain ⟨s, hs, rfl⟩ := List.mem_map.mp hpart
      exact ⟨b, Stmt.regularAll_iff.mp h s hs⟩
    | function name params body =>
      obtain ⟨s, hs, rfl⟩ := List.mem_map.mp hpart
      exact ⟨true, Stmt.regularAll_iff.mp h s hs⟩
    | ifThen c t | whileLoop c t =>
      simp only [Node.parts, Stmt.nodes, List.mem_cons, List.not_mem_nil, or_false] at hpart
      rcases hpart with rfl | rfl
      · trivial
      · exact ⟨b, h.2⟩
    | ifElse c t e =>
      simp only [Node.parts, Stmt.nodes, List.mem_cons, List.not_mem_nil, or_false] at hpart
      rcases hpart with rfl | rfl | rfl
      · trivial
      · exact ⟨b, h.1.2⟩
      · exact ⟨b, h.2.2⟩
  | expr e =>
    obtain ⟨x, -, rfl⟩ := List.mem_map.mp hpart
    trivial

/-- What passes on to the parts of a node passes on to all that is in it. -/
theorem all_parts (root : Node) {P : Node → Prop}
    (hP : ∀ {node}, P node → ∀ part ∈ node.parts, P part) (h : P root) {place : Place} :
    ∀ {node}, root.part? place = some node → P node := by
  induction place with
  | nil =>
    intro node hnode
    cases hnode
    exact h
  | cons i place ih =>
    intro node hnode
    obtain ⟨parent, hparent, hpart⟩ := Option.bind_eq_some_iff.mp hnode
    exact hP (ih hparent) node (List.mem_of_getElem? hpart)

theorem Regular.part {root : Node} (h : root.Regular) {place : Place} {node : Node}
    (hnode : root.part? place = some node) : node.Regular :=
  root.all_parts Regular.parts h hnode

theorem session_not_mem_parts (node : Node) (ps : List Program) : .session ps ∉ node.parts := by
  cases node with
  | stmt s => cases s <;> simp [Node.parts, Stmt.nodes]
  | _ => simp [Node.parts]

section Sessions

variable {ps : List Program}

theorem place_of_session {qs : List Program}
    (h : (Node.session ps).part? place = some (.session qs)) : place = [] := by
  cases place with
  | nil => rfl
  | cons i place =>
    obtain ⟨parent, -, hpart⟩ := Option.bind_eq_some_iff.mp h
    exact absurd (List.mem_of_getElem? hpart) (parent.session_not_mem_parts qs)

/-- A program stands directly in the session. -/
theorem place_of_program {ss : Program} (h : (Node.session ps).part? place = some (.program ss)) :
    ∃ i, place = [i] := by
  cases place with
  | nil => cases h
  | cons i place =>
    obtain ⟨parent, hparent, hpart⟩ := Option.bind_eq_some_iff.mp h
    have hmem := List.mem_of_getElem? hpart
    cases parent with
    | session qs => exact ⟨i, by rw [place_of_session hparent]⟩
    | program ss => simp [Node.parts] at hmem
    | stmt s => cases s <;> simp [Node.parts, Stmt.nodes] at hmem
    | expr e => simp [Node.parts] at hmem

/-- The outermost scope is that of the globals. -/
theorem enclosing_getLast (place : Place) (h : place ≠ []) :
    ((Node.session ps).enclosing place).getLast? = some [] := by
  induction place with
  | nil => exact absurd rfl h
  | cons i place ih =>
    by_cases hp : place = []
    · subst hp
      rfl
    · simp only [enclosing]
      split
      · rw [List.getLast?_cons, ih hp]
        rfl
      · exact ih hp

theorem getLast_enclosing (place : Place) :
    (place :: (Node.session ps).enclosing place).getLast? = some [] := by
  by_cases h : place = []
  · subst h
    rfl
  · rw [List.getLast?_cons, enclosing_getLast place h]
    rfl

/-- A statement without a scope of its own holds no declaration. -/
theorem not_declaration_of_part {s t : Stmt} {b : Bool} (h : t.Regular b)
    (hopens : (Node.stmt t).opensScope = false) (hs : .stmt s ∈ t.nodes) :
    s.isDeclaration = false := by
  cases t with
  | block body | function f params body => cases hopens
  | expr e | print e | var x e | ret x e => simp [Stmt.nodes] at hs
  | ifThen c t | whileLoop c t =>
    simp only [Stmt.nodes, List.mem_cons, reduceCtorEq, Node.stmt.injEq, List.not_mem_nil, or_false,
      false_or] at hs
    rw [hs]
    exact h.1
  | ifElse c t e =>
    simp only [Stmt.nodes, List.mem_cons, reduceCtorEq, Node.stmt.injEq, List.not_mem_nil, or_false,
      false_or] at hs
    rcases hs with rfl | rfl
    · exact h.1.1
    · exact h.2.1

/-- A declaration in a block or function body is declared directly in it. -/
theorem declared_of_part {s t : Stmt} {name : String} (hopens : (Node.stmt t).opensScope = true)
    (hs : .stmt s ∈ t.nodes) (hname : declares s = some name) :
    name ∈ (Node.stmt t).declared := by
  cases t with
  | block body =>
    simp only [Stmt.nodes, List.mem_map, Node.stmt.injEq, exists_eq_right] at hs
    exact List.mem_filterMap.mpr ⟨s, hs, hname⟩
  | function f params body =>
    simp only [Stmt.nodes, List.mem_map, Node.stmt.injEq, exists_eq_right] at hs
    exact List.mem_append_right _ (List.mem_filterMap.mpr ⟨s, hs, hname⟩)
  | _ => cases hopens

theorem isDeclaration_of_declares {s : Stmt} {name : String} (h : declares s = some name) :
    s.isDeclaration = true := by
  cases s with
  | var x e | function f params body => rfl
  | _ => cases h

/-- A declaration is directly in the innermost scope around it. -/
theorem declares_mem {s : Stmt} {name : String} (hr : (Node.session ps).Regular)
    (h : (Node.session ps).part? place = some (.stmt s)) (hs : declares s = some name)
    (hL : (Node.session ps).innermost place = some L) :
    L = [] ∨ name ∈ (Node.session ps).declaredAt L := by
  cases place with
  | nil => cases h
  | cons i place =>
    obtain ⟨parent, hparent, hpart⟩ := Option.bind_eq_some_iff.mp h
    have hmem := List.mem_of_getElem? hpart
    have hopens := opensAt_eq hparent
    cases parent with
    | session qs => simp [Node.parts] at hmem
    | expr e => simp [Node.parts] at hmem
    | program ss =>
      obtain ⟨j, rfl⟩ := place_of_program hparent
      rw [innermost_cons_of_not hopens] at hL
      cases hL
      exact .inl rfl
    | stmt t =>
      by_cases ht : (Node.stmt t).opensScope = true
      · rw [innermost_cons_of_opens (hopens.trans ht)] at hL
        cases hL
        refine .inr ?_
        simp only [declaredAt, hparent, Option.map_some, Option.getD_some]
        exact declared_of_part ht hmem hs
      · -- The statement around it would not be one of a parsed program.
        exfalso
        obtain ⟨b, hregular⟩ := hr.part hparent
        have hnot := not_declaration_of_part hregular (Bool.eq_false_iff.mpr ht) hmem
        rw [isDeclaration_of_declares hs] at hnot
        cases hnot

end Sessions

end Node

end Treewalk
