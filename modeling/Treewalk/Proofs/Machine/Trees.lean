import Treewalk.Proofs.Machine.Operator
import Treewalk.Proofs.Machine.Upheld

/-!
# Standards for trees and for values

Many standards ask for one property of expressions, statements and function bodies wherever
they stand, and for another one of values on their own. Such a standard is kept if the
expressions of the statements have the property, and if operators and literals make no value
without it.

Results:

* `Value.closed_true`: there need not be a property of values.
* `Standard.kept_ofTrees`: runs keep such a standard.
-/
namespace Treewalk

/-- The body of the function, if the value is one that was declared. -/
def Value.body : Value → List Stmt
  | .callable _ (.function d _) => d.body
  | _ => []

theorem Value.Plain.body {v : Value} (h : v.Plain) : v.body = [] := by
  cases v with
  | callable id c => exact h.elim
  | _ => rfl

/-- The property `V` of values is passed on by all that makes values in a run of trees that have
the property `E`. -/
structure Value.Closed (V : Value → Prop) (E : Expr → Prop) : Prop where
  nil : V .nil
  time : ∀ x, V (.number x)
  callable : ∀ id c, V (.callable id c)
  literal : ∀ {l}, E (.literal l) → V (.ofLiteral l)
  unary : ∀ {op v u}, V v → Value.unary op v = .ok u → V u
  binary : ∀ {op l r u}, V l → V r → Value.binary op l r = .ok u → V u

theorem Value.closed_true (E : Expr → Prop) : Value.Closed (fun _ => True) E :=
  ⟨trivial, fun _ => trivial, fun _ _ => trivial, fun _ => trivial, fun _ _ => trivial,
    fun _ _ _ => trivial⟩

namespace Standard

/-- Expressions have the property `E`, statements and function bodies the property `P`, and
values the property `V`. -/
def ofTrees (E : Expr → Prop) (P : Stmt → Prop) (V : Value → Prop) : Standard where
  value v := V v ∧ ∀ s ∈ v.body, s.Everywhere P
  expr e := e.Everywhere E
  stmt s := s.Everywhere P
  stop _ := True

variable {E : Expr → Prop} {P : Stmt → Prop} {V : Value → Prop}

theorem ofTrees_plain {v : Value} (hplain : v.Plain) (hv : V v) : (ofTrees E P V).value v :=
  ⟨hv, by simp [hplain.body]⟩

/-- Runs keep the standard. -/
theorem kept_ofTrees (hP : ∀ s, P s → ∀ e ∈ s.exprs, e.Everywhere E) (hV : Value.Closed V E) :
    (ofTrees E P V).Kept where
  outOfFuel := trivial
  nil := ofTrees_plain trivial hV.nil
  time x := ofTrees_plain trivial (hV.time x)
  exprParts h := h.parts
  literal {l} h := ofTrees_plain (by cases l <;> trivial) (hV.literal h)
  unary {op _ v} _ hv := by
    cases hu : Value.unary op v with
    | ok u => exact ofTrees_plain (unary_plain hu) (hV.unary hv.1 hu)
    | error e => trivial
  binary {_ op _ l r} _ hl hr := by
    cases hu : Value.binary op l r with
    | ok u =>
      obtain rfl | hplain := binary_plain hu
      · exact hr
      · exact ofTrees_plain hplain (hV.binary hl.1 hr.1 hu)
    | error e => trivial
  name _ := trivial
  assign _ := trivial
  call _ := ⟨trivial, fun _ _ _ => trivial, trivial⟩
  stmtExprs h := hP _ h.self
  stmtParts h := h.parts
  function h _ _ := ⟨hV.callable _ _, Stmt.everywhereAll_iff.mp h.2⟩
  body h := h.2

end Standard

end Treewalk
