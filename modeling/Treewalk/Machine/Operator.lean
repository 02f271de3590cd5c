import Treewalk.Machine.Basic

/-!
# Operators on values

Operators look at the kind of their token. An operator that unary or binary
expressions do not have has no result; `Stop.malformed` tells that apart from
the errors of a running program.
-/
namespace Treewalk

namespace Value

/-- `!` and `-`. Mirrors `eval_unary`. -/
def unary (op : Token) (v : Value) : Except Stop Value :=
  match op.kind with
  | .bang => .ok (.bool (!v.truthy))
  | .minus =>
    match v with
    | .number x => .ok (.number (-x))
    | _ => .error (.error ⟨op, .operandMustBeNumber⟩)
  | _ => .error (.malformed op)

/-- Numbers are added; two strings, or a string and a number, are joined. Mirrors
`eval_addition`. -/
def add (op : Token) : Value → Value → Except Stop Value
  | .number a, .number b => .ok (.number (a + b))
  | .string a, .string b => .ok (.string (a ++ b))
  | .string a, .number b => .ok (.string (a ++ (Value.number b).text))
  | .number a, .string b => .ok (.string ((Value.number a).text ++ b))
  | _, _ => .error (.error ⟨op, .invalidAdditionOperands⟩)

/-- The operators that take numbers only. -/
def arithmetic (op : Token) (a b : Float) : Except Stop Value :=
  match op.kind with
  | .minus => .ok (.number (a - b))
  | .star => .ok (.number (a * b))
  | .slash => .ok (.number (a / b))
  | .greater => .ok (.bool (a > b))
  | .greaterEqual => .ok (.bool (a ≥ b))
  | .less => .ok (.bool (a < b))
  | .lessEqual => .ok (.bool (a ≤ b))
  | _ => .error (.malformed op)

/-- Mirrors `eval_binary`. -/
def binary (op : Token) (l r : Value) : Except Stop Value :=
  match op.kind with
  | .comma => .ok r
  | .equalEqual => .ok (.bool (l == r))
  | .bangEqual => .ok (.bool (!(l == r)))
  | .plus => add op l r
  | _ =>
    match l, r with
    | .number a, .number b => arithmetic op a b
    | _, _ => .error (.error ⟨op, .operandsMustBeNumbers⟩)

/-- Whether the left side of a logical operator is its result. -/
def shortCircuits (op : Token) (l : Value) : Bool :=
  match op.kind with
  | .orKw => l.truthy
  | _ => !l.truthy

end Value

end Treewalk
