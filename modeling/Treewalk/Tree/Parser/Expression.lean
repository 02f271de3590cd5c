import Treewalk.Tree.Parser.State

/-!
# Reading expressions

Binary operators are grouped by `Level`, from the comma, which binds loosest, to
the factors. A level is a chain of operands of the next tighter level and groups
to the left; assignment, the else branch of a conditional and prefix operators
group to the right. The other readers mirror the productions they are named after.

Every function takes fuel for its recursion; `Parse.fuel` says how much is
enough for a given number of tokens.
-/
namespace Treewalk

/-- Levels of binary operators, loosest first. -/
inductive Level where
  | series
  | disjunction
  | conjunction
  | equality
  | comparison
  | term
  | factor
  deriving DecidableEq, Repr

namespace Level

/-- Whether an operator belongs to the level. -/
def has : Level → Kind → Bool
  | series, k => k = .comma
  | disjunction, k => k = .orKw
  | conjunction, k => k = .andKw
  | equality, k => k = .bangEqual || k = .equalEqual
  | comparison, k => k = .greater || k = .greaterEqual || k = .less || k = .lessEqual
  | term, k => k = .minus || k = .plus
  | factor, k => k = .slash || k = .star

/-- The expression of an operator of the level. -/
def join : Level → Expr → Token → Expr → Expr
  | disjunction, l, op, r | conjunction, l, op, r => .logical l op r
  | _, l, op, r => .binary l op r

end Level

/-- How far an assignment reaches: an argument of a call ends at a comma. -/
inductive Extent where
  | full
  | argument
  deriving DecidableEq, Repr

namespace Parse

/-- Prefix operators. -/
def isPrefixOperator (k : Kind) : Bool := k = .bang || k = .minus

/-- A one-token expression. -/
def atom? (t : Token) : Option Expr :=
  match t.kind with
  | .falseKw => some (.literal (.bool false))
  | .trueKw => some (.literal (.bool true))
  | .nilKw => some (.literal .nil)
  | .number | .string => some (.literal (t.literal.getD .nil))
  | .identifier => some (.name t)
  | _ => none

variable {σ : Type} [ReadState σ]

mutual

/-- An assignment, or an expression that is none. Mirrors `assignment` and `argument`, which
share `assignment_tail`. -/
def assignment : Nat → Extent → Reader σ Expr
  | 0, _ => outOfFuel
  | fuel + 1, extent => do
    let target ← match extent with
      | .full => chain fuel .series
      | .argument => conditional fuel
    if ← check .equal then
      let blame ← blame .assignmentTarget
      skip
      let value ← assignment fuel extent
      match target with
      | .name t => return .assign t value
      | target =>
        record blame
        return target
    else return target

/-- A chain of operators of one level. Mirrors `binary`, and `logical` for `and` and `or`. -/
def chain : Nat → Level → Reader σ Expr
  | 0, _ => outOfFuel
  | fuel + 1, level => do
    let left ← operand fuel level
    chainTail fuel level left

/-- The operators of a chain after its first operand. -/
def chainTail : Nat → Level → Expr → Reader σ Expr
  | 0, _, _ => outOfFuel
  | fuel + 1, level, left => do
    match ← accept? level.has with
    | none => return left
    | some operator =>
      let right ← operand fuel level
      chainTail fuel level (level.join left operator right)

/-- An operand of a chain. Mirrors the calls that `series`, `or`, `and`, `equality`,
`comparison`, `term` and `factor` make. -/
def operand : Nat → Level → Reader σ Expr
  | 0, _ => outOfFuel
  | fuel + 1, .series => conditional fuel
  | fuel + 1, .disjunction => chain fuel .conjunction
  | fuel + 1, .conjunction => chain fuel .equality
  | fuel + 1, .equality => chain fuel .comparison
  | fuel + 1, .comparison => chain fuel .term
  | fuel + 1, .term => chain fuel .factor
  | fuel + 1, .factor => unary fuel

/-- A conditional expression, or an expression that is none. -/
def conditional : Nat → Reader σ Expr
  | 0 => outOfFuel
  | fuel + 1 => do
    let condition ← chain fuel .disjunction
    match ← accept? (· = .question) with
    | none => return condition
    | some operator =>
      let whenTrue ← assignment fuel .full
      let _ ← expect .colonAfterBranch
      let whenFalse ← conditional fuel
      return .ternary operator condition whenTrue whenFalse

/-- An operand with its prefix operators. -/
def unary : Nat → Reader σ Expr
  | 0 => outOfFuel
  | fuel + 1 => do
    match ← accept? isPrefixOperator with
    | some operator =>
      let right ← unary fuel
      return .unary operator right
    | none =>
      let callee ← primary fuel
      callTail fuel callee

/-- The argument lists after a callee. Mirrors `call` and `finish_call`. -/
def callTail : Nat → Expr → Reader σ Expr
  | 0, _ => outOfFuel
  | fuel + 1, callee => do
    match ← accept? (· = .leftParen) with
    | none => return callee
    | some _ =>
      let args ← if ← check .rightParen then pure [] else arguments fuel 0
      let paren ← expect .parenAfterArguments
      callTail fuel (.call callee paren args)

/-- One or more arguments, after `count` others. -/
def arguments : Nat → Nat → Reader σ (List Expr)
  | 0, _ => outOfFuel
  | fuel + 1, count => do
    reportIf (argumentLimit ≤ count) .tooManyArguments
    let first ← assignment fuel .argument
    match ← accept? (· = .comma) with
    | none => return [first]
    | some _ =>
      let others ← arguments fuel (count + 1)
      return first :: others

/-- A literal, a name or an expression in parentheses. -/
def primary : Nat → Reader σ Expr
  | 0 => outOfFuel
  | fuel + 1 => do
    match ← peek? with
    | none => fail .noExpression
    | some t =>
      if t.kind = .leftParen then
        skip
        let inner ← assignment fuel .full
        let _ ← expect .parenAfterExpression
        return .grouping inner
      else
        match atom? t with
        | none => fail .noExpression
        | some e =>
          skip
          return e

end

/-- A full expression. -/
def expression (fuel : Nat) : Reader σ Expr := assignment fuel .full

end Parse

end Treewalk
