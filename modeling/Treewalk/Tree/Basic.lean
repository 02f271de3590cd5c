import Treewalk.Token.Basic

/-!
# Expressions and statements

Trees keep the tokens that later messages point at. A `for` loop has no
statement of its own: `Stmt.forLoop` builds it from a `while` loop and blocks.
-/
namespace Treewalk

inductive Expr where
  | literal (value : Literal)
  | grouping (inner : Expr)
  | unary (operator : Token) (right : Expr)
  | binary (left : Expr) (operator : Token) (right : Expr)
  /-- `and` and `or`, which may leave their right side unevaluated. -/
  | logical (left : Expr) (operator : Token) (right : Expr)
  /-- The operator is the question mark. -/
  | ternary (operator : Token) (condition whenTrue whenFalse : Expr)
  | name (token : Token)
  | assign (target : Token) (value : Expr)
  /-- `paren` closes the argument list. -/
  | call (callee : Expr) (paren : Token) (arguments : List Expr)
  deriving Repr

inductive Stmt where
  | expr (value : Expr)
  | print (value : Expr)
  | var (name : Token) (initial : Option Expr)
  | block (body : List Stmt)
  | ifThen (condition : Expr) (whenTrue : Stmt)
  | ifElse (condition : Expr) (whenTrue whenFalse : Stmt)
  | whileLoop (condition : Expr) (body : Stmt)
  | function (name : Token) (params : List Token) (body : List Stmt)
  | ret (keyword : Token) (value : Option Expr)
  deriving Repr

abbrev Program := List Stmt

/-- A loop with an optional first step, condition and last step. Without a
condition it runs until something leaves it; only a first step opens a scope. Mirrors
the end of `for_statement`. -/
def Stmt.forLoop (first : Option Stmt) (condition : Option Expr) (last : Option Expr)
    (body : Stmt) : Stmt :=
  let round := match last with
    | none => body
    | some e => .block [body, .expr e]
  let loop := .whileLoop (condition.getD (.literal (.bool true))) round
  match first with
  | none => loop
  | some s => .block [s, loop]

/-! ## Equality of expressions -/

mutual

/-- Equality of trees, tokens included. Number literals compare as numbers, so a
tree that holds a NaN differs from itself. -/
def Expr.beq : Expr → Expr → Bool
  | .literal a, .literal b => a == b
  | .grouping a, .grouping b => a.beq b
  | .unary o a, .unary p b => o == p && a.beq b
  | .binary a o c, .binary b p d => o == p && a.beq b && c.beq d
  | .logical a o c, .logical b p d => o == p && a.beq b && c.beq d
  | .ternary o a c e, .ternary p b d f => o == p && a.beq b && c.beq d && e.beq f
  | .name s, .name t => s == t
  | .assign s a, .assign t b => s == t && a.beq b
  | .call a p as, .call b q bs => p == q && a.beq b && Expr.beqAll as bs
  | _, _ => false

def Expr.beqAll : List Expr → List Expr → Bool
  | [], [] => true
  | a :: as, b :: bs => a.beq b && Expr.beqAll as bs
  | _, _ => false

end

instance : BEq Expr := ⟨Expr.beq⟩

end Treewalk
