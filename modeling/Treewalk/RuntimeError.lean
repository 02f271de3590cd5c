import Treewalk.Token.Basic

/-!
# Run-time errors

What can go wrong while a program runs, with the token at which it went wrong.
-/
namespace Treewalk

inductive Fault where
  | operandMustBeNumber
  | operandsMustBeNumbers
  | invalidAdditionOperands
  | undefinedVariable (name : String)
  | notCallable
  | badArity (expected got : Nat)
  | stackOverflow
  deriving DecidableEq, Repr

def Fault.message : Fault → String
  | operandMustBeNumber => "Operand must be a number."
  | operandsMustBeNumbers => "Operands must be numbers."
  | invalidAdditionOperands => "Operands must be two numbers or two strings."
  | undefinedVariable name => "Undefined variable '" ++ name ++ "'."
  | notCallable => "Can only call functions and classes."
  | badArity expected got =>
    "Expected " ++ toString expected ++ " arguments but got " ++ toString got ++ "."
  | stackOverflow => "Stack overflow."

structure RuntimeError where
  token : Token
  fault : Fault
  deriving BEq, Repr

namespace RuntimeError

def line (e : RuntimeError) : Nat := e.token.line

def message (e : RuntimeError) : String := e.fault.message

/-- The error for a name that no scope binds. -/
def undefined (name : Token) : RuntimeError := ⟨name, .undefinedVariable name.lexeme⟩

end RuntimeError

end Treewalk
