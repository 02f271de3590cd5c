import Treewalk.Source.Scan
import Treewalk.Tree.Basic

/-!
# Syntax errors

A `Problem` is what is wrong with a token sequence. A fatal problem means that
no statement can continue with the token at hand; the others are violations of
static rules, after which reading goes on.
-/
namespace Treewalk

/-- A token that has to stand at some place of a construct. -/
inductive Missing where
  | functionName
  | parenAfterFunctionName
  | parameterName
  | parenAfterParameters
  | braceBeforeBody
  | variableName
  | semicolonAfterVariable
  | parenAfterFor
  | semicolonAfterLoopCondition
  | parenAfterClauses
  | parenAfterIf
  | parenAfterIfCondition
  | semicolonAfterValue
  | semicolonAfterReturn
  | parenAfterWhile
  | parenAfterCondition
  | braceAfterBlock
  | semicolonAfterExpression
  | colonAfterBranch
  | parenAfterArguments
  | parenAfterExpression
  deriving DecidableEq, Repr

namespace Missing

/-- The kind of the token that is missing. -/
def kind : Missing → Kind
  | functionName | parameterName | variableName => .identifier
  | parenAfterFunctionName | parenAfterFor | parenAfterIf | parenAfterWhile => .leftParen
  | parenAfterParameters | parenAfterClauses | parenAfterIfCondition | parenAfterCondition
  | parenAfterArguments | parenAfterExpression => .rightParen
  | braceBeforeBody => .leftBrace
  | braceAfterBlock => .rightBrace
  | semicolonAfterVariable | semicolonAfterLoopCondition | semicolonAfterValue
  | semicolonAfterReturn | semicolonAfterExpression => .semicolon
  | colonAfterBranch => .colon

def message : Missing → String
  | functionName => "Expect function name."
  | parenAfterFunctionName => "Expect '(' after function name."
  | parameterName => "Expect parameter name."
  | parenAfterParameters => "Expect ')' after parameters."
  | braceBeforeBody => "Expect '\x7b' before function body."
  | variableName => "Expect variable name."
  | semicolonAfterVariable => "Expect ';' after variable declaration."
  | parenAfterFor => "Expect '(' after 'for'."
  | semicolonAfterLoopCondition => "Expect ';' after loop condition."
  | parenAfterClauses => "Expect ')' after for clauses."
  | parenAfterIf => "Expect '(' after 'if'."
  | parenAfterIfCondition => "Expect ')' after if condition."
  | semicolonAfterValue => "Expect ';' after value."
  | semicolonAfterReturn => "Expect ';' after return value."
  | parenAfterWhile => "Expect '(' after 'while'."
  | parenAfterCondition => "Expect ')' after condition."
  | braceAfterBlock => "Expect '\x7d' after block."
  | semicolonAfterExpression => "Expect ';' after expression."
  | colonAfterBranch => "Expect ':' after then branch of conditional expression."
  | parenAfterArguments => "Expect ')' after arguments."
  | parenAfterExpression => "Expect ')' after expression."

end Missing

inductive Problem where
  | missing (what : Missing)
  | noExpression
  /-- Something other than a name stands left of an equals sign. -/
  | assignmentTarget
  | tooManyArguments
  | tooManyParameters
  | topLevelReturn
  deriving DecidableEq, Repr

/-- A call has at most this many arguments, a function this many parameters. -/
def argumentLimit : Nat := 255

namespace Problem

/-- Whether the statement at hand is given up. -/
def fatal : Problem → Bool
  | missing _ | noExpression => true
  | assignmentTarget | tooManyArguments | tooManyParameters | topLevelReturn => false

def message : Problem → String
  | missing what => what.message
  | noExpression => "Expect expression."
  | assignmentTarget => "Invalid assignment target."
  | tooManyArguments => "Can't have more than 255 arguments."
  | tooManyParameters => "Can't have more than 255 parameters."
  | topLevelReturn => "Can't return from top-level code."

end Problem

/-- A problem with the token it blames and that token's place in the sequence. -/
structure ParseError where
  problem : Problem
  index : Nat
  token : Token
  deriving BEq, Repr

namespace ParseError

def line (e : ParseError) : Nat := e.token.line

/-- Where the error is, in words. -/
def location (e : ParseError) : String :=
  if e.token.kind = .eof then " at end" else " at '" ++ e.token.lexeme ++ "'"

def message (e : ParseError) : String := e.problem.message

def text (e : ParseError) : String := syntaxErrorText e.line e.location e.message

end ParseError

end Treewalk
