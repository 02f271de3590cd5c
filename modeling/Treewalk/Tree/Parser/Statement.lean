import Treewalk.Tree.Parser.Expression

/-!
# Reading statements

Declarations stand at the top level, in blocks and in function bodies; the
parts of `if`, `while` and `for` are statements and declare nothing. A malformed
declaration is skipped, so one reading finds every syntax error it can.

Every reader of a construct mirrors the function of its name: `ifStatement` is `if_statement`.
-/
namespace Treewalk

namespace Parse

variable {σ : Type} [ReadState σ]

/-- One or more parameter names, after `count` others. Part of `function_declaration`. -/
def parameters : Nat → Nat → Reader σ (List Token)
  | 0, _ => outOfFuel
  | fuel + 1, count => do
    reportIf (argumentLimit ≤ count) .tooManyParameters
    let first ← expect .parameterName
    match ← accept? (· = .comma) with
    | none => return [first]
    | some _ =>
      let others ← parameters fuel (count + 1)
      return first :: others

/-- An expression, unless a token of the given kind comes now. -/
def expressionUnless (fuel : Nat) (k : Kind) : Reader σ (Option Expr) := do
  if ← check k then return none
  else
    let e ← expression fuel
    return some e

/-- What follows `var`. -/
def varDeclaration (fuel : Nat) : Reader σ Stmt := do
  let name ← expect .variableName
  let initial ← match ← accept? (· = .equal) with
    | none => pure none
    | some _ => do
      let e ← expression fuel
      pure (some e)
  let _ ← expect .semicolonAfterVariable
  return .var name initial

def expressionStatement (fuel : Nat) : Reader σ Stmt := do
  let e ← expression fuel
  let _ ← expect .semicolonAfterExpression
  return .expr e

/-- What follows `print`. -/
def printStatement (fuel : Nat) : Reader σ Stmt := do
  let e ← expression fuel
  let _ ← expect .semicolonAfterValue
  return .print e

/-- A `return` with its value. -/
def returnStatement (fuel : Nat) (keyword : Token) : Reader σ Stmt := do
  reportIf (!(← inFunction)) .topLevelReturn
  skip
  let value ← expressionUnless fuel .semicolon
  let _ ← expect .semicolonAfterReturn
  return .ret keyword value

/-- The first clause of a `for` loop with its semicolon. Part of `for_statement`. -/
def firstClause (fuel : Nat) : Reader σ (Option Stmt) := do
  match ← accept? (fun k => k = .semicolon || k = .varKw) with
  | none =>
    let s ← expressionStatement fuel
    return some s
  | some t =>
    if t.kind = .semicolon then return none
    else
      let s ← varDeclaration fuel
      return some s

mutual

/-- A declaration or a statement; nothing if it is malformed. -/
def declaration : Nat → Reader σ (Option Stmt)
  | 0 => outOfFuel
  | fuel + 1 => recovering do
    match ← accept? (fun k => k = .funKw || k = .varKw) with
    | none => statement fuel
    | some t => if t.kind = .funKw then functionDeclaration fuel else varDeclaration fuel

/-- Declarations up to the end of the program, or of the block they are in: the loops of
`parse_program` and `block`. -/
def declarations : Nat → Bool → Reader σ (List Stmt)
  | 0, _ => outOfFuel
  | fuel + 1, inBlock => do
    match ← peek? with
    | none => return []
    | some t =>
      if inBlock && t.kind = .rightBrace then return []
      else
        let first ← declaration fuel
        let others ← declarations fuel inBlock
        return first.toList ++ others

/-- What follows the opening brace of a block. -/
def block : Nat → Reader σ (List Stmt)
  | 0 => outOfFuel
  | fuel + 1 => do
    let body ← declarations fuel true
    let _ ← expect .braceAfterBlock
    return body

/-- What follows `fun`. -/
def functionDeclaration : Nat → Reader σ Stmt
  | 0 => outOfFuel
  | fuel + 1 => do
    let name ← expect .functionName
    let _ ← expect .parenAfterFunctionName
    let params ← if ← check .rightParen then pure [] else parameters fuel 0
    let _ ← expect .parenAfterParameters
    let _ ← expect .braceBeforeBody
    let body ← enterFunction (block fuel)
    return .function name params body

/-- Mirrors `dispatch_statement`. -/
def statement : Nat → Reader σ Stmt
  | 0 => outOfFuel
  | fuel + 1 => do
    match ← peek? with
    | none => expressionStatement fuel
    | some t =>
      match t.kind with
      | .forKw => do skip; forStatement fuel
      | .ifKw => do skip; ifStatement fuel
      | .printKw => do skip; printStatement fuel
      | .returnKw => returnStatement fuel t
      | .whileKw => do skip; whileStatement fuel
      | .leftBrace => do
        skip
        let body ← block fuel
        return .block body
      | _ => expressionStatement fuel

/-- What follows `for`. -/
def forStatement : Nat → Reader σ Stmt
  | 0 => outOfFuel
  | fuel + 1 => do
    let _ ← expect .parenAfterFor
    let first ← firstClause fuel
    let condition ← expressionUnless fuel .semicolon
    let _ ← expect .semicolonAfterLoopCondition
    let last ← expressionUnless fuel .rightParen
    let _ ← expect .parenAfterClauses
    let body ← statement fuel
    return .forLoop first condition last body

/-- What follows `if`. An `else` belongs to the nearest `if` before it. -/
def ifStatement : Nat → Reader σ Stmt
  | 0 => outOfFuel
  | fuel + 1 => do
    let _ ← expect .parenAfterIf
    let condition ← expression fuel
    let _ ← expect .parenAfterIfCondition
    let whenTrue ← statement fuel
    match ← accept? (· = .elseKw) with
    | none => return .ifThen condition whenTrue
    | some _ =>
      let whenFalse ← statement fuel
      return .ifElse condition whenTrue whenFalse

/-- What follows `while`. -/
def whileStatement : Nat → Reader σ Stmt
  | 0 => outOfFuel
  | fuel + 1 => do
    let _ ← expect .parenAfterWhile
    let condition ← expression fuel
    let _ ← expect .parenAfterCondition
    let body ← statement fuel
    return .whileLoop condition body

end

end Parse

end Treewalk
