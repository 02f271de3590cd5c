import Treewalk.Machine.Operator

/-!
# Running programs

`evaluate` and `execute` walk the tree of an expression or a statement. A
program need not end, so both take fuel: a computation without fuel stops with
`Stop.outOfFuel`, any other outcome does not depend on how much was left.

The effects of an expression come in the order of its text: callee before
arguments, arguments from left to right, and only then the checks of the call.
-/
namespace Treewalk

variable (cfg : Setting)

mutual

/-- Mirrors `evaluate_expression`. -/
def evaluate : Nat → Expr → Eval Value
  | 0, _ => Eval.outOfFuel
  | fuel + 1, e =>
    match e with
    | .literal l => pure (.ofLiteral l)
    | .grouping inner => evaluate fuel inner
    | .unary op right => do
      let r ← evaluate fuel right
      Eval.ofExcept (Value.unary op r)
    | .binary left op right => do
      let l ← evaluate fuel left
      let r ← evaluate fuel right
      Eval.ofExcept (Value.binary op l r)
    | .logical left op right => do
      let l ← evaluate fuel left
      if l.shortCircuits op then pure l else evaluate fuel right
    | .ternary _ condition whenTrue whenFalse => do
      let c ← evaluate fuel condition
      match cfg.ternary with
      | .eager =>
        let t ← evaluate fuel whenTrue
        let f ← evaluate fuel whenFalse
        pure (if c.truthy then t else f)
      | .selected => if c.truthy then evaluate fuel whenTrue else evaluate fuel whenFalse
    | .name t => Eval.get t
    | .assign t value => do
      let v ← evaluate fuel value
      Eval.assign t v
      pure v
    | .call callee paren arguments => do
      let f ← evaluate fuel callee
      let args ← evaluateAll fuel arguments
      match f with
      | .callable _ c => call fuel c paren args
      | _ => Eval.fault paren .notCallable

/-- Evaluate expressions from left to right. -/
def evaluateAll : Nat → List Expr → Eval (List Value)
  | 0, _ => Eval.outOfFuel
  | _ + 1, [] => pure []
  | fuel + 1, e :: es => do
    let v ← evaluate fuel e
    let vs ← evaluateAll fuel es
    pure (v :: vs)

/-- Call a callable with arguments. `paren` is blamed if that is not possible. -/
def call : Nat → Callable → Token → List Value → Eval Value
  | 0, _, _, _ => Eval.outOfFuel
  | fuel + 1, c, paren, args =>
    if args.length ≠ c.arity then Eval.fault paren (.badArity c.arity args.length)
    else Eval.activate cfg.callLimit paren do
      match c with
      | .clock => Eval.readClock cfg
      | .function d closure =>
        let id ← Eval.enclose closure ((d.params.map Token.lexeme).zip args)
        match ← Eval.inScope id (executeAll fuel d.body) with
        | .returned v => pure v
        | .normal => pure .nil

/-- Mirrors `execute_statement`. -/
def execute : Nat → Stmt → Eval Flow
  | 0, _ => Eval.outOfFuel
  | fuel + 1, s =>
    match s with
    | .expr e => do
      let _ ← evaluate fuel e
      pure .normal
    | .print e => do
      let v ← evaluate fuel e
      Eval.printLine v.text
      pure .normal
    | .var name none => do
      Eval.define name.lexeme .nil
      pure .normal
    | .var name (some e) => do
      let v ← evaluate fuel e
      Eval.define name.lexeme v
      pure .normal
    | .block body => do
      let outer ← Eval.scope
      let id ← Eval.enclose outer []
      Eval.inScope id (executeAll fuel body)
    | .ifThen condition whenTrue => do
      let c ← evaluate fuel condition
      if c.truthy then execute fuel whenTrue else pure .normal
    | .ifElse condition whenTrue whenFalse => do
      let c ← evaluate fuel condition
      if c.truthy then execute fuel whenTrue else execute fuel whenFalse
    | .whileLoop condition body => do
      let c ← evaluate fuel condition
      if c.truthy then
        match ← execute fuel body with
        | .returned v => pure (.returned v)
        | .normal => execute fuel (.whileLoop condition body)
      else pure .normal
    | .function name params body => do
      let f ← Eval.close ⟨name, params, body⟩
      Eval.define name.lexeme f
      pure .normal
    | .ret _ none => pure (.returned .nil)
    | .ret _ (some e) => do
      let v ← evaluate fuel e
      pure (.returned v)

/-- Execute statements in order, up to one that returns. Mirrors `execute_statements`. -/
def executeAll : Nat → List Stmt → Eval Flow
  | 0, _ => Eval.outOfFuel
  | _ + 1, [] => pure .normal
  | fuel + 1, s :: ss => do
    match ← execute fuel s with
    | .returned v => pure (.returned v)
    | .normal => executeAll fuel ss

end

/-- Execute statements in a new scope inside `outer` that holds the given bindings. -/
def executeIn (fuel : Nat) (outer : ScopeId) (bindings : List (String × Value))
    (body : List Stmt) : Eval Flow := do
  let id ← Eval.enclose outer bindings
  Eval.inScope id (executeAll cfg fuel body)

/-- Run a program. An error ends it, and so does a `return` outside of functions. -/
def interpret (fuel : Nat) : Program → Eval Unit
  | [] => pure ()
  | s :: ss => do
    match ← execute cfg fuel s with
    | .returned _ => pure ()
    | .normal => interpret fuel ss

end Treewalk
