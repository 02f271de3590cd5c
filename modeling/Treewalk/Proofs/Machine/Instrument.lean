import Treewalk.Session
import Treewalk.Proofs.Tree.Place

/-!
# Instrumented runs

To say what happens on the way of a run, an instrument is put into it: something that takes
notes where expressions, statements and calls begin and end, that knows at which place of the
source code is run, or that holds more than the bare values. An `Instrument` gives all steps of
a run, and the run with it takes these steps in the order in which `evaluate` and `execute` take
those of the machine.

What holds of runs with an instrument is shown of its steps (`Rules`) and then holds of all
runs. It may compare them to the runs of the machine itself, in another setting if need be.

Results:

* `Rules.evaluate`, `Rules.execute` and so on: from the steps to the runs.
* `Rules.interpret`, `Rules.echo`: to programs and lines.
-/
namespace Treewalk

/-- How control leaves a statement, where `H` stands for the values. -/
inductive Course (H : Type) where
  | normal
  /-- A `return` on its way to the call it ends. -/
  | returned (h : H)

namespace Course

variable {H : Type}

/-- What a `return` takes along. -/
def values : Course H → List H
  | .normal => []
  | .returned h => [h]

def flow (value : H → Value) : Course H → Flow
  | .normal => .normal
  | .returned h => .returned (value h)

/-- What a call has as its value when its body is left, with `nil` where no `return` left it. -/
def result (nil : H) : Course H → H
  | .normal => nil
  | .returned h => h

end Course

/-- How values are held, where `H` stands for them. -/
structure Holding (H : Type) where
  value : H → Value
  /-- What is held for a value that stands in the text or comes from an operator. -/
  hold : Value → H
  /-- What is held for the value of a binary operator with this right operand. -/
  join (op : Token) (right : H) (v : Value) : H
  value_hold : ∀ v, value (hold v) = v
  value_join : ∀ op right v, value (join op right v) = v

/-- The values as they are. -/
def Holding.bare : Holding Value where
  value := id
  hold := id
  join _ _ := id
  value_hold _ := rfl
  value_join _ _ _ := rfl

/-- The steps of a run with computations in `M`. -/
structure Instrument (M : Type → Type) (H : Type) extends Holding H where
  /-- A step of the machine, and nothing else. -/
  plain {α : Type} : Eval α → M α
  get : Token → M H
  assign : Token → H → M Unit
  define : String → H → M Unit
  /-- Make a function of the declaration at a place. -/
  close : Place → Declaration → M H
  /-- The place of the declaration of a callable. -/
  origin : Nat → M Place
  /-- Open a scope for the block or the function at a place. -/
  enclose : Place → ScopeId → List (String × H) → M ScopeId
  inScope : ScopeId → M (Course H) → M (Course H)
  activate : Option Nat → Callable → Token → List H → M H → M H
  /-- Around the evaluation of the expression at a place. -/
  atExpr : Place → Expr → M H → M H
  /-- Around the execution of the statement at a place. -/
  atStmt : Place → Stmt → M (Course H) → M (Course H)
  /-- Around a call of the first one with the others. -/
  atCall : H → List H → M H → M H

/-- The branches of a conditional expression under a rule. -/
def TernaryRule.branches {M : Type → Type} [Monad M] {α : Type} (rule : TernaryRule)
    (condition : Bool) (whenTrue whenFalse : M α) : M α :=
  match rule with
  | .eager => do
    let t ← whenTrue
    let f ← whenFalse
    pure (if condition then t else f)
  | .selected => if condition then whenTrue else whenFalse

namespace Instrument

variable {M : Type → Type} [Monad M] {H : Type} (I : Instrument M H)

/-! ## Runs -/

/-- Hold the value of a step of the machine. -/
def held (x : Eval Value) : M H := do
  let v ← I.plain x
  pure (I.hold v)

/-- Run a body in a new scope. -/
def enclosed (place : Place) (outer : ScopeId) (bindings : List (String × H))
    (body : M (Course H)) : M (Course H) := do
  let id ← I.enclose place outer bindings
  I.inScope id body

/-- Run the body of the callable with the given number. -/
def applied (id : Nat) (d : Declaration) (closure : ScopeId) (args : List H)
    (body : Place → M (Course H)) : M (Course H) := do
  let place ← I.origin id
  I.enclosed place closure ((d.params.map Token.lexeme).zip args) (body place)

variable (cfg : Setting)

mutual

/-- Evaluate the expression at a place. -/
def evaluate : Nat → Place → Expr → M H
  | 0, _, _ => I.plain Eval.outOfFuel
  | fuel + 1, place, e =>
    I.atExpr place e <|
    match e with
    | .literal l => pure (I.hold (.ofLiteral l))
    | .grouping inner => evaluate fuel (0 :: place) inner
    | .unary op right => do
      let r ← evaluate fuel (0 :: place) right
      I.held (Eval.ofExcept (Value.unary op (I.value r)))
    | .binary left op right => do
      let l ← evaluate fuel (0 :: place) left
      let r ← evaluate fuel (1 :: place) right
      let v ← I.plain (Eval.ofExcept (Value.binary op (I.value l) (I.value r)))
      pure (I.join op r v)
    | .logical left op right => do
      let l ← evaluate fuel (0 :: place) left
      if (I.value l).shortCircuits op then pure l else evaluate fuel (1 :: place) right
    | .ternary _ condition whenTrue whenFalse => do
      let c ← evaluate fuel (0 :: place) condition
      cfg.ternary.branches (I.value c).truthy (evaluate fuel (1 :: place) whenTrue)
        (evaluate fuel (2 :: place) whenFalse)
    | .name t => I.get t
    | .assign t value => do
      let h ← evaluate fuel (0 :: place) value
      I.assign t h
      pure h
    | .call callee paren arguments => do
      let f ← evaluate fuel (0 :: place) callee
      let args ← evaluateAll fuel place 1 arguments
      match I.value f with
      | .callable id c => I.atCall f args (call fuel id c paren args)
      | _ => I.plain (Eval.fault paren .notCallable)

/-- Evaluate expressions that are parts of the one at a place, from number `i` on. -/
def evaluateAll : Nat → Place → Nat → List Expr → M (List H)
  | 0, _, _, _ => I.plain Eval.outOfFuel
  | _ + 1, _, _, [] => pure []
  | fuel + 1, place, i, e :: es => do
    let h ← evaluate fuel (i :: place) e
    let hs ← evaluateAll fuel place (i + 1) es
    pure (h :: hs)

/-- Call the callable with the given number. -/
def call : Nat → Nat → Callable → Token → List H → M H
  | 0, _, _, _, _ => I.plain Eval.outOfFuel
  | fuel + 1, id, c, paren, args =>
    if args.length ≠ c.arity then I.plain (Eval.fault paren (.badArity c.arity args.length))
    else I.activate cfg.callLimit c paren args <|
      match c with
      | .clock => I.held (Eval.readClock cfg)
      | .function d closure => do
        let r ← I.applied id d closure args fun place => executeAll fuel place 0 d.body
        pure (r.result (I.hold .nil))

/-- Execute the statement at a place. -/
def execute : Nat → Place → Stmt → M (Course H)
  | 0, _, _ => I.plain Eval.outOfFuel
  | fuel + 1, place, s =>
    I.atStmt place s <|
    match s with
    | .expr e => do
      let _ ← evaluate fuel (0 :: place) e
      pure .normal
    | .print e => do
      let h ← evaluate fuel (0 :: place) e
      I.plain (Eval.printLine (I.value h).text)
      pure .normal
    | .var name none => do
      I.define name.lexeme (I.hold .nil)
      pure .normal
    | .var name (some e) => do
      let h ← evaluate fuel (0 :: place) e
      I.define name.lexeme h
      pure .normal
    | .block body => do
      let outer ← I.plain Eval.scope
      I.enclosed place outer [] (executeAll fuel place 0 body)
    | .ifThen condition whenTrue => do
      let c ← evaluate fuel (0 :: place) condition
      if (I.value c).truthy then execute fuel (1 :: place) whenTrue else pure .normal
    | .ifElse condition whenTrue whenFalse => do
      let c ← evaluate fuel (0 :: place) condition
      if (I.value c).truthy then execute fuel (1 :: place) whenTrue
      else execute fuel (2 :: place) whenFalse
    | .whileLoop condition body => do
      let c ← evaluate fuel (0 :: place) condition
      if (I.value c).truthy then
        match ← execute fuel (1 :: place) body with
        | .returned h => pure (.returned h)
        | .normal => execute fuel place (.whileLoop condition body)
      else pure .normal
    | .function name params body => do
      let f ← I.close place ⟨name, params, body⟩
      I.define name.lexeme f
      pure .normal
    | .ret _ none => pure (.returned (I.hold .nil))
    | .ret _ (some e) => do
      let h ← evaluate fuel (0 :: place) e
      pure (.returned h)

/-- Execute statements that are parts of what is at a place, from number `i` on. -/
def executeAll : Nat → Place → Nat → List Stmt → M (Course H)
  | 0, _, _, _ => I.plain Eval.outOfFuel
  | _ + 1, _, _, [] => pure .normal
  | fuel + 1, place, i, s :: ss => do
    match ← execute fuel (i :: place) s with
    | .returned h => pure (.returned h)
    | .normal => executeAll fuel place (i + 1) ss

end

/-- Run the rest, from statement `i` on, of the program at a place. -/
def interpret (fuel : Nat) (place : Place) : Nat → Program → M Unit
  | _, [] => pure ()
  | i, s :: ss => do
    match ← I.execute cfg fuel (i :: place) s with
    | .returned _ => pure ()
    | .normal => interpret fuel place (i + 1) ss

/-- Run the line at a place. -/
def echo (fuel : Nat) (place : Place) : Program → M Unit
  | [.expr e] => do
    let h ← I.evaluate cfg fuel (0 :: 0 :: place) e
    I.plain (Eval.printLine (I.value h).code)
  | p => I.interpret cfg fuel place 0 p

/-! ## From the steps to the runs -/

/-- What is held is known, or it is held for `nil`. -/
def Known (vs : List H) (h : H) : Prop := h ∈ vs ∨ h = I.hold .nil

/-- All statements of a body, numbered from `i` on, are parts of what is at the place. -/
def Body {C : Type} (Part : C → Place → Node → Prop) (c : C) (place : Place) (i : Nat)
    (body : List Stmt) : Prop :=
  Numbered (fun n s => Part c (n :: place) (.stmt s)) i body

/-- Nothing is known of where the trees stand. -/
def Anywhere (_ : Unit) (_ : Place) (_ : Node) : Prop := True

theorem anywhere (place : Place) (node : Node) : Anywhere () place node := trivial

theorem body_anywhere (place : Place) (i : Nat) (body : List Stmt) :
    Body Anywhere () place i body := fun _ _ _ => trivial

/-- A relation that holds of results that are known, and of two computations in sequence if it
holds of both. `R c vs f g x y` compares the computation `x` of a run with the instrument to the
computation `y` of a run of the machine, where `g` takes the results of `x` to those of `y`. At the
start, in the context `c`, the values `vs` are held; what is held in a result are the values `f`. -/
structure Sequential {C : Type}
    (R : C → List H → ∀ {α β : Type}, (α → List H) → (α → β) → M α → Eval β → Prop) : Prop where
  bind : ∀ {c vs} {α β γ δ : Type} {f : α → List H} {g : α → β} {f' : γ → List H} {g' : γ → δ}
    {x : M α} {y : Eval β} {k : α → M γ} {l : β → Eval δ}, R c vs f g x y →
    (∀ a, R c (f a ++ vs) f' g' (k a) (l (g a))) → R c vs f' g' (x >>= k) (y >>= l)
  pure : ∀ {c vs} {α β : Type} {f : α → List H} {g : α → β} {a : α},
    (∀ h ∈ f a, I.Known vs h) → R c vs f g (pure a) (pure (g a))

/-- The branches of a conditional expression, whatever the rule for them. -/
theorem Sequential.branches {I : Instrument M H} {C : Type}
    {R : C → List H → ∀ {α β : Type}, (α → List H) → (α → β) → M α → Eval β → Prop}
    (hR : I.Sequential R) (rule : TernaryRule) (condition : Bool) (c : C) (vs : List H)
    {x x' : M H} {y z : Eval Value} (h : ∀ vs, R c vs ([·]) I.value x y)
    (h' : ∀ vs, R c vs ([·]) I.value x' z) :
    R c vs ([·]) I.value (rule.branches condition x x') (rule.branches condition y z) := by
  cases rule with
  | eager =>
    refine hR.bind (h vs) fun a => hR.bind (h' _) fun b => ?_
    rw [← apply_ite I.value]
    refine hR.pure fun u hu => .inl ?_
    split at hu <;> simp_all
  | selected =>
    dsimp only [TernaryRule.branches]
    split
    · exact h vs
    · exact h' vs

/-- The same for a relation that looks at the run with the instrument only. -/
theorem Sequential.branches_alone {I : Instrument M H} {C : Type}
    {P : C → List H → ∀ {α : Type}, (α → List H) → M α → Prop}
    (hP : I.Sequential fun c vs _ _ f _ x _ => P c vs f x) (rule : TernaryRule) (condition : Bool)
    (c : C) (vs : List H) {x x' : M H} (h : ∀ vs, P c vs ([·]) x) (h' : ∀ vs, P c vs ([·]) x') :
    P c vs ([·]) (rule.branches condition x x') :=
  hP.branches rule condition c vs (y := Eval.outOfFuel) (z := Eval.outOfFuel) h h'

/-- A relation that all steps keep, between runs with the instrument in the setting `cfg` and runs
of the machine in the setting `cfg'`. Of the tree at a place it may use that it is a `Part` of the
source in the context. -/
structure Rules {C : Type} (Part : C → Place → Node → Prop)
    (R : C → List H → ∀ {α β : Type}, (α → List H) → (α → β) → M α → Eval β → Prop)
    (cfg cfg' : Setting) : Prop extends I.Sequential R where
  exprPart : ∀ {c place e i e'}, Part c place (.expr e) → e.parts[i]? = some e' →
    Part c (i :: place) (.expr e')
  stmtPart : ∀ {c place s i node}, Part c place (.stmt s) → (Node.stmt s).opensScope = false →
    s.nodes[i]? = some node → Part c (i :: place) node
  outOfFuel : ∀ {c vs} {α β : Type} {f : α → List H} {g : α → β},
    R c vs f g (I.plain Eval.outOfFuel) Eval.outOfFuel
  atExpr : ∀ {c vs place e x y}, Part c place (.expr e) → R c vs ([·]) I.value x y →
    R c vs ([·]) I.value (I.atExpr place e x) y
  atStmt : ∀ {c vs place s x y}, Part c place (.stmt s) →
    R c vs Course.values (Course.flow I.value) x y →
    R c vs Course.values (Course.flow I.value) (I.atStmt place s x) y
  atCall : ∀ {c vs f args x y}, f ∈ vs → (∀ h ∈ args, h ∈ vs) → R c vs ([·]) I.value x y →
    R c vs ([·]) I.value (I.atCall f args x) y
  literal : ∀ {c vs place l}, Part c place (.expr (.literal l)) →
    R c vs ([·]) I.value (Pure.pure (I.hold (.ofLiteral l))) (Pure.pure (.ofLiteral l))
  unary : ∀ {c vs place op e r}, Part c place (.expr (.unary op e)) → r ∈ vs →
    R c vs ([·]) I.value (I.held (Eval.ofExcept (Value.unary op (I.value r))))
      (Eval.ofExcept (Value.unary op (I.value r)))
  binary : ∀ {c vs place e op e' l r}, Part c place (.expr (.binary e op e')) → l ∈ vs → r ∈ vs →
    R c vs ([·]) I.value
      (do
        let v ← I.plain (Eval.ofExcept (Value.binary op (I.value l) (I.value r)))
        Pure.pure (I.join op r v))
      (Eval.ofExcept (Value.binary op (I.value l) (I.value r)))
  ternary : ∀ {c vs place op e t f fuel condition}, Part c place (.expr (.ternary op e t f)) →
    (∀ vs, R c vs ([·]) I.value (I.evaluate cfg fuel (1 :: place) t)
      (Treewalk.evaluate cfg' fuel t)) →
    (∀ vs, R c vs ([·]) I.value (I.evaluate cfg fuel (2 :: place) f)
      (Treewalk.evaluate cfg' fuel f)) →
    R c vs ([·]) I.value
      (cfg.ternary.branches condition (I.evaluate cfg fuel (1 :: place) t)
        (I.evaluate cfg fuel (2 :: place) f))
      (cfg'.ternary.branches condition (Treewalk.evaluate cfg' fuel t)
        (Treewalk.evaluate cfg' fuel f))
  name : ∀ {c vs place t}, Part c place (.expr (.name t)) →
    R c vs ([·]) I.value (I.get t) (Eval.get t)
  assign : ∀ {c vs place t e h}, Part c place (.expr (.assign t e)) → h ∈ vs →
    R c vs (fun _ => []) id (I.assign t h) (Eval.assign t (I.value h))
  notCallable : ∀ {c vs place callee paren es}, Part c place (.expr (.call callee paren es)) →
    R c vs ([·]) I.value (I.plain (Eval.fault paren .notCallable))
      (Eval.fault paren .notCallable)
  badArity : ∀ {c vs place callee paren es} {f : Callable} {n : Nat},
    Part c place (.expr (.call callee paren es)) → n ≠ f.arity →
    R c vs ([·]) I.value (I.plain (Eval.fault paren (.badArity f.arity n)))
      (Eval.fault paren (.badArity f.arity n))
  activate : ∀ {c vs place callee paren es h id f args x y},
    Part c place (.expr (.call callee paren es)) → h ∈ vs → I.value h = .callable id f →
    (∀ h ∈ args, h ∈ vs) → R c vs ([·]) I.value x y →
    R c vs ([·]) I.value (I.activate cfg.callLimit f paren args x)
      (Eval.activate cfg'.callLimit paren y)
  clock : ∀ {c vs}, R c vs ([·]) I.value (I.held (Eval.readClock cfg)) (Eval.readClock cfg')
  apply : ∀ {c vs h id d closure args y} {x : Place → M (Course H)}, h ∈ vs →
    I.value h = .callable id (.function d closure) → (∀ h ∈ args, h ∈ vs) →
    (∀ c' place, Body Part c' place 0 d.body →
      R c' [] Course.values (Course.flow I.value) (x place) y) →
    R c vs Course.values (Course.flow I.value) (I.applied id d closure args x)
      (do
        let id ← Eval.enclose closure ((d.params.map Token.lexeme).zip (args.map I.value))
        Eval.inScope id y)
  print : ∀ {c vs line}, R c vs (fun _ => []) id (I.plain (Eval.printLine line))
    (Eval.printLine line)
  define : ∀ {c vs place s name h}, Part c place (.stmt s) → declares s = some name →
    I.Known vs h → R c vs (fun _ => []) id (I.define name h) (Eval.define name (I.value h))
  close : ∀ {c vs place name params body}, Part c place (.stmt (.function name params body)) →
    R c vs ([·]) I.value (I.close place ⟨name, params, body⟩) (Eval.close ⟨name, params, body⟩)
  block : ∀ {c vs place body x y}, Part c place (.stmt (.block body)) →
    (∀ c', Body Part c' place 0 body → R c' [] Course.values (Course.flow I.value) x y) →
    R c vs Course.values (Course.flow I.value)
      (do
        let outer ← I.plain Eval.scope
        I.enclosed place outer [] x)
      (do
        let outer ← Eval.scope
        let id ← Eval.enclose outer []
        Eval.inScope id y)

/-- With this much fuel the relation holds of all runs. -/
structure Related {C : Type} (Part : C → Place → Node → Prop)
    (R : C → List H → ∀ {α β : Type}, (α → List H) → (α → β) → M α → Eval β → Prop)
    (cfg cfg' : Setting) (fuel : Nat) : Prop where
  evaluate : ∀ {c place e} (vs), Part c place (.expr e) →
    R c vs ([·]) I.value (I.evaluate cfg fuel place e) (Treewalk.evaluate cfg' fuel e)
  evaluateAll : ∀ {c place i es} (vs), Numbered (fun n e => Part c (n :: place) (.expr e)) i es →
    R c vs id (List.map I.value) (I.evaluateAll cfg fuel place i es)
      (Treewalk.evaluateAll cfg' fuel es)
  call : ∀ {c place callee paren es h id f args vs}, Part c place (.expr (.call callee paren es)) →
    h ∈ vs → I.value h = .callable id f → (∀ h ∈ args, h ∈ vs) →
    R c vs ([·]) I.value (I.call cfg fuel id f paren args)
      (Treewalk.call cfg' fuel f paren (args.map I.value))
  execute : ∀ {c place s} (vs), Part c place (.stmt s) →
    R c vs Course.values (Course.flow I.value) (I.execute cfg fuel place s)
      (Treewalk.execute cfg' fuel s)
  executeAll : ∀ {c place i ss} (vs), Body Part c place i ss →
    R c vs Course.values (Course.flow I.value) (I.executeAll cfg fuel place i ss)
      (Treewalk.executeAll cfg' fuel ss)

namespace Related

variable {I cfg} {cfg' : Setting} {C : Type} {Part : C → Place → Node → Prop}
  {R : C → List H → ∀ {α β : Type}, (α → List H) → (α → β) → M α → Eval β → Prop}
  {fuel : Nat} {c : C} {vs : List H} {place : Place}

theorem zero (hR : I.Rules Part R cfg cfg') : I.Related Part R cfg cfg' 0 where
  evaluate _ _ := hR.outOfFuel
  evaluateAll _ _ := hR.outOfFuel
  call _ _ _ _ := hR.outOfFuel
  execute _ _ := hR.outOfFuel
  executeAll _ _ := hR.outOfFuel

theorem evaluate_succ (hR : I.Rules Part R cfg cfg') (ih : I.Related Part R cfg cfg' fuel)
    {e : Expr} (h : Part c place (.expr e)) :
    R c vs ([·]) I.value (I.evaluate cfg (fuel + 1) place e)
      (Treewalk.evaluate cfg' (fuel + 1) e) := by
  have hpart : ∀ i e' vs, e.parts[i]? = some e' →
      R c vs ([·]) I.value (I.evaluate cfg fuel (i :: place) e')
        (Treewalk.evaluate cfg' fuel e') :=
    fun i e' vs hi => ih.evaluate vs (hR.exprPart h hi)
  unfold Instrument.evaluate
  refine hR.atExpr h ?_
  cases e with
  | literal l => exact hR.literal h
  | grouping inner => exact hpart 0 inner vs rfl
  | unary op right => exact hR.bind (hpart 0 right vs rfl) fun r => hR.unary h (.head _)
  | binary left op right =>
    exact hR.bind (hpart 0 left vs rfl) fun l => hR.bind (hpart 1 right _ rfl) fun r =>
      hR.binary h (.tail _ (.head _)) (.head _)
  | logical left op right =>
    refine hR.bind (hpart 0 left vs rfl) fun l => ?_
    split
    · exact hR.pure fun v hv => .inl (List.mem_append_left _ hv)
    · exact hpart 1 right _ rfl
  | ternary op condition t f =>
    exact hR.bind (hpart 0 condition vs rfl) fun v =>
      hR.ternary h (fun vs => hpart 1 t vs rfl) fun vs => hpart 2 f vs rfl
  | name t => exact hR.name h
  | assign t value =>
    exact hR.bind (hpart 0 value vs rfl) fun v => hR.bind (hR.assign h (.head _)) fun _ =>
      hR.pure fun u hu => .inl (List.mem_append_right _ (List.mem_append_left _ hu))
  | call callee paren args =>
    have hargs : Numbered (fun n e' => Part c (n :: place) (.expr e')) 1 args := by
      intro k e' hk
      refine hR.exprPart h ?_
      rw [Nat.add_comm]
      exact hk
    refine hR.bind (hpart 0 callee vs rfl) fun v => hR.bind (ih.evaluateAll _ hargs) fun us => ?_
    have hv : v ∈ us ++ ([v] ++ vs) := List.mem_append_right _ (.head _)
    have hus : ∀ u ∈ us, u ∈ us ++ ([v] ++ vs) := fun u hu => List.mem_append_left _ hu
    cases hf : I.value v with
    | callable id f => exact hR.atCall hv hus (ih.call h hv hf hus)
    | _ => exact hR.notCallable h

theorem evaluateAll_succ (hR : I.Rules Part R cfg cfg') (ih : I.Related Part R cfg cfg' fuel)
    {i : Nat} {es : List Expr} (h : Numbered (fun n e => Part c (n :: place) (.expr e)) i es) :
    R c vs id (List.map I.value) (I.evaluateAll cfg (fuel + 1) place i es)
      (Treewalk.evaluateAll cfg' (fuel + 1) es) := by
  cases es with
  | nil => exact hR.pure (List.forall_mem_nil _)
  | cons e es =>
    refine hR.bind (ih.evaluate vs h.head) fun v => hR.bind (ih.evaluateAll _ h.tail) fun us =>
      hR.pure fun u hu => .inl ?_
    obtain rfl | hu := List.mem_cons.mp hu
    · exact List.mem_append_right _ (.head _)
    · exact List.mem_append_left _ hu

theorem call_succ (hR : I.Rules Part R cfg cfg') (ih : I.Related Part R cfg cfg' fuel)
    {callee : Expr} {paren : Token} {es : List Expr} {v : H} {id : Nat} {f : Callable}
    {args : List H} (h : Part c place (.expr (.call callee paren es))) (hv : v ∈ vs)
    (hf : I.value v = .callable id f) (hargs : ∀ u ∈ args, u ∈ vs) :
    R c vs ([·]) I.value (I.call cfg (fuel + 1) id f paren args)
      (Treewalk.call cfg' (fuel + 1) f paren (args.map I.value)) := by
  unfold Instrument.call Treewalk.call
  rw [List.length_map]
  split
  · rename_i harity
    exact hR.badArity h harity
  · refine hR.activate h hv hf hargs ?_
    cases f with
    | clock => exact hR.clock
    | function d closure =>
      dsimp only
      rw [← bind_assoc]
      refine hR.bind (hR.apply hv hf hargs fun c' place hbody => ih.executeAll _ hbody) fun r => ?_
      cases r with
      | returned u => exact hR.pure fun w hw => .inl (List.mem_append_left _ hw)
      | normal =>
        have hnil : R c (Course.values .normal ++ vs) ([·]) I.value (pure (I.hold .nil))
            (pure (I.value (I.hold .nil))) := hR.pure fun w hw => .inr (List.mem_singleton.mp hw)
        rwa [I.value_hold] at hnil

theorem execute_succ (hR : I.Rules Part R cfg cfg') (ih : I.Related Part R cfg cfg' fuel)
    {s : Stmt} (h : Part c place (.stmt s)) :
    R c vs Course.values (Course.flow I.value) (I.execute cfg (fuel + 1) place s)
      (Treewalk.execute cfg' (fuel + 1) s) := by
  have hnormal : ∀ {vs}, R c vs Course.values (Course.flow I.value) (pure .normal)
      (pure .normal) := hR.pure (List.forall_mem_nil _)
  have hexpr : (Node.stmt s).opensScope = false → ∀ i e, s.nodes[i]? = some (.expr e) → ∀ vs,
      R c vs ([·]) I.value (I.evaluate cfg fuel (i :: place) e) (Treewalk.evaluate cfg' fuel e) :=
    fun hs i e hi vs => ih.evaluate vs (hR.stmtPart h hs hi)
  have hstmt : (Node.stmt s).opensScope = false → ∀ i t, s.nodes[i]? = some (.stmt t) → ∀ vs,
      R c vs Course.values (Course.flow I.value) (I.execute cfg fuel (i :: place) t)
        (Treewalk.execute cfg' fuel t) :=
    fun hs i t hi vs => ih.execute vs (hR.stmtPart h hs hi)
  unfold Instrument.execute
  refine hR.atStmt h ?_
  cases s with
  | expr e => exact hR.bind (hexpr rfl 0 e rfl vs) fun _ => hnormal
  | print e => exact hR.bind (hexpr rfl 0 e rfl vs) fun v => hR.bind hR.print fun _ => hnormal
  | var name initial =>
    cases initial with
    | none =>
      have hdefine : R c vs (fun _ => []) id (I.define name.lexeme (I.hold .nil))
          (Eval.define name.lexeme (I.value (I.hold .nil))) := hR.define h rfl (.inr rfl)
      rw [I.value_hold] at hdefine
      exact hR.bind hdefine fun _ => hnormal
    | some e =>
      exact hR.bind (hexpr rfl 0 e rfl vs) fun v =>
        hR.bind (hR.define h rfl (.inl (.head _))) fun _ => hnormal
  | block body => exact hR.block h fun c' hbody => ih.executeAll _ hbody
  | ifThen condition t =>
    refine hR.bind (hexpr rfl 0 condition rfl vs) fun v => ?_
    split
    · exact hstmt rfl 1 t rfl _
    · exact hnormal
  | ifElse condition t f =>
    refine hR.bind (hexpr rfl 0 condition rfl vs) fun v => ?_
    split
    · exact hstmt rfl 1 t rfl _
    · exact hstmt rfl 2 f rfl _
  | whileLoop condition body =>
    refine hR.bind (hexpr rfl 0 condition rfl vs) fun v => ?_
    split
    · refine hR.bind (hstmt rfl 1 body rfl _) fun r => ?_
      cases r with
      | returned u => exact hR.pure fun w hw => .inl (List.mem_append_left _ hw)
      | normal => exact ih.execute _ h
    · exact hnormal
  | function name params body =>
    exact hR.bind (hR.close h) fun f => hR.bind (hR.define h rfl (.inl (.head _))) fun _ => hnormal
  | ret keyword value =>
    cases value with
    | none =>
      have hnil : R c vs Course.values (Course.flow I.value) (pure (.returned (I.hold .nil)))
          (pure (.returned (I.value (I.hold .nil)))) :=
        hR.pure fun w hw => .inr (List.mem_singleton.mp hw)
      rwa [I.value_hold] at hnil
    | some e =>
      exact hR.bind (hexpr rfl 0 e rfl vs) fun v =>
        hR.pure fun w hw => .inl (List.mem_append_left _ hw)

theorem executeAll_succ (hR : I.Rules Part R cfg cfg') (ih : I.Related Part R cfg cfg' fuel)
    {i : Nat} {ss : List Stmt} (h : Body Part c place i ss) :
    R c vs Course.values (Course.flow I.value) (I.executeAll cfg (fuel + 1) place i ss)
      (Treewalk.executeAll cfg' (fuel + 1) ss) := by
  cases ss with
  | nil => exact hR.pure (List.forall_mem_nil _)
  | cons s ss =>
    refine hR.bind (ih.execute vs h.head) fun r => ?_
    cases r with
    | returned u => exact hR.pure fun w hw => .inl (List.mem_append_left _ hw)
    | normal => exact ih.executeAll _ h.tail

theorem all (hR : I.Rules Part R cfg cfg') : ∀ fuel, I.Related Part R cfg cfg' fuel
  | 0 => zero hR
  | fuel + 1 =>
    let ih := all hR fuel
    ⟨fun _ => ih.evaluate_succ hR, fun _ => ih.evaluateAll_succ hR, ih.call_succ hR,
      fun _ => ih.execute_succ hR, fun _ => ih.executeAll_succ hR⟩

end Related

/-! ## Programs -/

namespace Rules

variable {I cfg} {cfg' : Setting} {C : Type} {Part : C → Place → Node → Prop}
  {R : C → List H → ∀ {α β : Type}, (α → List H) → (α → β) → M α → Eval β → Prop}
  {c : C} {place : Place}

theorem interpret (hR : I.Rules Part R cfg cfg') (fuel : Nat) (vs : List H) {i : Nat}
    {p : Program} (h : Body Part c place i p) :
    R c vs (fun _ => []) id (I.interpret cfg fuel place i p) (Treewalk.interpret cfg' fuel p) := by
  induction p generalizing i vs with
  | nil => exact hR.pure (List.forall_mem_nil _)
  | cons s ss ih =>
    refine hR.bind ((Related.all hR fuel).execute vs h.head) fun r => ?_
    cases r with
    | returned u => exact hR.pure (List.forall_mem_nil _)
    | normal => exact ih _ h.tail

theorem echo (hR : I.Rules Part R cfg cfg') (fuel : Nat) (vs : List H) {p : Program}
    (h : Body Part c place 0 p) :
    R c vs (fun _ => []) id (I.echo cfg fuel place p) (Session.echo cfg' fuel p) := by
  by_cases hp : ∃ e, p = [.expr e]
  · obtain ⟨e, rfl⟩ := hp
    have he : Part c (0 :: 0 :: place) (.expr e) := hR.stmtPart h.head rfl rfl
    exact hR.bind ((Related.all hR fuel).evaluate vs he) fun v => hR.print
  · have hother : ∀ e, p = [.expr e] → False := fun e he => hp ⟨e, he⟩
    rw [echo.eq_2 I cfg fuel place p hother, Session.echo.eq_2 cfg' fuel p hother]
    exact hR.interpret fuel vs h

end Rules

end Instrument

end Treewalk
