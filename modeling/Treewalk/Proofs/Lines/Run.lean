import Treewalk.Proofs.Lines.Relabel

/-!
# Running with other line numbers

A relabelled program that runs on a relabelled machine does the same as the
program itself, step by step; its errors come at the relabelled tokens.

Results:

* `commutes_interpret`: relabelling commutes with running a program.
-/
namespace Treewalk

variable (cfg : Setting) (f : Nat → Nat)

/-- With this much fuel, relabelling commutes with running. -/
structure CommutesAt (fuel : Nat) : Prop where
  evaluate : ∀ e, Commutes f (Value.relabel f) (evaluate cfg fuel e)
    (evaluate cfg fuel (e.relabel f))
  evaluateAll : ∀ es, Commutes f (List.map (Value.relabel f)) (evaluateAll cfg fuel es)
    (evaluateAll cfg fuel (Expr.relabelAll f es))
  call : ∀ c paren args, Commutes f (Value.relabel f) (call cfg fuel c paren args)
    (call cfg fuel (c.relabel f) (paren.relabel f) (args.map (Value.relabel f)))
  execute : ∀ s, Commutes f (Flow.relabel f) (execute cfg fuel s) (execute cfg fuel (s.relabel f))
  executeAll : ∀ ss, Commutes f (Flow.relabel f) (executeAll cfg fuel ss)
    (executeAll cfg fuel (Stmt.relabelAll f ss))

namespace CommutesAt

variable {cfg} {f} {fuel : Nat}

theorem zero : CommutesAt cfg f 0 where
  evaluate _ := commutes_outOfFuel
  evaluateAll _ := commutes_outOfFuel
  call _ _ _ := commutes_outOfFuel
  execute _ := commutes_outOfFuel
  executeAll _ := commutes_outOfFuel

theorem ternary_succ (ih : CommutesAt cfg f fuel) (op : Token) (c t e : Expr) :
    Commutes f (Value.relabel f) (Treewalk.evaluate cfg (fuel + 1) (.ternary op c t e))
      (Treewalk.evaluate cfg (fuel + 1) ((Expr.ternary op c t e).relabel f)) := by
  simp only [Expr.relabel, Treewalk.evaluate]
  refine commutes_bind (ih.evaluate c) fun v => ?_
  cases cfg.ternary with
  | eager =>
    refine commutes_bind (ih.evaluate t) fun a => commutes_bind (ih.evaluate e) fun b => ?_
    simp only [Value.truthy_relabel]
    split <;> exact commutes_pure _
  | selected =>
    simp only [Value.truthy_relabel]
    split
    · exact ih.evaluate t
    · exact ih.evaluate e

theorem evaluate_succ (ih : CommutesAt cfg f fuel) (e : Expr) :
    Commutes f (Value.relabel f) (Treewalk.evaluate cfg (fuel + 1) e)
      (Treewalk.evaluate cfg (fuel + 1) (e.relabel f)) := by
  cases e with
  | literal l => cases l <;> exact commutes_pure _
  | grouping inner => exact ih.evaluate inner
  | unary op right =>
    refine commutes_bind (ih.evaluate right) fun v => ?_
    rw [Value.unary_relabel]
    exact commutes_ofExcept _
  | binary left op right =>
    refine commutes_bind (ih.evaluate left) fun v => commutes_bind (ih.evaluate right) fun w => ?_
    rw [Value.binary_relabel]
    exact commutes_ofExcept _
  | logical left op right =>
    refine commutes_bind (ih.evaluate left) fun v => ?_
    rw [Value.shortCircuits_relabel]
    split
    · exact commutes_pure v
    · exact ih.evaluate right
  | ternary op c t e => exact ih.ternary_succ op c t e
  | name t => exact commutes_get t
  | assign t value =>
    exact commutes_bind (ih.evaluate value) fun v => commutes_unit (commutes_assign t v)
      (commutes_pure v)
  | call callee paren args =>
    refine commutes_bind (ih.evaluate callee) fun v =>
      commutes_bind (ih.evaluateAll args) fun vs => ?_
    cases v with
    | callable id c => exact ih.call c paren vs
    | _ => exact commutes_fault paren _

theorem evaluateAll_succ (ih : CommutesAt cfg f fuel) (es : List Expr) :
    Commutes f (List.map (Value.relabel f)) (Treewalk.evaluateAll cfg (fuel + 1) es)
      (Treewalk.evaluateAll cfg (fuel + 1) (Expr.relabelAll f es)) := by
  cases es with
  | nil => exact commutes_pure []
  | cons e es =>
    exact commutes_bind (ih.evaluate e) fun v => commutes_bind (ih.evaluateAll es) fun vs =>
      commutes_pure (v :: vs)

theorem call_succ (ih : CommutesAt cfg f fuel) (c : Callable) (paren : Token) (args : List Value) :
    Commutes f (Value.relabel f) (Treewalk.call cfg (fuel + 1) c paren args)
      (Treewalk.call cfg (fuel + 1) (c.relabel f) (paren.relabel f)
        (args.map (Value.relabel f))) := by
  simp only [Treewalk.call, Callable.arity_relabel, List.length_map]
  split
  · exact commutes_fault paren _
  · refine commutes_activate _ paren ?_
    cases c with
    | clock => exact commutes_readClock cfg
    | function d closure =>
      have hbindings : ((d.relabel f).params.map Token.lexeme).zip (args.map (Value.relabel f)) =
          ((d.params.map Token.lexeme).zip args).map fun b => (b.1, b.2.relabel f) := by
        simp only [Declaration.relabel, List.map_map, List.zip_map_right]
        rfl
      simp only [Callable.relabel]
      rw [hbindings]
      refine commutes_bind (commutes_enclose closure _) fun id =>
        commutes_bind (commutes_inScope id (ih.executeAll d.body)) fun r => ?_
      cases r with
      | normal => exact commutes_pure Value.nil
      | returned v => exact commutes_pure v

theorem execute_succ (ih : CommutesAt cfg f fuel) (s : Stmt) :
    Commutes f (Flow.relabel f) (Treewalk.execute cfg (fuel + 1) s)
      (Treewalk.execute cfg (fuel + 1) (s.relabel f)) := by
  cases s with
  | expr e => exact commutes_bind (ih.evaluate e) fun _ => commutes_pure Flow.normal
  | print e =>
    refine commutes_bind (ih.evaluate e) fun v => ?_
    rw [Value.text_relabel]
    exact commutes_unit (commutes_printLine _) (commutes_pure Flow.normal)
  | var name initial =>
    cases initial with
    | none => exact commutes_unit (commutes_define name.lexeme .nil) (commutes_pure Flow.normal)
    | some e =>
      exact commutes_bind (ih.evaluate e) fun v => commutes_unit (commutes_define name.lexeme v)
        (commutes_pure Flow.normal)
  | block body =>
    exact commutes_bind commutes_scope fun outer => commutes_bind (commutes_enclose outer [])
      fun id => commutes_inScope id (ih.executeAll body)
  | ifThen c t =>
    refine commutes_bind (ih.evaluate c) fun v => ?_
    rw [Value.truthy_relabel]
    split
    · exact ih.execute t
    · exact commutes_pure Flow.normal
  | ifElse c t e =>
    refine commutes_bind (ih.evaluate c) fun v => ?_
    rw [Value.truthy_relabel]
    split
    · exact ih.execute t
    · exact ih.execute e
  | whileLoop c body =>
    refine commutes_bind (ih.evaluate c) fun v => ?_
    rw [Value.truthy_relabel]
    split
    · refine commutes_bind (ih.execute body) fun r => ?_
      cases r with
      | returned v => exact commutes_pure (Flow.returned v)
      | normal => exact ih.execute (.whileLoop c body)
    · exact commutes_pure Flow.normal
  | function name params body =>
    exact commutes_bind (commutes_close ⟨name, params, body⟩) fun v =>
      commutes_unit (commutes_define name.lexeme v) (commutes_pure Flow.normal)
  | ret keyword value =>
    cases value with
    | none => exact commutes_pure (Flow.returned .nil)
    | some e => exact commutes_bind (ih.evaluate e) fun v => commutes_pure (Flow.returned v)

theorem executeAll_succ (ih : CommutesAt cfg f fuel) (ss : List Stmt) :
    Commutes f (Flow.relabel f) (Treewalk.executeAll cfg (fuel + 1) ss)
      (Treewalk.executeAll cfg (fuel + 1) (Stmt.relabelAll f ss)) := by
  cases ss with
  | nil => exact commutes_pure Flow.normal
  | cons s ss =>
    refine commutes_bind (ih.execute s) fun r => ?_
    cases r with
    | returned v => exact commutes_pure (Flow.returned v)
    | normal => exact ih.executeAll ss

theorem all : ∀ fuel, CommutesAt cfg f fuel
  | 0 => zero
  | fuel + 1 =>
    let ih := all fuel
    ⟨ih.evaluate_succ, ih.evaluateAll_succ, ih.call_succ, ih.execute_succ, ih.executeAll_succ⟩

end CommutesAt

/-- Relabelling commutes with running a program. -/
theorem commutes_interpret (fuel : Nat) (p : Program) :
    Commutes f id (interpret cfg fuel p) (interpret cfg fuel (Stmt.relabelAll f p)) := by
  induction p with
  | nil => exact commutes_pure ()
  | cons s ss ih =>
    refine commutes_bind ((CommutesAt.all fuel).execute s) fun r => ?_
    cases r with
    | returned v => exact commutes_pure ()
    | normal => exact ih

end Treewalk
