import Treewalk.Proofs.Machine.Operator
import Treewalk.Proofs.Machine.Timeline

/-!
# Where errors are raised

An error ends a run from any depth of expressions, blocks and calls. It was raised at one
expression on the way: all parts of that expression that count have values, and the operator,
the name or the call itself has none.

Results:

* `TracedAt.all`: every error of a run was raised at one of its moments.
* `raised_program`, `raised_line`: so it is for programs and for lines.
-/
namespace Treewalk

open Timeline

/-- The errors with which a callable refuses `n` arguments on the given machine. -/
inductive Callable.Refuses (cfg : Setting) (c : Callable) (paren : Token) (n : Nat) (m : Machine) :
    RuntimeError → Prop where
  | badArity (differ : n ≠ c.arity) : Refuses cfg c paren n m ⟨paren, .badArity c.arity n⟩
  | stackOverflow (full : cfg.callLimit.any (· ≤ m.depth) = true) :
    Refuses cfg c paren n m ⟨paren, .stackOverflow⟩

/-- Evaluated on the given machine, the expression itself raises the error: its parts have
values. -/
inductive Expr.Raises (cfg : Setting) : Expr → Machine → RuntimeError → Prop where
  | unary {op : Token} {right : Expr} {v : Value} {m m' : Machine} {fuel : Nat}
    {e : RuntimeError} (operand : evaluate cfg fuel right m = .ok v m')
    (fails : Value.unary op v = .error (.error e)) : Raises cfg (.unary op right) m e
  | binary {left : Expr} {op : Token} {right : Expr} {l r : Value} {m m₁ m₂ : Machine}
    {fuel : Nat} {e : RuntimeError} (first : evaluate cfg fuel left m = .ok l m₁)
    (second : evaluate cfg fuel right m₁ = .ok r m₂)
    (fails : Value.binary op l r = .error (.error e)) : Raises cfg (.binary left op right) m e
  | name {t : Token} {m : Machine} (unbound : m.store.lookup m.scope t.lexeme = none) :
    Raises cfg (.name t) m (.undefined t)
  | assign {t : Token} {value : Expr} {v : Value} {m m' : Machine} {fuel : Nat}
    (assigned : evaluate cfg fuel value m = .ok v m')
    (unbound : m'.store.owner? m'.scope t.lexeme = none) :
    Raises cfg (.assign t value) m (.undefined t)
  | notCallable {callee : Expr} {paren : Token} {args : List Expr} {v : Value} {vs : List Value}
    {m m₁ m₂ : Machine} {fuel : Nat} (called : evaluate cfg fuel callee m = .ok v m₁)
    (passed : evaluateAll cfg fuel args m₁ = .ok vs m₂) (plain : v.Plain) :
    Raises cfg (.call callee paren args) m ⟨paren, .notCallable⟩
  | refused {callee : Expr} {paren : Token} {args : List Expr} {id : Nat} {c : Callable}
    {vs : List Value} {m m₁ m₂ : Machine} {fuel : Nat} {e : RuntimeError}
    (called : evaluate cfg fuel callee m = .ok (.callable id c) m₁)
    (passed : evaluateAll cfg fuel args m₁ = .ok vs m₂)
    (refuses : c.Refuses cfg paren args.length m₂ e) : Raises cfg (.call callee paren args) m e

/-- What begins at the moment is an expression that raises the error. -/
def Moment.Raises (cfg : Setting) (z : Moment) (err : RuntimeError) : Prop :=
  ∃ e, z.event = .expr e ∧ e.Raises cfg z.machine err

variable {cfg : Setting} {α β : Type}

/-- There are as many values as expressions. -/
theorem length_of_evaluateAll {fuel : Nat} {es : List Expr} {vs : List Value} {m m' : Machine}
    (h : evaluateAll cfg fuel es m = .ok vs m') : vs.length = es.length := by
  induction es generalizing fuel vs m with
  | nil =>
    cases fuel with
    | zero => cases h
    | succ fuel =>
      cases h
      rfl
  | cons e es ih =>
    cases fuel with
    | zero => cases h
    | succ fuel =>
      obtain ⟨v, m₁, -, hrest⟩ := bind_eq_ok.mp h
      obtain ⟨ws, m₂, hws, hvs⟩ := bind_eq_ok.mp hrest
      cases hvs
      rw [List.length_cons, List.length_cons, ih hws]

/-! ## Rules for computations -/

/-- An error of the running program with which the run ends is one of the given errors, or it
was raised at one of the moments. -/
def Traced (cfg : Setting) (own : RuntimeError → Prop) (x : Recorded α) (m : Machine) : Prop :=
  ∀ err m', x.run m = .error (.error err) m' → own err ∨ ∃ z ∈ x.timeline m, z.Raises cfg err

section Rules

variable {own own' : RuntimeError → Prop} {x : Recorded α} {m : Machine}

theorem Traced.imp (h : Traced cfg own x m) (hown : ∀ err, own err → own' err) :
    Traced cfg own' x m :=
  fun err m' herr => (h err m' herr).imp_left (hown err)

theorem traced_pure (a : α) : Traced cfg own (pure a) m := by
  intro err m' herr
  have herr : EStateM.Result.ok a m = .error (Stop.error err) m' := herr
  cases herr

theorem traced_bind {k : α → Recorded β} (hx : Traced cfg own x m)
    (hk : ∀ a m₁, x.run m = .ok a m₁ → Traced cfg own (k a) m₁) :
    Traced cfg own (x >>= k) m := by
  intro err m' herr
  rw [Recorded.timeline_bind, Timeline.next, following]
  rw [Recorded.run_bind] at herr
  cases hr : x.run m with
  | ok a m₁ =>
    rw [bind_of_ok hr] at herr
    obtain hown | ⟨z, hz, hraises⟩ := hk a m₁ hr err m' herr
    · exact .inl hown
    · exact .inr ⟨z, List.mem_append_right _ hz, hraises⟩
  | error stop m₁ =>
    rw [bind_of_error hr] at herr
    cases herr
    obtain hown | ⟨z, hz, hraises⟩ := hx err m' hr
    · exact .inl hown
    · exact .inr ⟨z, List.mem_append_left _ hz, hraises⟩

/-- The result is all that comes after. -/
theorem traced_map (hx : Traced cfg own x m) (f : α → β) :
    Traced cfg own (x >>= fun a => pure (f a)) m :=
  traced_bind hx fun a _ _ => traced_pure (f a)

/-- A step whose errors are all accounted for. -/
theorem traced_step {x : Eval α} (h : ∀ err m', x m = .error (.error err) m' → own err) :
    Traced cfg own (.step x) m :=
  fun err m' herr => .inl (h err m' herr)

/-- A step that never fails. -/
theorem traced_ok (x : Eval α) {a : α} {m' : Machine} (h : x m = .ok a m') :
    Traced cfg own (.step x) m := by
  refine traced_step fun err m₁ herr => ?_
  rw [h] at herr
  cases herr

theorem traced_outOfFuel : Traced cfg own (.step (Eval.outOfFuel : Eval α)) m :=
  traced_step fun err m' herr => by cases herr

theorem traced_inScope (id : ScopeId) (hx : ∀ m, Traced cfg own x m) :
    Traced cfg own (x.inScope id) m := by
  intro err m' herr
  rw [Recorded.run_inScope, inScope_eq] at herr
  obtain ⟨m₁, herr, -⟩ := leaving_eq_error.mp herr
  exact hx _ err m₁ herr

/-- Errors of an expression itself are raised as it begins. -/
theorem traced_starting {e : Expr} (h : Traced cfg (e.Raises cfg m) x m) :
    Traced cfg (fun _ => False) (x.starting (.expr e)) m := by
  intro err m' herr
  obtain hraises | ⟨z, hz, hraises⟩ := h err m' herr
  · exact .inr ⟨⟨.expr e, m⟩, List.mem_cons_self, e, rfl, hraises⟩
  · exact .inr ⟨z, List.mem_cons_of_mem _ hz, hraises⟩

theorem Traced.starting (h : Traced cfg own x m) (e : Event) :
    Traced cfg own (x.starting e) m := by
  intro err m' herr
  obtain hown | ⟨z, hz, hraises⟩ := h err m' herr
  · exact .inl hown
  · exact .inr ⟨z, List.mem_cons_of_mem _ hz, hraises⟩

theorem traced_activate {limit : Option Nat} (c : Callable) {paren : Token} (args : List Value)
    (hfull : limit.any (· ≤ m.depth) = true → own ⟨paren, .stackOverflow⟩)
    (hx : ∀ m, Traced cfg own x m) : Traced cfg own (x.activate limit c paren args) m := by
  intro err m' herr
  rw [Recorded.run_activate] at herr
  rw [Recorded.timeline_activate, Timeline.activate]
  cases h : limit.any (· ≤ m.depth) with
  | true =>
    rw [activate_full h] at herr
    cases herr
    exact .inl (hfull h)
  | false =>
    rw [activate_eq h] at herr
    obtain ⟨m₁, herr, -⟩ := leaving_eq_error.mp herr
    exact (hx m.enter).starting (.call c paren args) err m₁ herr

theorem traced_ofExcept {r : Except Stop Value}
    (h : ∀ err, r = .error (.error err) → own err) :
    Traced cfg own (recording.held (Eval.ofExcept r)) m := by
  refine traced_map (traced_step fun err m' herr => ?_) _
  cases r with
  | ok v => cases herr
  | error e =>
    cases herr
    exact h err rfl

theorem traced_get (t : Token) (m : Machine) :
    Traced cfg ((Expr.name t).Raises cfg m) (.step (Eval.get t)) m := by
  refine traced_step fun err m' herr => ?_
  unfold Eval.get at herr
  split at herr
  · cases herr
  · rename_i e he
    cases herr
    unfold Store.get at he
    split at he
    · cases he
    · rename_i hnone
      cases he
      exact .name hnone

theorem traced_assign (t : Token) (v : Value)
    (h : m.store.owner? m.scope t.lexeme = none → own (.undefined t)) :
    Traced cfg own (.step (Eval.assign t v)) m := by
  refine traced_step fun err m' herr => ?_
  unfold Eval.assign at herr
  split at herr
  · cases herr
  · rename_i hnone
    cases herr
    exact h hnone

end Rules

/-! ## Runs -/

/-- With the given fuel, every error was raised at one of the moments; a call may also be
refused. -/
structure TracedAt (cfg : Setting) (fuel : Nat) : Prop where
  expr : ∀ place e m, Traced cfg (fun _ => False) (recording.evaluate cfg fuel place e) m
  exprs : ∀ place i es m, Traced cfg (fun _ => False) (recording.evaluateAll cfg fuel place i es) m
  call : ∀ number c paren args m, Traced cfg (c.Refuses cfg paren args.length m)
    (recording.call cfg fuel number c paren args) m
  stmt : ∀ place s m, Traced cfg (fun _ => False) (recording.execute cfg fuel place s) m
  stmts : ∀ place i ss m, Traced cfg (fun _ => False) (recording.executeAll cfg fuel place i ss) m

namespace TracedAt

variable {fuel : Nat}

theorem zero : TracedAt cfg 0 where
  expr _ _ _ := traced_outOfFuel
  exprs _ _ _ _ := traced_outOfFuel
  call _ _ _ _ _ := traced_outOfFuel
  stmt _ _ _ := traced_outOfFuel
  stmts _ _ _ _ := traced_outOfFuel

/-- The errors of a part, among those of a whole. -/
theorem part (ih : TracedAt cfg fuel) {own : RuntimeError → Prop} (place : Place) (e : Expr)
    (m : Machine) : Traced cfg own (recording.evaluate cfg fuel place e) m :=
  (ih.expr place e m).imp fun _ => False.elim

theorem expr_succ (ih : TracedAt cfg fuel) (place : Place) (e : Expr) (m : Machine) :
    Traced cfg (fun _ => False) (recording.evaluate cfg (fuel + 1) place e) m := by
  unfold Instrument.evaluate
  refine traced_starting ?_
  cases e with
  | literal l => exact traced_pure _
  | grouping inner => exact ih.part _ inner m
  | unary op right =>
    refine traced_bind (ih.part _ right m) fun v m₁ hv => ?_
    rw [runs_evaluate] at hv
    exact traced_ofExcept fun err herr => .unary hv herr
  | binary left op right =>
    refine traced_bind (ih.part _ left m) fun l m₁ hl =>
      traced_bind (ih.part _ right m₁) fun r m₂ hr => ?_
    rw [runs_evaluate] at hl hr
    exact traced_ofExcept fun err herr => .binary hl hr herr
  | logical left op right =>
    refine traced_bind (ih.part _ left m) fun l m₁ _ => ?_
    split
    · exact traced_pure _
    · exact ih.part _ right m₁
  | ternary op c t f =>
    refine traced_bind (ih.part _ c m) fun v m₁ _ => ?_
    unfold TernaryRule.branches
    split
    · exact traced_bind (ih.part _ t m₁) fun a m₂ _ => traced_map (ih.part _ f m₂) _
    · split
      · exact ih.part _ t m₁
      · exact ih.part _ f m₁
  | name t => exact traced_get t m
  | assign t value =>
    refine traced_bind (ih.part _ value m) fun v m₁ hv => ?_
    rw [runs_evaluate] at hv
    exact traced_map (traced_assign t v fun hnone => .assign hv hnone) _
  | call callee paren args =>
    refine traced_bind (ih.part _ callee m) fun v m₁ hv =>
      traced_bind ((ih.exprs _ _ args m₁).imp fun _ => False.elim) fun vs m₂ hvs => ?_
    rw [runs_evaluate] at hv
    rw [runs_evaluateAll] at hvs
    cases v with
    | callable id c =>
      refine (ih.call id c paren vs m₂).imp fun err herr => .refused hv hvs ?_
      rwa [← length_of_evaluateAll hvs]
    | _ =>
      refine traced_step fun err m' herr => ?_
      cases herr
      exact .notCallable hv hvs trivial

theorem exprs_succ (ih : TracedAt cfg fuel) (place : Place) (i : Nat) (es : List Expr)
    (m : Machine) :
    Traced cfg (fun _ => False) (recording.evaluateAll cfg (fuel + 1) place i es) m := by
  cases es with
  | nil => exact traced_pure _
  | cons e es =>
    exact traced_bind (ih.expr _ e m) fun _ m₁ _ => traced_map (ih.exprs _ _ es m₁) _

/-- A body in a new scope. -/
theorem enclosed (ih : TracedAt cfg fuel) {own : RuntimeError → Prop} (place place' : Place)
    (outer : ScopeId) (bs : List (String × Value)) (body : List Stmt) (m : Machine) :
    Traced cfg own
      (recording.enclosed place outer bs (recording.executeAll cfg fuel place' 0 body)) m :=
  traced_bind (traced_ok (Eval.enclose outer bs) rfl) fun id _ _ => traced_inScope id fun m =>
    (ih.stmts place' 0 body m).imp fun _ => False.elim

theorem call_succ (ih : TracedAt cfg fuel) (number : Nat) (c : Callable) (paren : Token)
    (args : List Value) (m : Machine) : Traced cfg (c.Refuses cfg paren args.length m)
      (recording.call cfg (fuel + 1) number c paren args) m := by
  unfold Instrument.call
  split
  · rename_i harity
    refine traced_step fun err m' herr => ?_
    cases herr
    exact .badArity harity
  · refine traced_activate c args (fun hfull => .stackOverflow hfull) fun m₁ => ?_
    cases c with
    | clock => exact traced_map (traced_ok (Eval.readClock cfg) rfl) _
    | function d closure =>
      exact traced_map (traced_bind (traced_pure []) fun place m₂ _ =>
        ih.enclosed place place closure _ d.body m₂) _

theorem stmt_succ (ih : TracedAt cfg fuel) (place : Place) (s : Stmt) (m : Machine) :
    Traced cfg (fun _ => False) (recording.execute cfg (fuel + 1) place s) m := by
  unfold Instrument.execute
  refine Traced.starting ?_ (.stmt s)
  cases s with
  | expr e => exact traced_map (ih.expr _ e m) _
  | print e =>
    exact traced_bind (ih.expr _ e m) fun v m₁ _ => traced_map (traced_ok (Eval.printLine _) rfl) _
  | var name initial =>
    cases initial with
    | none => exact traced_map (traced_ok (Eval.define _ _) rfl) _
    | some e =>
      exact traced_bind (ih.expr _ e m) fun v m₁ _ => traced_map (traced_ok (Eval.define _ v) rfl) _
  | block body =>
    exact traced_bind (traced_ok Eval.scope rfl) fun outer m₁ _ =>
      ih.enclosed place place outer [] body m₁
  | ifThen c t =>
    refine traced_bind (ih.expr _ c m) fun v m₁ _ => ?_
    split
    · exact ih.stmt _ t m₁
    · exact traced_pure _
  | ifElse c t f =>
    refine traced_bind (ih.expr _ c m) fun v m₁ _ => ?_
    split
    · exact ih.stmt _ t m₁
    · exact ih.stmt _ f m₁
  | whileLoop c body =>
    refine traced_bind (ih.expr _ c m) fun v m₁ _ => ?_
    split
    · refine traced_bind (ih.stmt _ body m₁) fun r m₂ _ => ?_
      cases r with
      | returned v => exact traced_pure _
      | normal => exact ih.stmt _ (.whileLoop c body) m₂
    · exact traced_pure _
  | function name params body =>
    exact traced_bind (traced_ok (Eval.close _) rfl) fun f m₁ _ =>
      traced_map (traced_ok (Eval.define _ f) rfl) _
  | ret keyword value =>
    cases value with
    | none => exact traced_pure _
    | some e => exact traced_map (ih.expr _ e m) _

theorem stmts_succ (ih : TracedAt cfg fuel) (place : Place) (i : Nat) (ss : List Stmt)
    (m : Machine) :
    Traced cfg (fun _ => False) (recording.executeAll cfg (fuel + 1) place i ss) m := by
  cases ss with
  | nil => exact traced_pure _
  | cons s ss =>
    refine traced_bind (ih.stmt _ s m) fun r m₁ _ => ?_
    cases r with
    | returned v => exact traced_pure _
    | normal => exact ih.stmts _ _ ss m₁

theorem all : ∀ fuel, TracedAt cfg fuel
  | 0 => zero
  | fuel + 1 =>
    let ih := all fuel
    ⟨ih.expr_succ, ih.exprs_succ, ih.call_succ, ih.stmt_succ, ih.stmts_succ⟩

/-- The rest of a program. -/
theorem interpret (place : Place) (i : Nat) (p : Program) (m : Machine) :
    Traced cfg (fun _ => False) (recording.interpret cfg fuel place i p) m := by
  induction p generalizing i m with
  | nil => exact traced_pure _
  | cons s ss ih =>
    refine traced_bind ((all fuel).stmt _ s m) fun r m₁ _ => ?_
    cases r with
    | returned v => exact traced_pure _
    | normal => exact ih _ m₁

theorem echo (place : Place) (p : Program) (m : Machine) :
    Traced cfg (fun _ => False) (recording.echo cfg fuel place p) m := by
  unfold Instrument.echo
  split
  · exact traced_bind ((all fuel).expr _ _ m) fun v m₁ _ => traced_ok (Eval.printLine _) rfl
  · exact interpret place 0 _ m

end TracedAt

variable {fuel : Nat} {p : Program} {m m' : Machine} {err : RuntimeError}

/-- Every error of a program was raised at one of its moments. -/
theorem raised_program (h : interpret cfg fuel p m = .error (.error err) m') :
    ∃ z ∈ duringProgram cfg fuel p m, z.Raises cfg err := by
  rw [← runs_interpret cfg fuel [] 0 p] at h
  exact (TracedAt.interpret [] 0 p m err m' h).resolve_left id

/-- Every error of a line was raised at one of its moments. -/
theorem raised_line (h : Session.echo cfg fuel p m = .error (.error err) m') :
    ∃ z ∈ duringLine cfg fuel p m, z.Raises cfg err := by
  rw [← runs_echo cfg fuel [] p] at h
  exact (TracedAt.echo [] p m err m' h).resolve_left id

end Treewalk
