import Treewalk.Proofs.Machine.Throughout
import Treewalk.Proofs.Machine.Trees

/-!
# Branches without effects

Both branches of a conditional expression are evaluated, and then one value is dropped. If no
branch contains a call or an assignment, this cannot be seen: evaluating such an expression
leaves the machine as it is. So a program that ends without an error under this rule does the
same when only the branch that is picked is evaluated.

Results:

* `evaluate_still`: an expression without calls and assignments leaves the machine alone.
* `branches_unseen`: programs under both rules.
-/
namespace Treewalk

/-! ## Expressions without calls and assignments -/

/-- The expression itself is neither a call nor an assignment. -/
def Expr.Idle : Expr → Prop
  | .assign _ _ | .call _ _ _ => False
  | _ => True

/-- There is no call and no assignment in the expression. -/
def Expr.Still (e : Expr) : Prop := e.Everywhere Expr.Idle

/-- If the expression is a conditional one, there is no call and no assignment in its
branches. -/
def Expr.StillBranches : Expr → Prop
  | .ternary _ _ t f => t.Still ∧ f.Still
  | _ => True

/-- The branches of all conditional expressions in the statement are like that, up to those in
statements in it. -/
def Stmt.StillBranches (s : Stmt) : Prop := ∀ e ∈ s.exprs, e.Everywhere Expr.StillBranches

instance : DecidablePred Expr.Idle
  | .assign _ _ | .call _ _ _ => .isFalse id
  | .literal _ | .grouping _ | .unary _ _ | .binary _ _ _ | .logical _ _ _ | .ternary _ _ _ _
  | .name _ => .isTrue trivial

instance : DecidablePred Expr.Still := fun e => inferInstanceAs (Decidable (e.Everywhere Expr.Idle))

instance : DecidablePred Expr.StillBranches
  | .ternary _ _ t f => inferInstanceAs (Decidable (t.Still ∧ f.Still))
  | .literal _ | .grouping _ | .unary _ _ | .binary _ _ _ | .logical _ _ _ | .name _
  | .assign _ _ | .call _ _ _ => .isTrue trivial

instance : DecidablePred Stmt.StillBranches := fun s =>
  inferInstanceAs (Decidable (∀ e ∈ s.exprs, e.Everywhere Expr.StillBranches))

variable {α β : Type}

/-- However the computation ends, the machine is what it was. -/
def Idles (x : Eval α) : Prop := ∀ m, after (x m) = m

theorem idles_bind {x : Eval α} {k : α → Eval β} (hx : Idles x) (hk : ∀ a, Idles (k a)) :
    Idles (x >>= k) := by
  intro m
  have hm := hx m
  cases hr : x m with
  | ok a m' =>
    rw [hr] at hm
    rw [bind_of_ok hr, hk a m']
    exact hm
  | error e m' =>
    rw [hr] at hm
    rw [bind_of_error hr]
    exact hm

theorem idles_ofExcept (r : Except Stop α) : Idles (Eval.ofExcept r) := by
  cases r <;> exact fun _ => rfl

theorem idles_get (t : Token) : Idles (Eval.get t) := by
  intro m
  unfold Eval.get
  split <;> rfl

/-- An expression without calls and assignments leaves the machine alone, whether it has a
value or not. -/
theorem evaluate_still (cfg : Setting) (fuel : Nat) {e : Expr} (he : e.Still) :
    Idles (evaluate cfg fuel e) := by
  induction fuel generalizing e with
  | zero => exact fun _ => rfl
  | succ fuel ih =>
    have hpart : ∀ {part}, part ∈ e.parts → Idles (evaluate cfg fuel part) :=
      fun h => ih (he.parts _ h)
    have hpure : ∀ v : Value, Idles (pure v) := fun _ _ => rfl
    cases e with
    | literal l => exact hpure _
    | grouping inner => exact hpart (by simp [Expr.parts])
    | unary op right =>
      exact idles_bind (hpart (by simp [Expr.parts])) fun _ => idles_ofExcept _
    | binary left op right =>
      exact idles_bind (hpart (by simp [Expr.parts])) fun _ =>
        idles_bind (hpart (by simp [Expr.parts])) fun _ => idles_ofExcept _
    | logical left op right =>
      refine idles_bind (hpart (by simp [Expr.parts])) fun v => ?_
      split
      · exact hpure v
      · exact hpart (by simp [Expr.parts])
    | ternary op c t f =>
      have ht : Idles (evaluate cfg fuel t) := hpart (by simp [Expr.parts])
      have hf : Idles (evaluate cfg fuel f) := hpart (by simp [Expr.parts])
      refine idles_bind (hpart (by simp [Expr.parts])) fun v => ?_
      split
      · exact idles_bind ht fun _ => idles_bind hf fun _ => hpure _
      · split
        · exact ht
        · exact hf
    | name t => exact idles_get t
    | assign t value => exact he.1.elim
    | call callee paren args => exact he.1.elim

/-! ## Two rules -/

/-- The same setting with another rule for conditional expressions. -/
def Setting.choosing (cfg : Setting) (rule : TernaryRule) : Setting := { cfg with ternary := rule }

/-- No branch of a conditional expression contains a call or an assignment, in functions
neither. -/
abbrev stillBranches : Standard := .ofTrees Expr.StillBranches Stmt.StillBranches fun _ => True

theorem kept_stillBranches : stillBranches.Kept :=
  Standard.kept_ofTrees (fun _ h => h) (Value.closed_true _)

/-- Whatever the first computation succeeds with on a machine with such functions, the second
one succeeds with as well, where `g` takes the results of one to those of the other. -/
def SucceedsAs (g : α → β) (x : Eval α) (y : Eval β) : Prop :=
  ∀ m, stillBranches.Meets m.store → ∀ a m', x m = .ok a m' → y m = .ok (g a) m'

theorem SucceedsAs.refl (x : Eval α) : SucceedsAs id x x := fun _ _ _ _ h => h

theorem succeedsAs_bind {γ δ : Type} {g : α → β} {g' : γ → δ} {post : α → Prop} {x : Eval α}
    {y : Eval β} {k : α → Eval γ} {l : β → Eval δ} (hpost : stillBranches.Upholds post x)
    (hx : SucceedsAs g x y) (hk : ∀ a, post a → SucceedsAs g' (k a) (l (g a))) :
    SucceedsAs g' (x >>= k) (y >>= l) := by
  intro m hm c m₂ hc
  obtain ⟨a, m₁, ha, hc⟩ := bind_eq_ok.mp hc
  have hends := hpost m hm
  rw [ha] at hends
  rw [bind_of_ok (hx m hm a m₁ ha)]
  exact hk a hends.1 m₁ hends.2 c m₂ hc

theorem succeedsAs_inScope {g : α → β} (id : ScopeId) {x : Eval α} {y : Eval β}
    (h : SucceedsAs g x y) : SucceedsAs g (Eval.inScope id x) (Eval.inScope id y) := by
  intro m hm a m' ha
  rw [inScope_eq] at ha ⊢
  obtain ⟨m₁, hx, hm'⟩ := leaving_eq_ok.mp ha
  rw [h { m with scope := id } hm a m₁ hx]
  exact congrArg _ hm'

theorem succeedsAs_activate {g : α → β} (limit : Option Nat) (paren : Token) {x : Eval α}
    {y : Eval β} (h : SucceedsAs g x y) :
    SucceedsAs g (Eval.activate limit paren x) (Eval.activate limit paren y) := by
  intro m hm a m' ha
  cases hroom : limit.any (· ≤ m.depth) with
  | true => rw [activate_full hroom] at ha; cases ha
  | false =>
    rw [activate_eq hroom] at ha ⊢
    obtain ⟨m₁, hx, hm'⟩ := leaving_eq_ok.mp ha
    rw [h m.enter hm a m₁ hx]
    exact congrArg _ hm'

/-- A conditional expression whose branches leave the machine alone. -/
theorem succeedsAs_ternary {t f t' f' : Eval Value} (c : Bool) (ht : Idles t) (hf : Idles f)
    (hts : SucceedsAs id t t') (hfs : SucceedsAs id f f') :
    SucceedsAs id (do let a ← t; let b ← f; pure (if c then a else b)) (if c then t' else f') := by
  intro m hm v m₃ hrun
  obtain ⟨a, m₁, ha, hrest⟩ := bind_eq_ok.mp hrun
  obtain ⟨b, m₂, hb, hv⟩ := bind_eq_ok.mp hrest
  clear hrun hrest
  -- All machines on the way are the one at the start.
  have hm₁ : m₁ = m := by
    have := ht m
    rwa [ha] at this
  subst hm₁
  have hm₂ : m₂ = m₁ := by
    have := hf m₁
    rwa [hb] at this
  subst hm₂
  cases hv
  cases c with
  | true => exact hts _ hm _ _ ha
  | false => exact hfs _ hm _ _ hb

/-! ## Runs under both rules -/

/-- The recorded run keeps to such functions, and the other run succeeds as it does. -/
structure Accords (post : α → Prop) (g : α → β) (x : Recorded α) (y : Eval β) : Prop where
  sustains : stillBranches.Sustains post x
  succeeds : SucceedsAs g x.run y

section Accord

variable {γ δ : Type} {post : α → Prop} {g : α → β} {x : Recorded α} {y : Eval β}

/-- The same step in both runs. -/
theorem Accords.step {x : Eval α} (h : stillBranches.Sustains post (.step x)) :
    Accords post id (.step x) x := ⟨h, .refl x⟩

theorem Accords.held {post : Value → Prop} {x : Eval Value}
    (h : stillBranches.Sustains post (recording.held x)) :
    Accords post id (recording.held x) x := by
  refine ⟨h, ?_⟩
  rw [run_held]
  exact .refl x

theorem Accords.bind {post' : γ → Prop} {g' : γ → δ} {k : α → Recorded γ} {l : β → Eval δ}
    (hx : Accords post g x y) (hk : ∀ a, post a → Accords post' g' (k a) (l (g a))) :
    Accords post' g' (x >>= k) (y >>= l) :=
  ⟨Standard.sustains_bind hx.sustains fun a ha => (hk a ha).sustains,
    succeedsAs_bind hx.sustains.upholds hx.succeeds fun a ha => (hk a ha).succeeds⟩

theorem Accords.enclosed {post : Course Value → Prop} {g : Course Value → β} (place : Place)
    (outer : ScopeId) {bs : List (String × Value)} {x : Recorded (Course Value)} {y : Eval β}
    (hbs : ∀ b ∈ bs, stillBranches.value b.2) (hx : Accords post g x y) :
    Accords post g (recording.enclosed place outer bs x)
      (do let id ← Eval.enclose outer bs; Eval.inScope id y) :=
  Accords.bind (Accords.step (Standard.sustains_step (Standard.upholds_enclose outer hbs)))
    fun id _ => ⟨Standard.sustains_inScope id hx.sustains, succeedsAs_inScope id hx.succeeds⟩

end Accord

theorem rules_accord (cfg : Setting) :
    recording.Rules stillBranches.Part
      (fun _ vs _ _ f g x y => (∀ v ∈ vs, stillBranches.value v) →
        Accords (fun a => ∀ v ∈ f a, stillBranches.value v) g x y)
      (cfg.choosing .eager) (cfg.choosing .selected) := by
  have hS := Standard.rules kept_stillBranches (cfg.choosing .eager)
  exact {
    exprPart := hS.exprPart
    stmtPart := hS.stmtPart
    bind := fun hx hk hvs => Accords.bind (hx hvs) fun a ha =>
      hk a (List.forall_mem_append.mpr ⟨ha, hvs⟩)
    pure := fun {_ _ _ _ _ g _} h hvs =>
      ⟨hS.pure (c := ()) (g := g) h hvs, fun m hm a m' ha => by cases ha; rfl⟩
    outOfFuel := fun {_ _ _ _ _ g} hvs =>
      ⟨hS.outOfFuel (c := ()) (g := g) hvs, fun m hm a m' ha => by cases ha⟩
    atExpr := fun he h hvs =>
      ⟨Standard.sustains_starting he (h hvs).sustains, (h hvs).succeeds⟩
    atStmt := fun hs h hvs =>
      ⟨Standard.sustains_starting hs (h hvs).sustains, (h hvs).succeeds⟩
    atCall := fun _ _ h => h
    literal := fun h hvs => ⟨hS.literal h hvs, .refl _⟩
    unary := fun h hr hvs => Accords.held (hS.unary h hr hvs)
    binary := fun h hl hr hvs => Accords.held (hS.binary h hl hr hvs)
    ternary := fun {_ vs place _ _ t f fuel condition} h ht hf hvs => by
      obtain ⟨⟨hst, hsf⟩, -⟩ := h
      have hidle : ∀ place e, e.Still →
          Idles (recording.evaluate (cfg.choosing .eager) fuel place e).run := by
        intro place e he
        rw [runs_evaluate]
        exact evaluate_still _ _ he
      refine ⟨(Standard.sequential kept_stillBranches).branches_alone .eager condition () vs
        (fun vs hvs => (ht vs hvs).sustains) (fun vs hvs => (hf vs hvs).sustains) hvs, ?_⟩
      exact succeedsAs_ternary condition (hidle _ t hst) (hidle _ f hsf) (ht vs hvs).succeeds
        (hf vs hvs).succeeds
    name := fun h hvs => Accords.step (hS.name h hvs)
    assign := fun h hv hvs => Accords.step (hS.assign h hv hvs)
    notCallable := fun h hvs => Accords.step (hS.notCallable h hvs)
    badArity := fun h harity hvs => Accords.step (hS.badArity h harity hvs)
    activate := fun {_ _ _ _ _ _ _ _ _ _ _ y} h hv hf hargs hx hvs =>
      ⟨hS.activate (y := y) h hv hf hargs (fun hvs => (hx hvs).sustains) hvs,
        succeedsAs_activate _ _ (hx hvs).succeeds⟩
    clock := fun hvs => Accords.held (hS.clock (c := ()) hvs)
    apply := fun {_ _ v id d closure args _ _} hv hf hargs hx hvs => by
      obtain rfl : v = .callable id (.function d closure) := hf
      have hbs : ∀ b ∈ (d.params.map Token.lexeme).zip args, stillBranches.value b.2 :=
        fun b hb => hvs b.2 (hargs b.2 (List.of_mem_zip hb).2)
      have hbody := Standard.body_of_forall (kept_stillBranches.body (hvs _ hv))
      rw [map_value]
      exact Accords.enclosed [] closure hbs (hx () [] (hbody [] 0) (List.forall_mem_nil _))
    print := fun hvs => Accords.step (hS.print (c := ()) hvs)
    define := fun h hs hv hvs => Accords.step (hS.define h hs hv hvs)
    close := fun h hvs => Accords.step (hS.close h hvs)
    block := fun {_ _ place _ _ _} h hx hvs => by
      have hbody := Standard.body_of_forall (kept_stillBranches.stmtParts h) place 0
      exact Accords.bind (Accords.step (Standard.sustains_step Standard.upholds_scope))
        fun outer _ => Accords.enclosed place outer (List.forall_mem_nil _)
          (hx () hbody (List.forall_mem_nil _)) }

theorem succeedsAs_interpret (cfg : Setting) (fuel : Nat) {p : Program}
    (hp : ∀ s ∈ p, s.Everywhere Stmt.StillBranches) :
    SucceedsAs id (interpret (cfg.choosing .eager) fuel p)
      (interpret (cfg.choosing .selected) fuel p) := by
  have h := (rules_accord cfg).interpret fuel [] (Standard.body_of_forall hp [] 0)
    (List.forall_mem_nil _)
  rw [← runs_interpret _ fuel [] 0 p]
  exact h.succeeds

/-- A program in which no branch of a conditional expression contains a call or an assignment,
in functions neither: if it ends without an error when both branches are evaluated, then it
ends with the very same machine, its output and its variables included, when only the branch
that is picked is evaluated. And an expression without calls and assignments leaves the
machine as it is under either rule, whether it has a value or not. -/
theorem branches_unseen (cfg : Setting) :
    (∀ p, Stmt.EverywhereAll Stmt.StillBranches p → ∀ fuel m,
      interpret (cfg.choosing .eager) fuel p Machine.initial = .ok () m →
      interpret (cfg.choosing .selected) fuel p Machine.initial = .ok () m) ∧
    ∀ e : Expr, e.Still → ∀ rule fuel m, after (evaluate (cfg.choosing rule) fuel e m) = m := by
  refine ⟨fun p hp fuel m hrun => ?_, fun e he rule fuel => evaluate_still _ fuel he⟩
  have hinitial : stillBranches.Meets Machine.initial.store :=
    Standard.meets_initial ⟨trivial, List.forall_mem_nil _⟩
  exact succeedsAs_interpret cfg fuel (Stmt.everywhereAll_iff.mp hp) _ hinitial () m hrun

/-- A function that picks between its arguments, called in the condition of another conditional
expression. -/
theorem branches_unseen_nested :
    let cfg : Setting := { clock := fun _ => 0 }
    let source := "fun pick(a, b) \x7b return a ? b : a == b; \x7d\n" ++
      "print pick(pick, nil) ? \"yes\" : pick;"
    ∃ p m, (Session.analyze source).2 = some p ∧ m.printed = #["<fn pick>"] ∧
      interpret (cfg.choosing .eager) 20 p Machine.initial = .ok () m ∧
      interpret (cfg.choosing .selected) 20 p Machine.initial = .ok () m := by
  intro cfg source
  obtain ⟨p, hp⟩ := Option.isSome_iff_exists.mp
    (show (Session.analyze source).2.isSome = true by decide +kernel)
  have hstill : ∀ q ∈ (Session.analyze source).2, Stmt.EverywhereAll Stmt.StillBranches q := by
    decide +kernel
  have hrun : ((Session.analyze source).2.map fun p =>
      match interpret (cfg.choosing .eager) 20 p Machine.initial with
      | .ok _ m => some m.printed
      | .error _ _ => none) = some (some #["<fn pick>"]) := by decide +kernel
  rw [hp, Option.map_some, Option.some.injEq] at hrun
  cases hr : interpret (cfg.choosing .eager) 20 p Machine.initial with
  | error e m =>
    rw [hr] at hrun
    cases hrun
  | ok a m =>
    rw [hr] at hrun
    exact ⟨p, m, hp, Option.some.inj hrun, hr,
      (branches_unseen cfg).1 p (hstill p hp) 20 m hr⟩

end Treewalk
