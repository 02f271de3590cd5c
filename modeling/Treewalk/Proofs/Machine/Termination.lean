import Treewalk.Proofs.Machine.CallLimit
import Treewalk.Proofs.Machine.Control
import Treewalk.Proofs.Machine.Operating

/-!
# Only loops run forever

A call runs the body of whatever function it finds, so a run does not follow the tree of
its program. But every call leaves room for one call less below the limit, and between
two calls a run without loops goes down the tree. So it ends, by induction on the room
that is left and, for the same room, on the tree.

Results:

* `Settling.execute`: statements without loops end if calls from them do.
* `calls_settle`: calls end.
* `loopFree_ends`: programs without loops end, in every session that has run no others.
-/
namespace Treewalk

/-! ## Enough fuel -/

variable {α β : Type}

/-- With enough fuel the computation ends, always in the same way. -/
def Settles (x : Nat → Eval α) (m : Machine) : Prop :=
  ∃ enough r, (∀ fuel, enough ≤ fuel → x fuel m = r) ∧ ∀ m', r ≠ .error .outOfFuel m'

theorem settles_const {x : Eval α} {m : Machine} (h : ∀ m', x m ≠ .error .outOfFuel m') :
    Settles (fun _ => x) m := ⟨0, x m, fun _ _ => rfl, h⟩

theorem settles_shift {x : Nat → Eval α} {m : Machine} (h : Settles (fun fuel => x (fuel + 1)) m) :
    Settles x m := by
  obtain ⟨n, r, hr, hended⟩ := h
  refine ⟨n + 1, r, fun fuel hfuel => ?_, hended⟩
  obtain ⟨fuel, rfl⟩ : ∃ f, fuel = f + 1 := ⟨fuel - 1, by omega⟩
  exact hr fuel (by omega)

theorem settles_bind {x : Nat → Eval α} {f : Nat → α → Eval β} {m : Machine} (hx : Settles x m)
    (hf : ∀ fuel a m', x fuel m = .ok a m' → Settles (fun fuel => f fuel a) m') :
    Settles (fun fuel => x fuel >>= f fuel) m := by
  obtain ⟨n, r, hr, hended⟩ := hx
  cases r with
  | ok a m₁ =>
    obtain ⟨n', r', hr', hended'⟩ := hf n a m₁ (hr n (Nat.le_refl n))
    refine ⟨max n n', r', fun fuel hfuel => ?_, hended'⟩
    exact (bind_of_ok (hr fuel (by omega))).trans (hr' fuel (by omega))
  | error e m₁ =>
    refine ⟨n, .error e m₁, fun fuel hfuel => bind_of_error (hr fuel hfuel), ?_⟩
    rintro m' ⟨⟩
    exact hended m₁ rfl

/-- Changing the machine at the end changes nothing about whether there is one. -/
theorem settles_leaving (f : Machine → Machine) {x y : Nat → Eval α} {m m₀ : Machine}
    (hx : Settles x m₀) (hy : ∀ fuel, y fuel m = leaving f (x fuel m₀)) : Settles y m := by
  obtain ⟨n, r, hr, hended⟩ := hx
  refine ⟨n, leaving f r, fun fuel hfuel => by rw [hy, hr fuel hfuel], ?_⟩
  cases r with
  | ok a m₁ => exact nofun
  | error e m₁ =>
    rintro m' ⟨⟩
    exact hended m₁ rfl

theorem settles_inScope (id : ScopeId) {x : Nat → Eval α} {m : Machine}
    (hx : Settles x { m with scope := id }) :
    Settles (fun fuel => Eval.inScope id (x fuel)) m :=
  settles_leaving _ hx fun fuel => inScope_eq id (x fuel) m

theorem settles_activate {limit : Nat} (paren : Token) {x : Nat → Eval α} {m : Machine}
    (hx : m.depth < limit → Settles x m.enter) :
    Settles (fun fuel => Eval.activate (some limit) paren (x fuel)) m := by
  by_cases hroom : m.depth < limit
  · have hopen : (some limit).any (fun l => decide (l ≤ m.depth)) = false := by simpa using hroom
    exact settles_leaving _ (hx hroom) fun fuel => activate_eq hopen paren (x fuel)
  · have hfull : (some limit).any (fun l => decide (l ≤ m.depth)) = true := by simpa using hroom
    exact ⟨0, _, fun fuel _ => activate_full hfull paren (x fuel), by rintro m' ⟨⟩⟩

/-! ## Room for calls -/

section Loops

variable {cfg : Setting} {P : Stmt → Prop} {limit room : Nat}

/-- The computation ends on machines whose functions have the property, if there is at
most the given room for calls. -/
def Settling (P : Stmt → Prop) (limit room : Nat) (x : Nat → Eval α) : Prop :=
  ∀ m : Machine, (operating P).Meets m.store → limit ≤ m.depth + room → Settles x m

/-- Calls of functions with the property end. -/
def CallsSettle (cfg : Setting) (P : Stmt → Prop) (limit room : Nat) : Prop :=
  ∀ {id c} paren {args}, (operating P).value (.callable id c) →
    (∀ v ∈ args, (operating P).value v) →
    Settling P limit room fun fuel => call cfg fuel c paren args

namespace Settling

theorem const {x : Eval α} (h : ∀ m m', x m ≠ .error .outOfFuel m') :
    Settling P limit room fun _ => x := fun m _ _ => settles_const (h m)

theorem pure (a : α) : Settling P limit room fun _ => (Pure.pure a : Eval α) := const nofun

theorem shift {x : Nat → Eval α} (h : Settling P limit room fun fuel => x (fuel + 1)) :
    Settling P limit room x := fun m hm hroom => settles_shift (h m hm hroom)

theorem bind {post : α → Prop} {x : Nat → Eval α} {f : Nat → α → Eval β}
    (hx : Settling P limit room x) (hu : ∀ fuel, (operating P).Upholds post (x fuel))
    (hr : ∀ fuel, Preserves Restores (x fuel))
    (hf : ∀ a, post a → Settling P limit room fun fuel => f fuel a) :
    Settling P limit room fun fuel => x fuel >>= f fuel := by
  intro m hm hroom
  refine settles_bind (hx m hm hroom) fun fuel a m' h => ?_
  have hends := hu fuel m hm
  have hdepth := hr fuel m
  rw [h] at hends hdepth
  exact hf a hends.1 m' hends.2 (by rw [show m'.depth = m.depth from hdepth.2]; exact hroom)

theorem ofExcept {r : Except Stop Value} (h : Answered r) :
    Settling P limit room fun _ => Eval.ofExcept r := by
  refine const fun m m' hm => ?_
  cases r with
  | ok v => cases hm
  | error e =>
    cases hm
    exact h

/-- Binding a name, or printing a line, and going on. -/
theorem step {x : Eval α} {f : Nat → α → Eval β} (h : ∀ m m', x m ≠ .error .outOfFuel m')
    (hu : (operating P).Upholds (fun _ => True) x) (hr : Preserves Restores x)
    (hf : ∀ a, Settling P limit room fun fuel => f fuel a) :
    Settling P limit room fun fuel => x >>= f fuel :=
  bind (const h) (fun _ => hu) (fun _ => hr) fun a _ => hf a

end Settling

/-! ## Expressions -/

/-- What comes after an expression. -/
theorem Settling.afterExpr (hP : ∀ s, P s → s.Operates) {e : Expr}
    (he : e.Everywhere Expr.Operates)
    (hx : Settling P limit room fun fuel => evaluate cfg fuel e) {f : Nat → Value → Eval β}
    (hf : ∀ v, (operating P).value v → Settling P limit room fun fuel => f fuel v) :
    Settling P limit room fun fuel => evaluate cfg fuel e >>= f fuel :=
  hx.bind (fun fuel => (Standard.UpholdsAt.all (kept_operating hP) fuel).evaluate he)
    (fun fuel => (PreservesAt.all restores_moves fuel).evaluate e) hf

/-- What comes after arguments. -/
theorem Settling.afterExprs (hP : ∀ s, P s → s.Operates) {es : List Expr}
    (hes : Expr.EverywhereAll Expr.Operates es)
    (hx : Settling P limit room fun fuel => evaluateAll cfg fuel es)
    {f : Nat → List Value → Eval β}
    (hf : ∀ vs, (∀ v ∈ vs, (operating P).value v) → Settling P limit room fun fuel => f fuel vs) :
    Settling P limit room fun fuel => evaluateAll cfg fuel es >>= f fuel :=
  hx.bind (fun fuel => (Standard.UpholdsAt.all (kept_operating hP) fuel).evaluateAll
      (Expr.everywhereAll_iff.mp hes))
    (fun fuel => (PreservesAt.all restores_moves fuel).evaluateAll es) hf

mutual

/-- Expressions end if calls from them do. -/
theorem Settling.evaluate (hP : ∀ s, P s → s.Operates)
    (hcall : CallsSettle cfg P limit room) :
    (e : Expr) → e.Everywhere Expr.Operates →
      Settling P limit room fun fuel => Treewalk.evaluate cfg fuel e
  | .literal l, _ => .shift (.pure _)
  | .grouping inner, he => .shift (Settling.evaluate hP hcall inner he.2)
  | .unary op right, he => by
    refine .shift (.afterExpr hP he.2 (Settling.evaluate hP hcall right he.2) fun v _ => ?_)
    exact .ofExcept (unary_answered he.1 v)
  | .binary left op right, he => by
    refine .shift (.afterExpr hP he.2.1 (Settling.evaluate hP hcall left he.2.1) fun l _ => ?_)
    refine .afterExpr hP he.2.2 (Settling.evaluate hP hcall right he.2.2) fun r _ => ?_
    exact .ofExcept (binary_answered he.1 l r)
  | .logical left op right, he => by
    refine .shift (.afterExpr hP he.2.1 (Settling.evaluate hP hcall left he.2.1) fun l _ => ?_)
    split
    · exact .pure l
    · exact Settling.evaluate hP hcall right he.2.2
  | .ternary op c t f, he => by
    have ht := Settling.evaluate hP hcall t he.2.2.1
    have hf := Settling.evaluate hP hcall f he.2.2.2
    refine .shift (.afterExpr hP he.2.1 (Settling.evaluate hP hcall c he.2.1) fun v _ => ?_)
    split
    · exact .afterExpr hP he.2.2.1 ht fun a _ => .afterExpr hP he.2.2.2 hf fun b _ => .pure _
    · split
      · exact ht
      · exact hf
  | .name t, _ => by
    refine .shift (.const fun m m' h => ?_)
    change Eval.get t m = _ at h
    unfold Eval.get at h
    split at h <;> cases h
  | .assign t value, he => by
    refine .shift (.afterExpr hP he.2 (Settling.evaluate hP hcall value he.2) fun v hv => ?_)
    refine .step (fun m m' h => ?_) (Standard.upholds_assign trivial hv)
      (preserves_step restores_moves (.assign t v)) fun _ => .pure v
    unfold Eval.assign at h
    split at h <;> cases h
  | .call callee paren args, he => by
    refine .shift (.afterExpr hP he.2.1 (Settling.evaluate hP hcall callee he.2.1) fun v hv => ?_)
    refine .afterExprs hP he.2.2 (Settling.evaluateAll hP hcall args he.2.2) fun vs hvs => ?_
    cases v with
    | callable id c => exact hcall paren hv hvs
    | _ => exact .const nofun

theorem Settling.evaluateAll (hP : ∀ s, P s → s.Operates)
    (hcall : CallsSettle cfg P limit room) :
    (es : List Expr) → Expr.EverywhereAll Expr.Operates es →
      Settling P limit room fun fuel => Treewalk.evaluateAll cfg fuel es
  | [], _ => .shift (.pure _)
  | e :: es, hes => by
    refine .shift (.afterExpr hP hes.1 (Settling.evaluate hP hcall e hes.1) fun v _ => ?_)
    exact .afterExprs hP hes.2 (Settling.evaluateAll hP hcall es hes.2) fun vs _ => .pure _

end

/-! ## Statements -/

theorem Settling.scoped (id : ScopeId) {x : Nat → Eval α} (h : Settling P limit room x) :
    Settling P limit room fun fuel => Eval.inScope id (x fuel) :=
  fun m hm hroom => settles_inScope id (h { m with scope := id } hm hroom)

/-- Code in a new scope that holds the given bindings. -/
theorem Settling.enclosed (outer : ScopeId) {bindings : List (String × Value)}
    (hbs : ∀ b ∈ bindings, (operating P).value b.2) {f : Nat → ScopeId → Eval β}
    (hf : ∀ id, Settling P limit room fun fuel => f fuel id) :
    Settling P limit room fun fuel => Eval.enclose outer bindings >>= f fuel :=
  .step nofun (Standard.upholds_enclose outer hbs) (preserves_step restores_moves (.enclose outer _))
    hf

/-- A name that is bound, and nothing after it. -/
theorem Settling.defined (name : String) {v : Value} (hv : (operating P).value v) :
    Settling P limit room fun _ => do
      Eval.define name v
      return Flow.normal :=
  .step nofun (Standard.upholds_define name hv) (preserves_step restores_moves (.define name v))
    fun _ => .pure _

/-- What comes after a statement. -/
theorem Settling.afterStmt (hP : ∀ s, P s → s.Operates) {s : Stmt} (hs : s.Everywhere P)
    (hx : Settling P limit room fun fuel => execute cfg fuel s) {f : Nat → Flow → Eval β}
    (hf : ∀ r, Settling P limit room fun fuel => f fuel r) :
    Settling P limit room fun fuel => execute cfg fuel s >>= f fuel :=
  hx.bind (fun fuel => (Standard.UpholdsAt.all (kept_operating hP) fuel).execute hs)
    (fun fuel => (PreservesAt.all restores_moves fuel).execute s) fun r _ => hf r

mutual

/-- Statements without loops end if calls from them do. -/
theorem Settling.execute (hP : ∀ s, P s → s.Operates) (hstraight : ∀ s, P s → s.Straight)
    (hcall : CallsSettle cfg P limit room) : (s : Stmt) → s.Everywhere P →
      Settling P limit room fun fuel => Treewalk.execute cfg fuel s
  | .expr e, hs => by
    have he := hP _ hs e List.mem_cons_self
    exact .shift (.afterExpr hP he (Settling.evaluate hP hcall e he) fun _ _ => .pure _)
  | .print e, hs => by
    have he := hP _ hs e List.mem_cons_self
    refine .shift (.afterExpr hP he (Settling.evaluate hP hcall e he) fun v _ => ?_)
    exact .step nofun (Standard.upholds_printLine v.text)
      (preserves_step restores_moves (.printLine v.text)) fun _ => .pure _
  | .var name none, _ => .shift (.defined name.lexeme (kept_operating hP).nil)
  | .var name (some e), hs => by
    have he := hP _ hs e List.mem_cons_self
    exact .shift (.afterExpr hP he (Settling.evaluate hP hcall e he) fun v hv =>
      .defined name.lexeme hv)
  | .block body, hs => by
    refine .shift ?_
    refine .step nofun Standard.upholds_scope (preserves_step restores_moves .scope) fun outer => ?_
    exact .enclosed outer (List.forall_mem_nil _) fun id =>
      .scoped id (Settling.executeAll hP hstraight hcall body hs.2)
  | .ifThen c t, hs => by
    have hc := hP _ hs.1 c List.mem_cons_self
    refine .shift (.afterExpr hP hc (Settling.evaluate hP hcall c hc) fun v _ => ?_)
    split
    · exact Settling.execute hP hstraight hcall t hs.2
    · exact .pure _
  | .ifElse c t f, hs => by
    have hc := hP _ hs.1 c List.mem_cons_self
    refine .shift (.afterExpr hP hc (Settling.evaluate hP hcall c hc) fun v _ => ?_)
    split
    · exact Settling.execute hP hstraight hcall t hs.2.1
    · exact Settling.execute hP hstraight hcall f hs.2.2
  | .whileLoop c body, hs => (hstraight _ hs.1).elim
  | .function name params body, hs => by
    have hupholds : (operating P).Upholds (operating P).value (Eval.close ⟨name, params, body⟩) :=
      fun m hm => ⟨hs.2, hm⟩
    exact .shift (.bind (.const nofun) (fun _ => hupholds)
      (fun _ => preserves_step restores_moves (.close _)) fun v hv => .defined name.lexeme hv)
  | .ret _ none, _ => .shift (.pure _)
  | .ret _ (some e), hs => by
    have he := hP _ hs e List.mem_cons_self
    exact .shift (.afterExpr hP he (Settling.evaluate hP hcall e he) fun v _ => .pure _)

theorem Settling.executeAll (hP : ∀ s, P s → s.Operates) (hstraight : ∀ s, P s → s.Straight)
    (hcall : CallsSettle cfg P limit room) : (ss : List Stmt) → Stmt.EverywhereAll P ss →
      Settling P limit room fun fuel => Treewalk.executeAll cfg fuel ss
  | [], _ => .shift (.pure _)
  | s :: ss, hss => by
    have hs := Settling.execute hP hstraight hcall s hss.1
    refine .shift (.afterStmt hP hss.1 hs fun r => ?_)
    cases r with
    | returned v => exact .pure _
    | normal => exact Settling.executeAll hP hstraight hcall ss hss.2

end

/-! ## Calls -/

/-- A call ends if the bodies of functions end in the room it leaves. -/
theorem call_settles (hP : ∀ s, P s → s.Operates) (hlimit : cfg.callLimit = some limit)
    (hbody : ∀ room', room = room' + 1 → ∀ body, Stmt.EverywhereAll P body →
      Settling P limit room' fun fuel => executeAll cfg fuel body) :
    CallsSettle cfg P limit room := by
  intro id c paren args hc hargs
  refine .shift ?_
  intro m hm hroom
  unfold call
  split
  · exact settles_const (by rintro m' ⟨⟩)
  · rw [hlimit]
    refine settles_activate paren fun hopen => ?_
    -- There was room for this call, so the body has room for one call less.
    obtain ⟨room', rfl⟩ : ∃ room', room = room' + 1 := ⟨room - 1, by omega⟩
    cases c with
    | clock => exact settles_const (by rintro m' ⟨⟩)
    | function d closure =>
      have hrun := hbody room' rfl d.body hc
      have hbindings : ∀ b ∈ (d.params.map Token.lexeme).zip args, (operating P).value b.2 :=
        fun b hb => hargs b.2 (List.of_mem_zip hb).2
      have hdepth : limit ≤ m.depth + 1 + room' := by omega
      refine Settling.enclosed closure hbindings (fun id => ?_) _ hm hdepth
      refine .bind (.scoped id hrun)
        (fun fuel => Standard.upholds_inScope id
          ((Standard.UpholdsAt.all (kept_operating hP) fuel).executeAll
            (Stmt.everywhereAll_iff.mp hc)))
        (fun fuel => preserves_inScope restores_moves id
          ((PreservesAt.all restores_moves fuel).executeAll d.body)) fun r _ => ?_
      cases r with
      | returned v => exact .pure v
      | normal => exact .pure Value.nil

/-- Calls end, whatever room there is for them. -/
theorem calls_settle (hP : ∀ s, P s → s.Operates) (hstraight : ∀ s, P s → s.Straight)
    (hlimit : cfg.callLimit = some limit) : ∀ room, CallsSettle cfg P limit room
  | 0 => call_settles hP hlimit fun _ h => (Nat.succ_ne_zero _ h.symm).elim
  | room + 1 => by
    refine call_settles hP hlimit fun room' hroom body hbody => ?_
    cases hroom
    exact .executeAll hP hstraight (calls_settle hP hstraight hlimit room) body hbody

theorem Settling.interpret (hP : ∀ s, P s → s.Operates) (hstraight : ∀ s, P s → s.Straight)
    (hlimit : cfg.callLimit = some limit) (p : Program) (hp : Stmt.EverywhereAll P p) :
    Settling P limit room fun fuel => Treewalk.interpret cfg fuel p := by
  have hcall : CallsSettle cfg P limit room := calls_settle hP hstraight hlimit room
  induction p with
  | nil => exact .pure ()
  | cons s ss ih =>
    refine .afterStmt hP hp.1 (.execute hP hstraight hcall s hp.1) fun r => ?_
    cases r with
    | returned v => exact .pure ()
    | normal => exact ih hp.2

theorem Settling.echo (hP : ∀ s, P s → s.Operates) (hstraight : ∀ s, P s → s.Straight)
    (hlimit : cfg.callLimit = some limit) (p : Program) (hp : Stmt.EverywhereAll P p) :
    Settling P limit room fun fuel => Session.echo cfg fuel p := by
  unfold Session.echo
  split
  · rename_i e
    have he := hP _ hp.1 e List.mem_cons_self
    have hcall : CallsSettle cfg P limit room := calls_settle hP hstraight hlimit room
    exact .afterExpr hP he (.evaluate hP hcall e he) fun v _ => .const nofun
  · exact .interpret hP hstraight hlimit _ hp

end Loops

/-! ## Sessions -/

/-- The run ended with success or a run-time error. -/
def Concluded : EStateM.Result Stop Machine Unit → Prop
  | .ok _ _ | .error (.error _) _ => True
  | .error _ _ => False

theorem Settling.concludes {P : Stmt → Prop} {limit : Nat} {x : Nat → Eval Unit} {m : Machine}
    (h : Settling P limit limit x) (hu : ∀ fuel, (operating P).Upholds (fun _ => True) (x fuel))
    (hm : (operating P).Meets m.store) : ∃ fuel, Concluded (x fuel m) := by
  obtain ⟨n, r, hr, hended⟩ := h m hm (Nat.le_add_left _ _)
  have hends := hu n m hm
  refine ⟨n, ?_⟩
  rw [hr n (Nat.le_refl n)] at hends ⊢
  cases r with
  | ok a m' => trivial
  | error e m' =>
    cases e with
    | error e => trivial
    | malformed t => exact hends.1
    | outOfFuel => exact hended m' rfl

theorem Concluded.ne_outOfFuel {r : EStateM.Result Stop Machine Unit} (h : Concluded r)
    (m : Machine) : r ≠ .error .outOfFuel m := by
  rintro rfl
  exact h

/-- A step ends if the program that it runs does. -/
theorem step_concludes {action : Nat → Program → Eval Unit} {s : Session} {source : String}
    (h : ∀ p, s.Executes source p → ∃ fuel, Concluded (action fuel p s.machine)) :
    ∃ fuel r t, s.step (action fuel) source = some (r, t) := by
  unfold Session.step
  split
  · rename_i p hp
    by_cases hflag : s.hadError = true
    · exact ⟨0, _, _, if_pos hflag⟩
    · obtain ⟨fuel, hends⟩ := h p ⟨Bool.eq_false_iff.mpr hflag, hp⟩
      refine ⟨fuel, ?_⟩
      rw [if_neg hflag]
      unfold Session.finish
      split
      · exact ⟨_, _, rfl⟩
      · exact ⟨_, _, rfl⟩
      · rename_i e m hne heq
        rw [heq] at hends
        cases e with
        | error e => exact (hne e rfl).elim
        | _ => exact hends.elim
  · exact ⟨0, _, _, rfl⟩

/-- No loop, and operators in order. -/
def Stmt.Orderly (s : Stmt) : Prop := s.Straight ∧ s.Operates

/-- A text without syntax errors is in order, so its loops decide. -/
theorem orderly_of_loopFree {source : String} {p : Program}
    (hp : Session.analyze source = ([], some p)) (h : Program.LoopFree p) :
    Stmt.EverywhereAll Stmt.Orderly p :=
  h.and (parse_operates (analyze_eq.mp hp).2)

theorem Session.ReachedBy.orderly {cfg : Setting} {s : Session}
    (h : s.ReachedBy cfg Program.LoopFree) :
    s.ReachedBy cfg (Stmt.EverywhereAll Stmt.Orderly) := by
  induction h with
  | initial => exact .initial
  | reset _ ih => exact .reset ih
  | run _ executed step ih =>
    exact .run ih (fun p hp => orderly_of_loopFree hp.2 (executed p hp)) step
  | runLine _ executed step ih =>
    exact .runLine ih (fun p hp => orderly_of_loopFree hp.2 (executed p hp)) step

/-- In a session whose programs so far had no loops, every program without loops ends with
success or a run-time error, whatever its functions call. So scripts and lines that run such
programs end. A text has a loop exactly if `while` or `for` stands in it. -/
theorem loopFree_ends {cfg : Setting} {limit : Nat} (hlimit : cfg.callLimit = some limit)
    {s : Session} (hs : s.ReachedBy cfg Program.LoopFree) :
    (∀ p, Program.LoopFree p → Stmt.EverywhereAll Stmt.Operates p →
      ∃ r, Finishes cfg p s.machine r ∧ Concluded r) ∧
    (∀ source, (∀ p, s.Executes source p → Program.LoopFree p) →
      ∃ fuel r t, s.run cfg fuel source = some (r, t)) ∧
    (∀ source, (∀ p, s.reset.Executes source p → Program.LoopFree p) →
      ∃ fuel r t, s.runLine cfg fuel source = some (r, t)) ∧
    ∀ tokens p, parse tokens = .ok p → Stmt.EverywhereAll Stmt.Operates p ∧
      (Program.LoopFree p ↔ ∀ t ∈ programTokens tokens, t.kind ≠ .whileKw ∧ t.kind ≠ .forKw) := by
  have hP : ∀ s : Stmt, s.Orderly → s.Operates := fun _ h => h.2
  have hstraight : ∀ s : Stmt, s.Orderly → s.Straight := fun _ h => h.1
  have hmeets := reached_meets hP hs.orderly
  have hinterpret : ∀ p, Stmt.EverywhereAll Stmt.Orderly p →
      ∃ fuel, Concluded (interpret cfg fuel p s.machine) := fun p hp =>
    (Settling.interpret hP hstraight hlimit p hp).concludes
      (fun fuel => Standard.upholds_interpret (kept_operating hP) cfg fuel
        (Stmt.everywhereAll_iff.mp hp)) hmeets
  refine ⟨fun p hloops hoperates => ?_, fun source hsource => ?_, fun source hsource => ?_,
    fun tokens p hp => ⟨parse_operates hp, ?_⟩⟩
  · obtain ⟨fuel, hends⟩ := hinterpret p (hloops.and hoperates)
    exact ⟨_, ⟨⟨fuel, rfl⟩, hends.ne_outOfFuel⟩, hends⟩
  · exact step_concludes fun p hp => hinterpret p (orderly_of_loopFree hp.2 (hsource p hp))
  · refine step_concludes (s := s.reset) fun p hp => ?_
    have horderly := orderly_of_loopFree hp.2 (hsource p hp)
    exact (Settling.echo hP hstraight hlimit p horderly).concludes
      (fun fuel => upholds_echo hP fuel horderly) hmeets
  · rw [parse_loopFree_iff hp]
    simp [Grammar.Loopless, Kind.isLoop]

/-- A function that calls its argument is declared in one step and called with itself in the
next one. -/
theorem loopFree_ends_self_application :
    let cfg : Setting := { clock := fun _ => 0 }
    let declared := "fun apply(f) \x7b f(f); \x7d"
    ∃ fuel r s, Session.initial.run cfg fuel declared = some (r, s) ∧
      ∃ fuel' r' t, s.run cfg fuel' "apply(apply);" = some (r', t) := by
  intro cfg declared
  have hfree : ∀ source : String,
      Grammar.Loopless (programTokens (scan source).tokens) →
      ∀ (s : Session) (p : Program), s.Executes source p → Program.LoopFree p :=
    fun source h s p hp => (parse_loopFree_iff (analyze_eq.mp hp.2).2).mpr h
  have hdeclared := hfree declared (by unfold Grammar.Loopless; decide +kernel)
  have happlied := hfree "apply(apply);" (by unfold Grammar.Loopless; decide +kernel)
  have hlimit : cfg.callLimit = some 1024 := rfl
  obtain ⟨fuel, r, s, hrun⟩ :=
    (loopFree_ends hlimit .initial).2.1 declared (hdeclared Session.initial)
  have hs : s.ReachedBy cfg Program.LoopFree := .run .initial (hdeclared _) hrun
  exact ⟨fuel, r, s, hrun, (loopFree_ends hlimit hs).2.1 _ (happlied s)⟩

end Treewalk
