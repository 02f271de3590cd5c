import Treewalk.Proofs.Grammar.Sourced
import Treewalk.Proofs.Machine.Trees
import Treewalk.Proofs.Session.During

/-!
# What errors blame

A function can be called long after the text that declares it was run, so an error can blame a
token of any text that the session has accepted. All trees that a session keeps hold such tokens
only, each of a kind that belongs where it stands, and every error was raised at one expression.

Results:

* `served_sourced`: the functions of a session stem from its texts.
* `Expr.Raises.blames`: what an expression with such tokens blames.
* `reported_error_blames`: every run-time error that a session reports.
-/
namespace Treewalk

open Session

/-! ## Tokens of a session -/

/-- The request has a text without syntax errors, and the token stands in it. -/
def Session.Request.Supplies (request : Request) (t : Token) : Prop :=
  ∃ source, request.text? = some source ∧ flaws source = [] ∧ t ∈ (scan source).tokens

/-- One of the requests that were served supplies the token. -/
def Session.Supplied (log : List Exchange) (t : Token) : Prop := ∃ x ∈ log, x.request.Supplies t

/-- All tokens in trees and function bodies are as `T` says and of the right kind. -/
abbrev sourced (T : Token → Prop) : Standard :=
  .ofTrees (Expr.Sourced T) (Stmt.Sourced T) fun _ => True

section Sourced

variable {T U : Token → Prop}

theorem kept_sourced (T : Token → Prop) : (sourced T).Kept :=
  Standard.kept_ofTrees (fun _ h => h.2) (Value.closed_true _)

theorem Expr.Sourced.imp (h : ∀ t, T t → U t) {e : Expr} (he : e.Sourced T) : e.Sourced U := by
  cases e with
  | literal l => exact Or.imp_right (fun ⟨t, ht, hrest⟩ => ⟨t, h t ht, hrest⟩) he
  | grouping e => trivial
  | _ => exact ⟨h _ he.1, he.2⟩

theorem Stmt.Names.imp (h : ∀ t, T t → U t) {s : Stmt} (hs : s.Names T) : s.Names U := by
  cases s with
  | var name initial | ret keyword value => exact ⟨h _ hs.1, hs.2⟩
  | function name params body => exact fun t ht => ⟨h t (hs t ht).1, (hs t ht).2⟩
  | _ => trivial

theorem Stmt.Sourced.imp (h : ∀ t, T t → U t) {s : Stmt} (hs : s.Sourced T) : s.Sourced U :=
  ⟨hs.1.imp h, fun e he => (hs.2 e he).imp fun _ => Expr.Sourced.imp h⟩

/-- Functions from few texts are functions from more texts. -/
theorem meets_sourced_imp (h : ∀ t, T t → U t) {store : Store} (hm : (sourced T).Meets store) :
    (sourced U).Meets store := by
  intro id name v hv
  exact ⟨trivial, fun s hs => ((hm id name v hv).2 s hs).imp fun _ => Stmt.Sourced.imp h⟩

/-- What is run on a request stems from its text. -/
theorem admits_sourced {request : Request} (h : ∀ t, request.Supplies t → T t) :
    (sourced T).Admits request := by
  intro source p htext hp
  have hflaws : flaws source = [] := by rw [← analyze_fst, hp]
  have hsupplies : ∀ t ∈ (scan source).tokens, request.Supplies t :=
    fun t ht => ⟨source, htext, hflaws, ht⟩
  refine Stmt.everywhereAll_iff.mp (parse_sourced (analyze_eq.mp hp).2 fun t ht => h t ?_)
  exact hsupplies t (List.takeWhile_subset _ ht)

end Sourced

variable {cfg : Setting} {log : List Exchange} {s t : Session} {fuel : Nat}

/-- The functions of a session stem from the texts that it was asked to run. -/
theorem served_sourced (h : Served cfg log s) : (sourced (Supplied log)).Meets s.machine.store := by
  induction h with
  | start => exact Standard.meets_initial ⟨trivial, List.forall_mem_nil _⟩
  | @next log s t fuel request answer before step ih =>
    have hsupplied : ∀ t, request.Supplies t → Supplied (⟨request, answer⟩ :: log) t :=
      fun t ht => ⟨⟨request, answer⟩, List.mem_cons_self, ht⟩
    refine serve_meets (kept_sourced _) ?_ (admits_sourced hsupplied) step
    exact meets_sourced_imp (fun t ⟨x, hx, ht⟩ => ⟨x, List.mem_cons_of_mem _ hx, ht⟩) ih

/-! ## Errors of one expression -/

/-- The token that the error blames is of the kind that this error is about. -/
def RuntimeError.Fits (err : RuntimeError) : Prop :=
  match err.fault with
  | .operandMustBeNumber => err.token.kind = .minus
  | .operandsMustBeNumbers => err.token.kind ∈
      [.minus, .star, .slash, .greater, .greaterEqual, .less, .lessEqual]
  | .invalidAdditionOperands => err.token.kind = .plus
  | .undefinedVariable name => err.token.kind = .identifier ∧ err.token.lexeme = name
  | .badArity expected got => err.token.kind = .rightParen ∧ expected ≠ got
  | .notCallable | .stackOverflow => err.token.kind = .rightParen

theorem binary_error_fits {op : Token} {l r : Value} {err : RuntimeError}
    (hop : op.kind.isBinary = true) (h : Value.binary op l r = .error (.error err)) :
    err.token = op ∧ err.Fits := by
  obtain ⟨hplus, rfl⟩ | ⟨hcomma, hequal, hbangEqual, hplus, rfl⟩ := binary_error h
  · exact ⟨rfl, hplus⟩
  · refine ⟨rfl, ?_⟩
    simp only [Kind.isBinary, hcomma, hequal, hbangEqual, hplus, decide_false, Bool.false_or,
      Bool.or_eq_true, decide_eq_true_eq] at hop
    simp only [RuntimeError.Fits, List.mem_cons, List.not_mem_nil, or_false]
    grind

/-- An expression whose tokens are in order blames one of them, of the right kind. -/
theorem Expr.Raises.blames {T : Token → Prop} {e : Expr} {m : Machine} {err : RuntimeError}
    (h : e.Raises cfg m err) (he : e.Sourced T) : T err.token ∧ err.Fits := by
  cases h with
  | unary operand fails =>
    obtain ⟨hminus, rfl⟩ := unary_error fails
    exact ⟨he.1, hminus⟩
  | binary first second fails =>
    obtain ⟨rfl, hfits⟩ := binary_error_fits he.2 fails
    exact ⟨he.1, hfits⟩
  | name unbound => exact ⟨he.1, he.2, rfl⟩
  | assign assigned unbound => exact ⟨he.1, he.2, rfl⟩
  | notCallable called passed plain => exact he
  | refused called passed refuses =>
    cases refuses with
    | badArity differ => exact ⟨he.1, he.2, differ.symm⟩
    | stackOverflow full => exact he

/-! ## Errors of a step -/

/-- What there is to say about a run-time error that the session reports when it serves the
request. -/
structure Session.Blames (cfg : Setting) (fuel : Nat) (log : List Exchange) (s : Session)
    (request : Request) (err : RuntimeError) : Prop where
  /-- The token stands in the text of this request or of an earlier one. -/
  supplied : request.Supplies err.token ∨ Supplied log err.token
  fits : err.Fits
  /-- The step came to an expression that raised the error. -/
  raised : ∃ z ∈ s.during cfg fuel request, z.Raises cfg err
  /-- A wrong number of arguments is that of a call that the step came to, and it is not how
  many parameters the callable has. -/
  arity : ∀ expected got, err.fault = .badArity expected got → expected ≠ got ∧
    ∃ callee args m, ⟨.expr (.call callee err.token args), m⟩ ∈ s.during cfg fuel request ∧
      args.length = got ∧ ∃ fuel' id c m',
        evaluate cfg fuel' callee m = .ok (.callable id c) m' ∧ c.arity = expected

/-- A wrong number of arguments is raised at a call. -/
theorem Expr.Raises.arity {e : Expr} {m : Machine} {err : RuntimeError} {expected got : Nat}
    (h : e.Raises cfg m err) (herr : err.fault = .badArity expected got) :
    expected ≠ got ∧ ∃ callee args, e = .call callee err.token args ∧ args.length = got ∧
      ∃ fuel' id c m', evaluate cfg fuel' callee m = .ok (.callable id c) m' ∧
        c.arity = expected := by
  cases h with
  | unary operand fails =>
    obtain ⟨-, rfl⟩ := unary_error fails
    cases herr
  | binary first second fails =>
    obtain ⟨-, rfl⟩ | ⟨-, -, -, -, rfl⟩ := binary_error fails <;> cases herr
  | name unbound => cases herr
  | assign assigned unbound => cases herr
  | notCallable called passed plain => cases herr
  | refused called passed refuses =>
    cases refuses with
    | badArity differ =>
      cases herr
      exact ⟨differ.symm, _, _, rfl, rfl, _, _, _, _, called, rfl⟩
    | stackOverflow full => cases herr

/-- Every run-time error that a session reports blames a token of the text that is run, or of
one that was accepted earlier, and the token is of the kind that the error is about. The step
came to the expression that raised it; if the number of arguments is wrong, to a call with that
many arguments of a callable with another number of parameters. -/
theorem reported_error_blames (h : Served cfg log s) {request : Request} {r : Report}
    (hserve : s.serve cfg fuel request = some (.report r, t)) {err : RuntimeError}
    (herr : .runtime err ∈ r.diagnostics) : s.Blames cfg fuel log request err := by
  let T : Token → Prop := fun t => request.Supplies t ∨ Supplied log t
  have hmeets : (sourced T).Meets s.machine.store :=
    meets_sourced_imp (fun _ => .inr) (served_sourced h)
  have hadmits : (sourced T).Admits request := admits_sourced fun _ => .inl
  obtain ⟨z, hz, e, hevent, hraises⟩ := raised_during hserve herr
  obtain ⟨-, hbegins⟩ := holds_during (kept_sourced T) hmeets hadmits hz
  rw [hevent] at hbegins
  have hsourced : e.Sourced T := Expr.Everywhere.self hbegins
  obtain ⟨hsupplied, hfits⟩ := hraises.blames hsourced
  refine ⟨hsupplied, hfits, ⟨z, hz, e, hevent, hraises⟩, fun expected got hfault => ?_⟩
  obtain ⟨hne, callee, args, rfl, hgot, hcallee⟩ := hraises.arity hfault
  refine ⟨hne, callee, args, z.machine, ?_, hgot, hcallee⟩
  rwa [← hevent]

/-- A line calls a function of an earlier script, which calls another one without its argument.
-/
theorem reported_error_blames_earlier_text :
    let cfg : Setting := { clock := fun _ => 0 }
    let script := "fun g(a) \x7b\x7d fun f() \x7b g(); \x7d"
    ∃ log s r t err, (initial.run cfg 9 script).map Prod.snd = some s ∧ Served cfg log s ∧
      s.serve cfg 9 (.line "f();") = some (.report r, t) ∧
      r.diagnostics.map Diagnostic.text = ["Expected 1 arguments but got 0.\n[line 1]"] ∧
      .runtime err ∈ r.diagnostics ∧ s.Blames cfg 9 log (.line "f();") err := by
  intro cfg script
  have hruns : ((initial.run cfg 9 script).bind fun x => (x.2.runLine cfg 9 "f();").map fun y =>
      y.1.diagnostics.map Diagnostic.text) =
        some ["Expected 1 arguments but got 0.\n[line 1]"] := by decide +kernel
  obtain ⟨⟨r₀, s⟩, hs, hruns⟩ := Option.bind_eq_some_iff.mp hruns
  obtain ⟨⟨r, t⟩, hr, htexts⟩ := Option.map_eq_some_iff.mp hruns
  have hfirst : initial.serve cfg 9 (.run script) = some (.report r₀, s) := by rw [serve, hs]; rfl
  have hline : s.serve cfg 9 (.line "f();") = some (.report r, t) := by rw [serve, hr]; rfl
  have hserved : Served cfg [⟨.run script, .report r₀⟩] s := .next .start hfirst
  have hflaws : flaws "f();" = [] := List.isEmpty_iff.mp (by decide +kernel)
  obtain ⟨err, herr⟩ : ∃ err, r.diagnostics = [.runtime err] := by
    obtain ⟨hne, -⟩ | ⟨-, hnone | hone⟩ := (conducts_step hr).diagnostics
    · exact absurd hflaws hne
    · rw [hnone] at htexts
      cases htexts
    · exact hone
  have hmem : .runtime err ∈ r.diagnostics := herr ▸ List.mem_cons_self
  exact ⟨_, s, r, t, err, by rw [hs]; rfl, hserved, hline, htexts, hmem,
    reported_error_blames hserved hline hmem⟩

end Treewalk
