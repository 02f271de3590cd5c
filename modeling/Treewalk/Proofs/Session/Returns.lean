import Treewalk.Proofs.Machine.Activation
import Treewalk.Proofs.Session.Operators

/-!
# Returns in accepted programs

An accepted program has `return`s in function bodies only, and a call takes the `return`s
of its activation away. So control reaches every statement of the program itself, whatever
functions earlier programs have left behind, unless an error stops it.

Results:

* `interpret_eq_forM`: such a program is the sequence of its statements.
* `return_stays_inside`: no `return` leaves a statement of an accepted program, and a call
  has the value of the one in its own activation.
-/
namespace Treewalk

open Scoping

/-- The run has a result as `P` says, stopped with an error of the running program, or is
not over with the fuel it had. -/
def Proper {α : Type} (P : α → Prop) : EStateM.Result Stop Machine α → Prop
  | .ok a _ => P a
  | .error (.error _) _ | .error .outOfFuel _ => True
  | .error (.malformed _) _ => False

theorem Proper.of_ends {α : Type} {P : Stmt → Prop} {post Q : α → Prop}
    {r : EStateM.Result Stop Machine α} (h : (operating P).Ends post r)
    (hr : ∀ a m, r = .ok a m → Q a) : Proper Q r := by
  cases r with
  | ok a m => exact hr a m rfl
  | error e m =>
    cases e with
    | malformed op => exact h.1
    | _ => trivial

variable {cfg : Setting}

/-- Without `return`s outside of functions, a program is the sequence of its statements. -/
theorem interpret_eq_forM (fuel : Nat) {p : Program} (hp : Stmt.RegularAll p false) :
    interpret cfg fuel p = forM p fun s => (do let _ ← execute cfg fuel s; pure ()) := by
  induction p with
  | nil => rfl
  | cons s ss ih =>
    funext m
    rw [interpret, List.forM_cons, bind_assoc]
    cases hs : execute cfg fuel s m with
    | ok r m' =>
      obtain rfl := execute_falls fuel hp.1 m r m' hs
      rw [bind_of_ok hs, bind_of_ok hs]
      exact congrFun (ih hp.2) m'
    | error e m' => rw [bind_of_error hs, bind_of_error hs]

/-- In every session of accepted programs, each statement of a further one ends, if it ends,
with control going on or with an error, also after the statements before it. So the program
runs all its statements unless an error stops it. And the value of a call that succeeds is
that of the one `return` that began in its own activation, or `nil` if none did. -/
theorem return_stays_inside (cfg : Setting) :
    (∀ (inputs : List Input) (input : Input) (fuel : Nat),
      let m := inputs.foldl (fun m input => after (input.run cfg m)) Machine.initial
      (∀ before, before <+: input.program → ∀ s ∈ input.program,
        Proper (· = .normal) (execute cfg fuel s (after (interpret cfg fuel before m)))) ∧
      interpret cfg fuel input.program m =
        (forM input.program fun s => do let _ ← execute cfg fuel s; pure ()) m ∧
      Proper (fun _ => True) (interpret cfg fuel input.program m)) ∧
    ∀ (fuel : Nat) (d : Declaration) (closure : ScopeId) (paren : Token) (args : List Value)
      (m m' : Machine) (v : Value), call cfg fuel (.function d closure) paren args m = .ok v m' →
      (∃ z, returnsAt (m.depth + 1) (duringCall cfg fuel (.function d closure) paren args m) =
        [z] ∧ z.Returns cfg v) ∨
      (returnsAt (m.depth + 1) (duringCall cfg fuel (.function d closure) paren args m) = [] ∧
        v = .nil) := by
  refine ⟨fun inputs input fuel => ?_, fun fuel d closure paren args m m' v h => call_value h⟩
  intro m
  have hkept : (operating Stmt.Operates).Kept := kept_operating fun _ => id
  have hmeets : (operating Stmt.Operates).Meets m.store := meets_inputs cfg inputs
  have hregular := parse_regular input.parsed
  have hoperates := Stmt.everywhereAll_iff.mp (parse_operates input.parsed)
  refine ⟨fun before hbefore s hs => ?_, congrFun (interpret_eq_forM fuel hregular) m, ?_⟩
  · have hpart : ∀ t ∈ before, t.Everywhere Stmt.Operates := fun t ht =>
      hoperates t (hbefore.subset ht)
    have hfurther := (Standard.upholds_interpret hkept cfg fuel hpart).after hmeets
    refine .of_ends ((Standard.UpholdsAt.all hkept fuel).execute (hoperates s hs) _ hfurther) ?_
    exact execute_falls fuel (Stmt.regularAll_iff.mp hregular s hs) _
  · exact .of_ends (Standard.upholds_interpret hkept cfg fuel hoperates m hmeets)
      fun _ _ _ => trivial

/-- A `return` in a loop of a function that has called another one with a `return`. -/
theorem return_stays_inside_nested :
    let cfg : Setting := { clock := fun _ => 0 }
    let source :=
      "fun g() \x7b return \"g\"; \x7d fun f() \x7b g(); while (true) return \"f\"; \x7d f();"
    let paren : Token := ⟨.rightParen, ")", none, 1⟩
    let f : Declaration := ⟨⟨.identifier, "f", none, 1⟩, [],
      [.expr (.call (.name ⟨.identifier, "g", none, 1⟩) paren []),
        .whileLoop (.literal (.bool true))
          (.ret ⟨.returnKw, "return", none, 1⟩ (some (.literal (.string "f"))))]⟩
    ∃ p, parse (scan source).tokens = .ok p ∧
      let m := after (interpret cfg 20 (p.take 2) Machine.initial)
      (∃ s ∈ p, ∃ m', p[2]? = some s ∧ execute cfg 20 s m = .ok .normal m') ∧
      ∃ v m', call cfg 20 (.function f Machine.globals) paren [] m = .ok v m' ∧ v.text = "f" ∧
        ∃ z, returnsAt (m.depth + 1)
          (duringCall cfg 20 (.function f Machine.globals) paren [] m) = [z] ∧
          z.Returns cfg v := by
  intro cfg source paren f
  have hparsed : ((parse (scan source).tokens).toOption.map fun p =>
      let m := after (interpret cfg 20 (p.take 2) Machine.initial)
      (p[2]?.any fun s => (result? (execute cfg 20 s m)).isSome,
        (result? (call cfg 20 (.function f Machine.globals) paren [] m)).map Value.text)) =
      some (true, some "f") := by decide +kernel
  obtain ⟨hstmts, hcalls⟩ := return_stays_inside cfg
  cases hp : parse (scan source).tokens with
  | error es =>
    rw [hp] at hparsed
    cases hparsed
  | ok p =>
    rw [hp] at hparsed
    simp only [Except.toOption, Option.map_some, Option.some.injEq, Prod.mk.injEq,
      Option.any_eq_true] at hparsed
    obtain ⟨⟨s, hs, hran⟩, hcalled⟩ := hparsed
    refine ⟨p, rfl, ?_, ?_⟩
    · obtain ⟨r, hr⟩ := Option.isSome_iff_exists.mp hran
      obtain ⟨m', hexec⟩ := result?_eq_some hr
      have hmem := List.mem_of_getElem? hs
      have hends := (hstmts [] ⟨_, p, hp, false, 0⟩ 20).1 (p.take 2) (List.take_prefix 2 p) s hmem
      rw [List.foldl_nil, hexec] at hends
      obtain rfl : r = .normal := hends
      exact ⟨s, hmem, m', hs, hexec⟩
    · obtain ⟨v, hv, htext⟩ := Option.map_eq_some_iff.mp hcalled
      obtain ⟨m', hcall⟩ := result?_eq_some hv
      refine ⟨v, m', hcall, htext, ?_⟩
      rcases hcalls 20 f Machine.globals paren [] _ m' v hcall with hreturn | ⟨-, rfl⟩
      · exact hreturn
      · exact absurd htext (by decide)

end Treewalk
