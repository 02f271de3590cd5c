import Mathlib.Data.List.Forall2
import Treewalk.Proofs.Lexical.Split
import Treewalk.Proofs.Session.Parts

/-!
# Layout does not matter

Blanks, comments and line breaks between lexemes leave their mark on the lines of tokens and
nowhere else: a token is its kind and its spelling, since its value is read off the spelling.
Two texts with the same lexemes therefore run in the same way, and what they report differs in
line numbers only. Lines are blanked out to compare the two runs: everything is relabelled
with one and the same line.

Results:

* `literal_of_scanned`: the value of a token is determined by its kind and its spelling.
* `outcomeOf_relabel`: what comes of a text in a new session commutes with relabelling.
* `layout_does_not_matter`: two texts that differ in layout.
-/
namespace Treewalk

open Session

/-! ## Tokens without their lines -/

/-- The value of a token is determined by its kind and its spelling. -/
theorem literal_of_scanned {source : String} {t : Token} (h : t ∈ (scan source).tokens) :
    t.literal = literalOf t.kind t.lexeme.toList := by
  have htokens : (scan source).tokens.map (fun t => (t.kind, t.lexeme, t.literal)) =
      (pieces source.toList).filterMap Piece.token? ++ [(.eof, "", none)] :=
    Lexical.readings_tokens 1 _
  have hmem : (t.kind, t.lexeme, t.literal) ∈
      (pieces source.toList).filterMap Piece.token? ++ [(.eof, "", none)] := by
    rw [← htokens]
    exact List.mem_map.mpr ⟨t, h, rfl⟩
  obtain hpiece | hend := List.mem_append.mp hmem
  · obtain ⟨p, -, hp⟩ := List.mem_filterMap.mp hpiece
    unfold Piece.token? at hp
    split at hp
    · simp only [Option.some.injEq, Prod.mk.injEq] at hp
      obtain ⟨rfl, hlexeme, hliteral⟩ := hp
      rw [← hliteral, ← hlexeme, String.toList_ofList]
    · cases hp
  · simp only [List.mem_singleton, Prod.mk.injEq] at hend
    rw [hend.1, hend.2.2]
    rfl

/-- A line in the place of every other one. -/
def blank (_ : Nat) : Nat := 0

/-- Kind and spelling of a token. -/
def Token.spelled (t : Token) : Kind × String := (t.kind, t.lexeme)

theorem relabel_blank_of_spelled {a b : String}
    (h : (scan a).tokens.map Token.spelled = (scan b).tokens.map Token.spelled) :
    (scan a).tokens.map (Token.relabel blank) = (scan b).tokens.map (Token.relabel blank) := by
  -- A token without its line can be put together again from its kind and its spelling.
  let rebuild : Kind × String → Token := fun x => ⟨x.1, x.2, literalOf x.1 x.2.toList, 0⟩
  have hrebuild : ∀ source, (scan source).tokens.map (Token.relabel blank) =
      ((scan source).tokens.map Token.spelled).map rebuild := by
    intro source
    rw [List.map_map]
    refine List.map_congr_left fun t ht => ?_
    show Token.relabel blank t = ⟨t.kind, t.lexeme, literalOf t.kind t.lexeme.toList, 0⟩
    rw [← literal_of_scanned ht]
    rfl
  rw [hrebuild a, hrebuild b, h]

theorem scan_eof (source : String) : ∃ t ∈ (scan source).tokens, t.kind = .eof := by
  obtain ⟨rs, hrs⟩ := readings_eq_append source
  refine ⟨Token.eof (endLine source), ?_, rfl⟩
  simp [scan, hrs, Except.toOption]

/-! ## Runs without their lines -/

/-- What comes of tokens in a new session. -/
def outcomeOf (cfg : Setting) (fuel : Nat) :
    Except (List ParseError) Program → Option (Report × Session)
  | .ok p => finish false 0 (interpret cfg fuel p Machine.initial)
  | .error es => some (⟨.syntaxError, [], es.map .grammar⟩, ⟨Machine.initial, true, false⟩)

theorem run_initial {source : String} (h : (scan source).errors = []) (cfg : Setting)
    (fuel : Nat) :
    initial.run cfg fuel source = outcomeOf cfg fuel (parse (scan source).tokens) := by
  cases hparse : parse (scan source).tokens with
  | ok p => exact run_eq_finish (analyze_eq.mpr ⟨h, hparse⟩) rfl fuel
  | error es =>
    have hanalyze : analyze source = (es.map .grammar, none) := by
      simp [analyze, h, hparse]
    simp only [run, step, hanalyze]
    cases es <;> rfl

/-- A new machine holds no tokens. -/
theorem Machine.initial_relabel (f : Nat → Nat) :
    Machine.initial.relabel f = Machine.initial := by
  have hroot : Store.empty.root.2.relabel f = Store.empty.root.2 := by
    simp [Store.root, Store.push, Store.empty, Store.relabel, Scope.relabel]
  have hstore : Machine.initial.store.relabel f = Machine.initial.store := by
    rw [Machine.initial, Store.define_relabel, hroot]
    rfl
  rw [Machine.relabel, hstore]

theorem outcomeOf_relabel (cfg : Setting) (fuel : Nat) (f : Nat → Nat)
    (r : Except (List ParseError) Program) :
    outcomeOf cfg fuel (relabelParse f r) =
      (outcomeOf cfg fuel r).map fun x => (x.1.relabel f, x.2.relabel f) := by
  cases r with
  | ok p =>
    have hrun : interpret cfg fuel (Stmt.relabelAll f p) (Machine.initial.relabel f) =
        relabelResult f id (interpret cfg fuel p Machine.initial) :=
      commutes_interpret cfg f fuel p _
    rw [Machine.initial_relabel] at hrun
    rw [relabelParse, outcomeOf, hrun, finish_relabel]
    rfl
  | error es =>
    simp only [relabelParse, outcomeOf, Option.map_some, Report.relabel, Session.relabel,
      Machine.initial_relabel, List.map_map]
    rfl

/-! ## What two runs have in common -/

/-- Two diagnostics of the same kind and with the same contents but for the line. -/
def Diagnostic.SameButLine : Diagnostic → Diagnostic → Prop
  | .lexical e, .lexical e' => e.problem = e'.problem
  | .grammar e, .grammar e' => e.problem = e'.problem ∧ e.message = e'.message ∧
    e.location = e'.location ∧ e.index = e'.index
  | .runtime e, .runtime e' => e.fault = e'.fault ∧ e.message = e'.message ∧
    e.token.relabel blank = e'.token.relabel blank
  | _, _ => False

/-- Two runs that end in the same way but for lines. -/
structure SameButLines (x y : Report × Session) : Prop where
  outcome : x.1.outcome = y.1.outcome
  printed : x.1.printed = y.1.printed
  diagnostics : List.Forall₂ Diagnostic.SameButLine x.1.diagnostics y.1.diagnostics
  session : x.2.relabel blank = y.2.relabel blank

theorem ParseError.location_eq {e e' : ParseError}
    (h : e.token.relabel blank = e'.token.relabel blank) : e.location = e'.location := by
  obtain ⟨hkind, hlexeme, -⟩ := Token.mk.inj h
  rw [ParseError.location, ParseError.location, hkind, hlexeme]

theorem Diagnostic.sameButLine_of_relabel {d d' : Diagnostic}
    (h : d.relabel blank = d'.relabel blank) : d.SameButLine d' := by
  cases d with
  | lexical e =>
    cases d' with
    | lexical e' =>
      obtain ⟨-, hproblem⟩ := LexError.mk.inj (Diagnostic.lexical.inj h)
      exact hproblem
    | _ => cases h
  | grammar e =>
    cases d' with
    | grammar e' =>
      obtain ⟨hproblem, hindex, htoken⟩ := ParseError.mk.inj (Diagnostic.grammar.inj h)
      exact ⟨hproblem, congrArg Problem.message hproblem, ParseError.location_eq htoken, hindex⟩
    | _ => cases h
  | runtime e =>
    cases d' with
    | runtime e' =>
      obtain ⟨htoken, hfault⟩ := RuntimeError.mk.inj (Diagnostic.runtime.inj h)
      exact ⟨hfault, congrArg Fault.message hfault, htoken⟩
    | _ => cases h

theorem sameButLines_of_relabel {x y : Report × Session}
    (hreport : x.1.relabel blank = y.1.relabel blank)
    (hsession : x.2.relabel blank = y.2.relabel blank) : SameButLines x y := by
  obtain ⟨houtcome, hprinted, hdiagnostics⟩ := Report.mk.inj hreport
  refine ⟨houtcome, hprinted, ?_, hsession⟩
  rw [← List.forall₂_eq_eq_eq, List.forall₂_map_left_iff, List.forall₂_map_right_iff]
    at hdiagnostics
  exact hdiagnostics.imp fun _ _ => Diagnostic.sameButLine_of_relabel

/-- Two texts without lexical errors that have the same lexemes in the same order run in the same
way in a new session: both runs end or neither does, with the same outcome, the same output,
and the same diagnostics but for lines. -/
theorem layout_does_not_matter {a b : String} (ha : (scan a).errors = [])
    (hb : (scan b).errors = [])
    (h : (scan a).tokens.map Token.spelled = (scan b).tokens.map Token.spelled) (cfg : Setting)
    (fuel : Nat) :
    Option.Rel SameButLines (initial.run cfg fuel a) (initial.run cfg fuel b) := by
  have hparse : relabelParse blank (parse (scan a).tokens) =
      relabelParse blank (parse (scan b).tokens) := by
    rw [← parse_map_relabel blank (scan_eof a), ← parse_map_relabel blank (scan_eof b),
      relabel_blank_of_spelled h]
  have hblank : (initial.run cfg fuel a).map (fun x => (x.1.relabel blank, x.2.relabel blank)) =
      (initial.run cfg fuel b).map fun x => (x.1.relabel blank, x.2.relabel blank) := by
    rw [run_initial ha, run_initial hb, ← outcomeOf_relabel, ← outcomeOf_relabel, hparse]
  cases hrun : initial.run cfg fuel a with
  | none =>
    cases hrun' : initial.run cfg fuel b with
    | none => exact .none
    | some y =>
      rw [hrun, hrun'] at hblank
      cases hblank
  | some x =>
    cases hrun' : initial.run cfg fuel b with
    | none =>
      rw [hrun, hrun'] at hblank
      cases hblank
    | some y =>
      rw [hrun, hrun'] at hblank
      obtain ⟨hreport, hsession⟩ := Prod.mk.inj (Option.some.inj hblank)
      exact .some (sameButLines_of_relabel hreport hsession)

/-- A function that is called further down, with comments and line breaks and without. -/
theorem layout_does_not_matter_comments :
    let cfg : Setting := { clock := fun _ => 0 }
    let a := "fun f(x) \x7b return -x; \x7d print f; f(nil);"
    let b := "fun f(x) // negates\n\x7b\n return - x;\n\x7d\nprint f; /* fails */ f(nil);"
    ∃ x y, initial.run cfg 9 a = some x ∧ initial.run cfg 9 b = some y ∧ SameButLines x y ∧
      x.1.printed = ["<fn f>"] ∧ x.1.diagnostics.length = 1 ∧
      y.1.diagnostics.map Diagnostic.text = ["Operand must be a number.\n[line 3]"] := by
  intro cfg a b
  have hrel := layout_does_not_matter (show (scan a).errors = [] by decide +kernel)
    (show (scan b).errors = [] by decide +kernel) (by decide +kernel) cfg 9
  have hruns : ((initial.run cfg 9 a).bind fun x => (initial.run cfg 9 b).map fun y =>
      (x.1.printed, x.1.diagnostics.length, y.1.diagnostics.map Diagnostic.text)) =
        some (["<fn f>"], 1, ["Operand must be a number.\n[line 3]"]) := by decide +kernel
  obtain ⟨x, hx, hruns⟩ := Option.bind_eq_some_iff.mp hruns
  obtain ⟨y, hy, hfacts⟩ := Option.map_eq_some_iff.mp hruns
  simp only [Prod.mk.injEq] at hfacts
  rw [hx, hy] at hrel
  cases hrel with
  | some hsame => exact ⟨x, y, hx, hy, hsame, hfacts.1, hfacts.2.1, hfacts.2.2⟩

end Treewalk
