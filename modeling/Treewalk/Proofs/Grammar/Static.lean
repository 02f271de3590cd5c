import Treewalk.Proofs.Grammar.Sentence

/-!
# Static rules

What a derivation has to keep to besides the grammar: the left side of every
assignment is a name, no call has more than `argumentLimit` arguments and no
function more parameters, every `return` is in a function body, and every `else`
belongs to the nearest `if` that can still take one.

Results:

* `Decls.violations_eq_nil`: a derivation has no violations exactly if it keeps to
  the first three, wherever it starts.
* `Decls.Lawful`: a derivation that keeps to all of them.
-/
namespace Treewalk

namespace Grammar

/-! ## Expressions -/

def Arguments.count : Arguments → Nat
  | .one _ => 1
  | .more _ _ rest => rest.count + 1

mutual

def Phrase.Static : {r : Rule} → Phrase r → Prop
  | _, .plain d => d.Static
  | _, .assign target _ value => (∃ t, target.tree = .name t) ∧ target.Static ∧ value.Static
  | _, .chain first tail => first.Static ∧ tail.Static
  | _, .simple d => d.Static
  | _, .ternary c _ t _ f => c.Static ∧ t.Static ∧ f.Static
  | _, .signed _ right => right.Static
  | _, .unsigned d => d.Static
  | _, .call callee suffixes => callee.Static ∧ suffixes.Static
  | _, .constant _ | _, .name _ => True
  | _, .group _ inner _ => inner.Static

def Tail.Static : {l : Level} → Tail l → Prop
  | _, .done => True
  | _, .more _ right rest => right.Static ∧ rest.Static

def Suffixes.Static : Suffixes → Prop
  | .done => True
  | .empty _ _ rest => rest.Static
  | .applied _ args _ rest => args.count ≤ argumentLimit ∧ args.Static ∧ rest.Static

def Arguments.Static : Arguments → Prop
  | .one d => d.Static
  | .more first _ rest => first.Static ∧ rest.Static

end

theorem targetViolations_eq_nil {target : Expr} {n : Nat} {t : Token} :
    targetViolations target n t = [] ↔ ∃ u, target = .name u := by
  cases target <;> simp [targetViolations]

theorem countViolations_eq_nil {count n : Nat} {p : Problem} {t : Option Token} :
    countViolations count p n t = [] ↔ count + 1 ≤ argumentLimit := by
  rw [countViolations, Nat.succ_le_iff, ← Nat.not_le]
  split <;> simp [*]

mutual

theorem Phrase.violations_eq_nil : {r : Rule} → (d : Phrase r) → (n : Nat) →
    (d.violations n = [] ↔ d.Static)
  | _, .plain d, n => d.violations_eq_nil n
  | _, .assign target _ value, n => by
    simp only [Phrase.violations, Phrase.Static, List.append_eq_nil_iff, target.violations_eq_nil,
      value.violations_eq_nil, targetViolations_eq_nil]
    exact and_comm
  | _, .chain first tail, n => by
    simp only [Phrase.violations, Phrase.Static, List.append_eq_nil_iff, first.violations_eq_nil,
      tail.violations_eq_nil]
  | _, .simple d, n => d.violations_eq_nil n
  | _, .ternary c _ t _ f, n => by
    simp only [Phrase.violations, Phrase.Static, List.append_eq_nil_iff, c.violations_eq_nil,
      t.violations_eq_nil, f.violations_eq_nil, and_assoc]
  | _, .signed _ right, n => right.violations_eq_nil (n + 1)
  | _, .unsigned d, n => d.violations_eq_nil n
  | _, .call callee suffixes, n => by
    simp only [Phrase.violations, Phrase.Static, List.append_eq_nil_iff, callee.violations_eq_nil,
      suffixes.violations_eq_nil]
  | _, .constant _, _ | _, .name _, _ => by simp [Phrase.violations, Phrase.Static]
  | _, .group _ inner _, n => inner.violations_eq_nil (n + 1)

theorem Tail.violations_eq_nil : {l : Level} → (d : Tail l) → (n : Nat) →
    (d.violations n = [] ↔ d.Static)
  | _, .done, _ => by simp [Tail.violations, Tail.Static]
  | _, .more _ right rest, n => by
    simp only [Tail.violations, Tail.Static, List.append_eq_nil_iff, right.violations_eq_nil,
      rest.violations_eq_nil]

theorem Suffixes.violations_eq_nil : (d : Suffixes) → (n : Nat) →
    (d.violations n = [] ↔ d.Static)
  | .done, _ => by simp [Suffixes.violations, Suffixes.Static]
  | .empty _ _ rest, n => rest.violations_eq_nil (n + 2)
  | .applied _ args _ rest, n => by
    simp only [Suffixes.violations, Suffixes.Static, List.append_eq_nil_iff,
      args.violations_eq_nil, rest.violations_eq_nil, Nat.zero_add, and_assoc]

theorem Arguments.violations_eq_nil : (d : Arguments) → (count n : Nat) →
    (d.violations count n = [] ↔ count + d.count ≤ argumentLimit ∧ d.Static)
  | .one d, count, n => by
    simp only [Arguments.violations, Arguments.Static, Arguments.count, List.append_eq_nil_iff,
      d.violations_eq_nil, countViolations_eq_nil]
  | .more first _ rest, count, n => by
    simp only [Arguments.violations, Arguments.Static, Arguments.count, List.append_eq_nil_iff,
      first.violations_eq_nil, rest.violations_eq_nil, countViolations_eq_nil]
    constructor
    · rintro ⟨⟨-, hf⟩, hc, hr⟩
      exact ⟨by omega, hf, hr⟩
    · rintro ⟨hc, hf, hr⟩
      exact ⟨⟨by omega, hf⟩, by omega, hr⟩

end

/-! ## Statements -/

def Parameters.count : Parameters → Nat
  | .one _ => 1
  | .more _ _ rest => rest.count + 1

/-- What holds of something that may be left out holds of it if it is there. -/
def OptionalStatic (d : Option Exp) : Prop := ∀ e ∈ d, e.Static

def VarClause.Static (d : VarClause) : Prop := ∀ e ∈ d.initial, e.2.Static

def FirstClause.Static : FirstClause → Prop
  | .absent _ => True
  | .var d => d.Static
  | .expr d => d.value.Static

mutual

/-- The static rules for a statement inside the given number of function bodies. -/
def Statement.Static : Statement → Nat → Prop
  | .expr d, _ => d.value.Static
  | .forLoop _ _ first condition _ last _ body, fs =>
    first.Static ∧ OptionalStatic condition ∧ OptionalStatic last ∧ body.Static fs
  | .ifThen _ _ condition _ whenTrue, fs => condition.Static ∧ whenTrue.Static fs
  | .ifElse _ _ condition _ whenTrue _ whenFalse, fs =>
    condition.Static ∧ whenTrue.Static fs ∧ whenFalse.Static fs
  | .print _ value _, _ => value.Static
  | .ret _ value _, fs => 0 < fs ∧ OptionalStatic value
  | .whileLoop _ _ condition _ body, fs => condition.Static ∧ body.Static fs
  | .block _ body _, fs => body.Static fs

def Decl.Static : Decl → Nat → Prop
  | .function _ _ _ params _ _ body _, fs =>
    (∀ ps ∈ params, ps.count ≤ argumentLimit) ∧ body.Static (fs + 1)
  | .var d, _ => d.Static
  | .statement d, fs => d.Static fs

def Decls.Static : Decls → Nat → Prop
  | .nil, _ => True
  | .cons first others, fs => first.Static fs ∧ others.Static fs

end

theorem optionalViolations_eq_nil {d : Option Exp} {n : Nat} :
    optionalViolations d n = [] ↔ OptionalStatic d := by
  cases d with
  | none => simp [optionalViolations, OptionalStatic]
  | some e => simp [optionalViolations, OptionalStatic, e.violations_eq_nil]

theorem VarClause.violations_eq_nil {d : VarClause} {n : Nat} :
    d.violations n = [] ↔ d.Static := by
  cases h : d.initial with
  | none => simp [VarClause.violations, VarClause.Static, h]
  | some i => simp [VarClause.violations, VarClause.Static, h, i.2.violations_eq_nil]

theorem FirstClause.violations_eq_nil {d : FirstClause} {n : Nat} :
    d.violations n = [] ↔ d.Static := by
  cases d with
  | absent t => simp [FirstClause.violations, FirstClause.Static]
  | var d => exact VarClause.violations_eq_nil
  | expr d => exact d.value.violations_eq_nil n

theorem Parameters.violations_eq_nil : (d : Parameters) → (count n : Nat) →
    (d.violations count n = [] ↔ count + d.count ≤ argumentLimit)
  | .one t, count, n => countViolations_eq_nil
  | .more t _ rest, count, n => by
    simp only [Parameters.violations, Parameters.count, List.append_eq_nil_iff,
      rest.violations_eq_nil, countViolations_eq_nil]
    omega

theorem parameterViolations_eq_nil {d : Option Parameters} {n : Nat} :
    parameterViolations d n = [] ↔ ∀ ps ∈ d, ps.count ≤ argumentLimit := by
  cases d with
  | none => simp [parameterViolations]
  | some ps => simp [parameterViolations, ps.violations_eq_nil]

theorem returnViolations_eq_nil {fs n : Nat} {t : Token} :
    returnViolations fs n t = [] ↔ 0 < fs := by
  rw [returnViolations, Nat.pos_iff_ne_zero]
  split <;> simp [*]

mutual

theorem Statement.violations_eq_nil : (d : Statement) → (fs n : Nat) →
    (d.violations fs n = [] ↔ d.Static fs)
  | .expr d, _, n => d.value.violations_eq_nil n
  | .forLoop _ _ first condition _ last _ body, fs, n => by
    simp only [Statement.violations, Statement.Static, List.append_eq_nil_iff, and_assoc,
      FirstClause.violations_eq_nil, optionalViolations_eq_nil, body.violations_eq_nil]
  | .ifThen _ _ condition _ whenTrue, fs, n => by
    simp only [Statement.violations, Statement.Static, List.append_eq_nil_iff,
      condition.violations_eq_nil, whenTrue.violations_eq_nil]
  | .ifElse _ _ condition _ whenTrue _ whenFalse, fs, n => by
    simp only [Statement.violations, Statement.Static, List.append_eq_nil_iff, and_assoc,
      condition.violations_eq_nil, whenTrue.violations_eq_nil, whenFalse.violations_eq_nil]
  | .print _ value _, _, n => value.violations_eq_nil (n + 1)
  | .ret _ value _, fs, n => by
    simp only [Statement.violations, Statement.Static, List.append_eq_nil_iff,
      returnViolations_eq_nil, optionalViolations_eq_nil]
  | .whileLoop _ _ condition _ body, fs, n => by
    simp only [Statement.violations, Statement.Static, List.append_eq_nil_iff,
      condition.violations_eq_nil, body.violations_eq_nil]
  | .block _ body _, fs, n => body.violations_eq_nil fs (n + 1)

theorem Decl.violations_eq_nil : (d : Decl) → (fs n : Nat) →
    (d.violations fs n = [] ↔ d.Static fs)
  | .function _ _ _ params _ _ body _, fs, n => by
    simp only [Decl.violations, Decl.Static, List.append_eq_nil_iff, body.violations_eq_nil,
      parameterViolations_eq_nil]
  | .var _, _, _ => VarClause.violations_eq_nil
  | .statement d, fs, n => d.violations_eq_nil fs n

/-- A derivation without violations keeps to the static rules, and the other way round. -/
theorem Decls.violations_eq_nil : (d : Decls) → (fs n : Nat) →
    (d.violations fs n = [] ↔ d.Static fs)
  | .nil, _, _ => by simp [Decls.violations, Decls.Static]
  | .cons first others, fs, n => by
    simp only [Decls.violations, Decls.Static, List.append_eq_nil_iff, first.violations_eq_nil,
      others.violations_eq_nil]

end

/-- A program that keeps to all rules. -/
structure Decls.Lawful (d : Decls) : Prop where
  nearest : d.Nearest
  static : d.Static 0

end Grammar

end Treewalk
