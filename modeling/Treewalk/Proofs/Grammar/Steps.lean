import Treewalk.Proofs.Grammar.Sentence
import Treewalk.Proofs.Computations

/-!
# What reading does, step by step

For each function that reads a construct: exactly when it succeeds, with which
result and in which state. The statements speak about the parts that it reads
and the single tokens between them (`Takes`), never about how it is written, so
that what is read (`Soundness`) and that it is read (`Completeness`) both follow
from them.
-/
namespace Treewalk

open Grammar Parse

namespace ParseState

/-- Reading the token at hand, and nothing else. -/
inductive Takes : ParseState → Token → ParseState → Prop where
  | mk (t : Token) (ts : List Token) (n fs : Nat) (bs : Array Blame) :
    Takes ⟨t :: ts, n, fs, bs⟩ t ⟨ts, n + 1, fs, bs⟩

/-- The token at hand, if there is one, is of no kind in `p`. -/
def Lacks (s : ParseState) (p : Kind → Bool) : Prop := ∀ t ∈ s.rest.head?, p t.kind = false

/-- The token at hand is of a kind in `p`. -/
def Faces (s : ParseState) (p : Kind → Bool) : Prop := ∃ t ∈ s.rest.head?, p t.kind = true

def noted (s : ParseState) (bs : List Blame) : ParseState :=
  { s with problems := s.problems ++ bs.toArray }

@[simp]
theorem noted_nil (s : ParseState) : s.noted [] = s := by
  simp [noted]

theorem takes_iff {s s' : ParseState} {t : Token} :
    s.Takes t s' ↔ s.rest.head? = some t ∧ s' = s.advance := by
  constructor
  · rintro ⟨⟩
    exact ⟨rfl, rfl⟩
  · rintro ⟨h, rfl⟩
    obtain ⟨rest, n, fs, bs⟩ := s
    cases rest with
    | nil => cases h
    | cons u us =>
      simp only [List.head?_cons, Option.some.injEq] at h
      subst h
      exact .mk u us n fs bs

/-- From `s` to `s'` exactly the tokens `ts` are read and exactly `vs` is recorded. -/
structure Reads (s : ParseState) (ts : List Token) (vs : List Blame) (s' : ParseState) : Prop where
  rest : s.rest = ts ++ s'.rest
  position : s'.position = s.position + ts.length
  functions : s'.functions = s.functions
  problems : s'.problems = s.problems ++ vs.toArray

theorem Reads.refl (s : ParseState) : s.Reads [] [] s := ⟨rfl, rfl, rfl, by simp⟩

theorem Reads.trans {s s₁ s₂ : ParseState} {ts us : List Token} {vs ws : List Blame}
    (h : s.Reads ts vs s₁) (h' : s₁.Reads us ws s₂) : s.Reads (ts ++ us) (vs ++ ws) s₂ where
  rest := by rw [h.rest, h'.rest, List.append_assoc]
  position := by rw [h'.position, h.position, List.length_append, Nat.add_assoc]
  functions := h'.functions.trans h.functions
  problems := by simp [h'.problems, h.problems]

theorem Takes.reads {s s' : ParseState} {t : Token} (h : s.Takes t s') : s.Reads [t] [] s' := by
  cases h
  exact ⟨rfl, rfl, rfl, by simp⟩

theorem reads_noted (s : ParseState) (vs : List Blame) : s.Reads [] vs (s.noted vs) :=
  ⟨rfl, rfl, rfl, rfl⟩

end ParseState

section Primitives

variable {α : Type} {s s' : ParseState} {b : α} {p : Kind → Bool}

theorem pure_eq_ok {a : α} : (pure a : Parse α) s = .ok b s' ↔ b = a ∧ s' = s := by
  show EStateM.Result.ok a s = .ok b s' ↔ _
  simp [eq_comm]

theorem outOfFuel_ne_ok : ¬ (Parse.outOfFuel : Parse α) s = .ok b s' := by
  simp [Parse.outOfFuel]

theorem fail_ne_ok {q : Problem} : ¬ (Parse.fail q : Parse α) s = .ok b s' := by
  simp [fail_apply]

theorem accept_bind {f : Option Token → Parse α} :
    (accept? p >>= f) s = .ok b s' ↔
      (s.Lacks p ∧ f none s = .ok b s') ∨
      ∃ t s₁, s.Takes t s₁ ∧ p t.kind = true ∧ f (some t) s₁ = .ok b s' := by
  obtain ⟨rest, n, fs, bs⟩ := s
  cases rest with
  | nil =>
    rw [bind_of_ok (x := accept? p) (a := none) rfl]
    simp [ParseState.Lacks, ParseState.takes_iff]
  | cons t ts =>
    cases h : p t.kind with
    | false =>
      rw [bind_of_ok (a := none) (by simp only [accept?_apply, h, Bool.false_eq_true, if_false]; rfl)]
      constructor
      · exact fun hf => .inl ⟨fun u hu => by cases hu; exact h, hf⟩
      · rintro (⟨-, hf⟩ | ⟨u, s₁, ⟨⟩, hp, -⟩)
        · exact hf
        · rw [h] at hp; cases hp
    | true =>
      rw [bind_of_ok (a := some t) (by simp only [accept?_apply, h, if_true]; rfl)]
      constructor
      · exact fun hf => .inr ⟨t, _, .mk .., h, hf⟩
      · rintro (⟨hl, -⟩ | ⟨u, s₁, ⟨⟩, -, hf⟩)
        · rw [hl t rfl] at h; cases h
        · exact hf

theorem expect_eq_ok {what : Missing} {t : Token} :
    expect what s = .ok t s' ↔ s.Takes t s' ∧ t.kind = what.kind := by
  obtain ⟨rest, n, fs, bs⟩ := s
  cases rest with
  | nil => simp [expect_apply, ParseState.takes_iff]
  | cons u us =>
    by_cases h : u.kind = what.kind
    · simp only [expect_apply, h, if_true, ParseState.takes_iff, EStateM.Result.ok.injEq,
        List.head?_cons, Option.some.injEq]
      constructor
      · rintro ⟨rfl, rfl⟩; exact ⟨⟨rfl, rfl⟩, h⟩
      · rintro ⟨⟨rfl, rfl⟩, -⟩; exact ⟨rfl, rfl⟩
    · simp only [expect_apply, h, if_false, ParseState.takes_iff, reduceCtorEq, List.head?_cons,
        Option.some.injEq, false_iff]
      rintro ⟨⟨rfl, -⟩, e⟩
      exact h e

theorem check_bind {k : Kind} {f : Bool → Parse α} :
    (check k >>= f) s = .ok b s' ↔
      (s.Lacks (· = k) ∧ f false s = .ok b s') ∨ (s.Faces (· = k) ∧ f true s = .ok b s') := by
  show f (s.rest.head?.any (·.kind = k)) s = .ok b s' ↔ _
  cases h : s.rest.head? with
  | none => simp [ParseState.Lacks, ParseState.Faces, h]
  | some t =>
    by_cases hk : t.kind = k <;> simp [ParseState.Lacks, ParseState.Faces, h, hk]

theorem peek_bind {f : Option Token → Parse α} :
    (peek? >>= f) s = .ok b s' ↔ f s.rest.head? s = .ok b s' := Iff.rfl

theorem skip_eq_ok {u : Unit} : skip s = .ok u s' ↔ s' = s.advance := by
  simp [skip_apply, eq_comm]

theorem blame_eq_ok {q : Problem} {c : Blame} :
    Parse.blame q s = .ok c s' ↔ c = s.blame q ∧ s' = s := by
  simp [Parse.blame_apply, eq_comm]

theorem record_eq_ok {c : Blame} {u : Unit} : record c s = .ok u s' ↔ s' = s.record c := by
  simp [Parse.record_apply, eq_comm]

end Primitives

/-! ## Expressions -/

/-- The function that reads phrases of a rule. -/
def Grammar.Rule.read : Rule → Nat → Parse Expr
  | .assignment e, fuel => Parse.assignment fuel e
  | .chain l, fuel => Parse.chain fuel l
  | .conditional, fuel => Parse.conditional fuel
  | .unary, fuel => Parse.unary fuel
  | .call, fuel => do Parse.callTail fuel (← Parse.primary fuel)
  | .primary, fuel => Parse.primary fuel

theorem read_operand (l : Level) (fuel : Nat) :
    operand (fuel + 1) l = l.operand.read fuel := by
  cases l <;> rfl

section Expressions

variable {fuel : Nat} {s s' : ParseState} {a : Expr}

theorem assignment_succ (fuel : Nat) (e : Extent) :
    assignment (fuel + 1) e = (do
      let target ← e.target.read fuel
      if ← check .equal then
        let blame ← Parse.blame .assignmentTarget
        skip
        let value ← assignment fuel e
        match target with
        | .name t => return .assign t value
        | target =>
          record blame
          return target
      else return target) := by
  cases e <;> rfl

/-- An assignment is recorded as faulty when its left side is not a name. -/
theorem assigned_eq_ok {target value : Expr} {n : Nat} {t : Token} :
    (match target with
      | .name u => (return .assign u value : Parse Expr)
      | target => do
        record ⟨.assignmentTarget, n, some t⟩
        return target) s = .ok a s' ↔
      a = assigned target value ∧ s' = s.noted (targetViolations target n t) := by
  cases target with
  | name u => simp [assigned, targetViolations, ParseState.noted, pure_eq_ok]
  | _ =>
    simp only [bind_eq_ok, record_eq_ok, pure_eq_ok, assigned, targetViolations,
      ParseState.record, ParseState.noted, Array.append_singleton, exists_eq_left, exists_const]

theorem assignment_eq_ok {e : Extent} :
    assignment (fuel + 1) e s = .ok a s' ↔
      ∃ target s₁, e.target.read fuel s = .ok target s₁ ∧
        ((s₁.Lacks (· = .equal) ∧ a = target ∧ s' = s₁) ∨
        ∃ t s₂, s₁.Takes t s₂ ∧ t.kind = .equal ∧
          ∃ value s₃, assignment fuel e s₂ = .ok value s₃ ∧ a = assigned target value ∧
            s' = s₃.noted (targetViolations target s₁.position t)) := by
  rw [assignment_succ, bind_eq_ok]
  refine exists_congr fun target => exists_congr fun s₁ => and_congr_right fun _ => ?_
  rw [check_bind]
  refine or_congr (and_congr_right fun _ => pure_eq_ok) ?_
  simp only [if_true, bind_eq_ok, blame_eq_ok, skip_eq_ok, and_assoc, exists_and_left,
    exists_eq_left, exists_const]
  constructor
  · rintro ⟨⟨t, ht, hk⟩, value, s₃, hv, hb⟩
    rw [ParseState.blame, ht, assigned_eq_ok] at hb
    exact ⟨t, _, ParseState.takes_iff.mpr ⟨ht, rfl⟩, of_decide_eq_true hk, value, s₃, hv, hb⟩
  · rintro ⟨t, s₂, ht, hk, value, s₃, hv, hb⟩
    obtain ⟨hh, rfl⟩ := ParseState.takes_iff.mp ht
    refine ⟨⟨t, hh, decide_eq_true hk⟩, value, s₃, hv, ?_⟩
    rwa [ParseState.blame, hh, assigned_eq_ok]

theorem chain_eq_ok {l : Level} :
    chain (fuel + 1) l s = .ok a s' ↔
      ∃ left s₁, operand fuel l s = .ok left s₁ ∧ chainTail fuel l left s₁ = .ok a s' := by
  rw [chain, bind_eq_ok]

theorem chainTail_eq_ok {l : Level} {left : Expr} :
    chainTail (fuel + 1) l left s = .ok a s' ↔
      (s.Lacks l.has ∧ a = left ∧ s' = s) ∨
      ∃ t s₁, s.Takes t s₁ ∧ l.has t.kind = true ∧
        ∃ right s₂, operand fuel l s₁ = .ok right s₂ ∧
          chainTail fuel l (l.join left t right) s₂ = .ok a s' := by
  rw [chainTail, accept_bind]
  simp only [bind_eq_ok, pure_eq_ok]

theorem conditional_eq_ok :
    conditional (fuel + 1) s = .ok a s' ↔
      ∃ condition s₁, chain fuel .disjunction s = .ok condition s₁ ∧
        ((s₁.Lacks (· = .question) ∧ a = condition ∧ s' = s₁) ∨
        ∃ t s₂, s₁.Takes t s₂ ∧ t.kind = .question ∧
          ∃ whenTrue s₃, assignment fuel .full s₂ = .ok whenTrue s₃ ∧
            ∃ u s₄, s₃.Takes u s₄ ∧ u.kind = .colon ∧
              ∃ whenFalse s₅, conditional fuel s₄ = .ok whenFalse s₅ ∧
                a = .ternary t condition whenTrue whenFalse ∧ s' = s₅) := by
  rw [conditional, bind_eq_ok]
  refine exists_congr fun condition => exists_congr fun s₁ => and_congr_right fun _ => ?_
  rw [accept_bind]
  simp only [bind_eq_ok, expect_eq_ok, pure_eq_ok, decide_eq_true_eq, Missing.kind, and_assoc]

theorem unary_eq_ok :
    unary (fuel + 1) s = .ok a s' ↔
      (s.Lacks isPrefixOperator ∧ Rule.call.read fuel s = .ok a s') ∨
      ∃ t s₁, s.Takes t s₁ ∧ isPrefixOperator t.kind = true ∧
        ∃ right s₂, unary fuel s₁ = .ok right s₂ ∧ a = .unary t right ∧ s' = s₂ := by
  rw [unary, accept_bind]
  simp only [Rule.read, bind_eq_ok, pure_eq_ok]

theorem call_eq_ok :
    Rule.call.read fuel s = .ok a s' ↔
      ∃ callee s₁, primary fuel s = .ok callee s₁ ∧ callTail fuel callee s₁ = .ok a s' := by
  rw [Rule.read, bind_eq_ok]

theorem callTail_eq_ok {callee : Expr} :
    callTail (fuel + 1) callee s = .ok a s' ↔
      (s.Lacks (· = .leftParen) ∧ a = callee ∧ s' = s) ∨
      ∃ t s₁, s.Takes t s₁ ∧ t.kind = .leftParen ∧
        ∃ args s₂, ((s₁.Faces (· = .rightParen) ∧ args = [] ∧ s₂ = s₁) ∨
            (s₁.Lacks (· = .rightParen) ∧ arguments fuel 0 s₁ = .ok args s₂)) ∧
          ∃ u s₃, s₂.Takes u s₃ ∧ u.kind = .rightParen ∧
            callTail fuel (.call callee u args) s₃ = .ok a s' := by
  rw [callTail, accept_bind]
  refine or_congr (and_congr_right fun _ => pure_eq_ok) ?_
  simp only [decide_eq_true_eq]
  refine exists_congr fun t => exists_congr fun s₁ => and_congr_right fun _ =>
    and_congr_right fun _ => ?_
  rw [check_bind]
  simp only [bind_eq_ok, expect_eq_ok, pure_eq_ok, Missing.kind, and_assoc, Bool.false_eq_true,
    if_false, if_true]
  constructor
  · rintro (⟨hl, args, s₂, ha, h⟩ | ⟨hf, args, s₂, ha, hs, h⟩)
    · exact ⟨args, s₂, .inr ⟨hl, ha⟩, h⟩
    · exact ⟨args, s₂, .inl ⟨hf, ha, hs⟩, h⟩
  · rintro ⟨args, s₂, ⟨hf, ha, hs⟩ | ⟨hl, ha⟩, h⟩
    · exact .inr ⟨hf, args, s₂, ha, hs, h⟩
    · exact .inl ⟨hl, args, s₂, ha, h⟩

theorem reportIf_count {count : Nat} {q : Problem} {u : Unit} :
    reportIf (argumentLimit ≤ count) q s = .ok u s' ↔
      s' = s.noted (countViolations count q s.position s.rest.head?) := by
  by_cases h : argumentLimit ≤ count
  · simp [reportIf_apply, h, countViolations, ParseState.noted, ParseState.record, ParseState.blame,
      eq_comm]
  · simp [reportIf_apply, h, countViolations, eq_comm]

theorem arguments_eq_ok {count : Nat} {args : List Expr} :
    arguments (fuel + 1) count s = .ok args s' ↔
      ∃ first s₁, assignment fuel .argument
          (s.noted (countViolations count .tooManyArguments s.position s.rest.head?)) =
            .ok first s₁ ∧
        ((s₁.Lacks (· = .comma) ∧ args = [first] ∧ s' = s₁) ∨
        ∃ t s₂, s₁.Takes t s₂ ∧ t.kind = .comma ∧
          ∃ others s₃, arguments fuel (count + 1) s₂ = .ok others s₃ ∧
            args = first :: others ∧ s' = s₃) := by
  rw [arguments, bind_eq_ok]
  simp only [reportIf_count, exists_eq_left, exists_const]
  rw [bind_eq_ok]
  refine exists_congr fun first => exists_congr fun s₁ => and_congr_right fun _ => ?_
  rw [accept_bind]
  simp only [bind_eq_ok, pure_eq_ok, decide_eq_true_eq]

theorem atom_eq (t : Token) :
    atom? t = if isConstant t.kind then some (.literal (constant t))
      else if t.kind = .identifier then some (.name t) else none := by
  cases h : t.kind <;> simp [atom?, isConstant, constant, h]

theorem primary_eq_ok :
    primary (fuel + 1) s = .ok a s' ↔
      ∃ t s₁, s.Takes t s₁ ∧
        ((isConstant t.kind = true ∧ a = .literal (constant t) ∧ s' = s₁) ∨
        (t.kind = .identifier ∧ a = .name t ∧ s' = s₁) ∨
        (t.kind = .leftParen ∧ ∃ inner s₂, assignment fuel .full s₁ = .ok inner s₂ ∧
          ∃ u s₃, s₂.Takes u s₃ ∧ u.kind = .rightParen ∧ a = .grouping inner ∧ s' = s₃)) := by
  rw [primary, peek_bind]
  cases hh : s.rest.head? with
  | none => simp [fail_ne_ok, ParseState.takes_iff, hh]
  | some t =>
    have htakes : ∀ u s₁, s.Takes u s₁ ↔ u = t ∧ s₁ = s.advance := by
      simp [ParseState.takes_iff, hh, eq_comm]
    simp only [htakes, and_assoc, exists_and_left, exists_eq_left]
    by_cases hp : t.kind = .leftParen
    · simp only [hp, if_true, bind_eq_ok, skip_eq_ok, expect_eq_ok, pure_eq_ok, Missing.kind,
        and_assoc]
      simp [isConstant]
    · simp only [hp, if_false, atom_eq]
      have htake : ∀ e : Expr, (skip >>= fun _ => pure e : Parse Expr) s = .ok a s' ↔
          a = e ∧ s' = s.advance := by
        simp only [bind_eq_ok, skip_eq_ok, pure_eq_ok, exists_const, exists_eq_left, implies_true]
      by_cases hc : isConstant t.kind = true
      · have hi : t.kind ≠ .identifier := by intro h; rw [h] at hc; cases hc
        simp only [hc, if_true, htake]
        simp [hi]
      · by_cases hi : t.kind = .identifier
        · have hn : isConstant .identifier = false := rfl
          simp only [hi, hn, Bool.false_eq_true, if_true, if_false, htake]
          simp
        · simp [hc, hi, fail_ne_ok]

end Expressions

/-! ## Statements -/

section Statements

variable {fuel : Nat} {s s' : ParseState}

theorem parameters_eq_ok {count : Nat} {params : List Token} :
    parameters (fuel + 1) count s = .ok params s' ↔
      ∃ first s₁, (s.noted (countViolations count .tooManyParameters s.position s.rest.head?)).Takes
          first s₁ ∧ first.kind = .identifier ∧
        ((s₁.Lacks (· = .comma) ∧ params = [first] ∧ s' = s₁) ∨
        ∃ t s₂, s₁.Takes t s₂ ∧ t.kind = .comma ∧
          ∃ others s₃, parameters fuel (count + 1) s₂ = .ok others s₃ ∧
            params = first :: others ∧ s' = s₃) := by
  rw [parameters, bind_eq_ok]
  simp only [reportIf_count, exists_const, exists_eq_left]
  rw [bind_eq_ok]
  simp only [expect_eq_ok, Missing.kind, and_assoc]
  refine exists_congr fun first => exists_congr fun s₁ => and_congr_right fun _ =>
    and_congr_right fun _ => ?_
  rw [accept_bind]
  simp only [bind_eq_ok, pure_eq_ok, decide_eq_true_eq]

theorem expressionUnless_eq_ok {k : Kind} {r : Option Expr} :
    expressionUnless fuel k s = .ok r s' ↔
      (s.Faces (· = k) ∧ r = none ∧ s' = s) ∨
      (s.Lacks (· = k) ∧ ∃ e s₁, expression fuel s = .ok e s₁ ∧ r = some e ∧ s' = s₁) := by
  rw [expressionUnless, check_bind]
  simp only [Bool.false_eq_true, if_false, if_true, bind_eq_ok, pure_eq_ok]
  exact or_comm

theorem varDeclaration_eq_ok {r : Stmt} :
    varDeclaration fuel s = .ok r s' ↔
      ∃ name s₁, s.Takes name s₁ ∧ name.kind = .identifier ∧
        ∃ initial s₂, ((s₁.Lacks (· = .equal) ∧ initial = none ∧ s₂ = s₁) ∨
            ∃ t s₃, s₁.Takes t s₃ ∧ t.kind = .equal ∧
              ∃ e, expression fuel s₃ = .ok e s₂ ∧ initial = some e) ∧
          ∃ u s₄, s₂.Takes u s₄ ∧ u.kind = .semicolon ∧ r = .var name initial ∧ s' = s₄ := by
  rw [varDeclaration, bind_eq_ok]
  simp only [expect_eq_ok, Missing.kind, and_assoc]
  refine exists_congr fun name => exists_congr fun s₁ => and_congr_right fun _ =>
    and_congr_right fun _ => ?_
  rw [accept_bind]
  simp only [bind_eq_ok, expect_eq_ok, pure_eq_ok, Missing.kind, and_assoc, decide_eq_true_eq]
  constructor
  · rintro (⟨hl, i, s₂, rfl, rfl, h⟩ | ⟨t, s₃, ht, hk, e, s₂, he, i, s₂', rfl, rfl, h⟩)
    · exact ⟨none, s₂, .inl ⟨hl, rfl, rfl⟩, h⟩
    · exact ⟨some e, _, .inr ⟨t, s₃, ht, hk, e, he, rfl⟩, h⟩
  · rintro ⟨i, s₂, ⟨hl, rfl, rfl⟩ | ⟨t, s₃, ht, hk, e, he, rfl⟩, h⟩
    · exact .inl ⟨hl, none, s₂, rfl, rfl, h⟩
    · exact .inr ⟨t, s₃, ht, hk, e, s₂, he, some e, s₂, rfl, rfl, h⟩

theorem expressionStatement_eq_ok {r : Stmt} :
    expressionStatement fuel s = .ok r s' ↔
      ∃ e s₁, expression fuel s = .ok e s₁ ∧
        ∃ t s₂, s₁.Takes t s₂ ∧ t.kind = .semicolon ∧ r = .expr e ∧ s' = s₂ := by
  simp only [expressionStatement, bind_eq_ok, expect_eq_ok, pure_eq_ok, Missing.kind, and_assoc]

theorem printStatement_eq_ok {r : Stmt} :
    printStatement fuel s = .ok r s' ↔
      ∃ e s₁, expression fuel s = .ok e s₁ ∧
        ∃ t s₂, s₁.Takes t s₂ ∧ t.kind = .semicolon ∧ r = .print e ∧ s' = s₂ := by
  simp only [printStatement, bind_eq_ok, expect_eq_ok, pure_eq_ok, Missing.kind, and_assoc]

theorem reportReturn_eq {keyword : Token} (h : s.rest.head? = some keyword) :
    (do reportIf (!(← inFunction)) .topLevelReturn : Parse Unit) s =
      .ok () (s.noted (returnViolations s.functions s.position keyword)) := by
  rw [bind_of_ok (inFunction_apply s), reportIf_apply]
  by_cases hz : s.functions = 0
  · simp [hz, returnViolations, ParseState.noted, ParseState.record, ParseState.blame, h]
  · simp [hz, returnViolations, Nat.pos_of_ne_zero hz]

theorem returnStatement_eq_ok {keyword : Token} {r : Stmt} (h : s.rest.head? = some keyword) :
    returnStatement fuel keyword s = .ok r s' ↔
      ∃ value s₁, expressionUnless fuel .semicolon
          (s.noted (returnViolations s.functions s.position keyword)).advance = .ok value s₁ ∧
        ∃ t s₂, s₁.Takes t s₂ ∧ t.kind = .semicolon ∧ r = .ret keyword value ∧ s' = s₂ := by
  rw [returnStatement, ← bind_assoc, bind_of_ok (reportReturn_eq h)]
  simp only [bind_eq_ok, skip_eq_ok, expect_eq_ok, pure_eq_ok, Missing.kind, and_assoc,
    exists_const, exists_eq_left]

theorem firstClause_eq_ok {r : Option Stmt} :
    firstClause fuel s = .ok r s' ↔
      (s.Lacks (fun k => k = .semicolon || k = .varKw) ∧
        ∃ d s₁, expressionStatement fuel s = .ok d s₁ ∧ r = some d ∧ s' = s₁) ∨
      ∃ t s₁, s.Takes t s₁ ∧ ((t.kind = .semicolon ∧ r = none ∧ s' = s₁) ∨
        (t.kind = .varKw ∧ ∃ d s₂, varDeclaration fuel s₁ = .ok d s₂ ∧ r = some d ∧ s' = s₂)) := by
  rw [firstClause, accept_bind]
  simp only [bind_eq_ok, pure_eq_ok, Bool.or_eq_true, decide_eq_true_eq]
  refine or_congr Iff.rfl ?_
  refine exists_congr fun t => exists_congr fun s₁ => and_congr_right fun _ => ?_
  by_cases hs : t.kind = .semicolon
  · simp [hs, pure_eq_ok]
  · simp only [hs, if_false, bind_eq_ok, pure_eq_ok, false_or, false_and]

/-- What follows `fun`: the name, the parameters and the body in its braces. -/
theorem functionDeclaration_eq_ok {r : Stmt} :
    functionDeclaration (fuel + 1) s = .ok r s' ↔
      ∃ name s₁, s.Takes name s₁ ∧ name.kind = .identifier ∧
        ∃ t s₂, s₁.Takes t s₂ ∧ t.kind = .leftParen ∧
          ∃ params s₃, ((s₂.Faces (· = .rightParen) ∧ params = [] ∧ s₃ = s₂) ∨
              (s₂.Lacks (· = .rightParen) ∧ parameters fuel 0 s₂ = .ok params s₃)) ∧
            ∃ u s₄, s₃.Takes u s₄ ∧ u.kind = .rightParen ∧
              ∃ v s₅, s₄.Takes v s₅ ∧ v.kind = .leftBrace ∧
                ∃ body s₆, enterFunction (block fuel) s₅ = .ok body s₆ ∧
                  r = .function name params body ∧ s' = s₆ := by
  rw [functionDeclaration, bind_eq_ok]
  simp only [expect_eq_ok, Missing.kind, and_assoc]
  refine exists_congr fun name => exists_congr fun s₁ => and_congr_right fun _ =>
    and_congr_right fun _ => ?_
  rw [bind_eq_ok]
  simp only [expect_eq_ok, Missing.kind, and_assoc]
  refine exists_congr fun t => exists_congr fun s₂ => and_congr_right fun _ =>
    and_congr_right fun _ => ?_
  rw [check_bind]
  simp only [bind_eq_ok, expect_eq_ok, pure_eq_ok, Missing.kind, and_assoc, Bool.false_eq_true,
    if_false, if_true]
  constructor
  · rintro (⟨hl, params, s₃, ha, h⟩ | ⟨hf, params, s₃, ha, hs, h⟩)
    · exact ⟨params, s₃, .inr ⟨hl, ha⟩, h⟩
    · exact ⟨params, s₃, .inl ⟨hf, ha, hs⟩, h⟩
  · rintro ⟨params, s₃, ⟨hf, ha, hs⟩ | ⟨hl, ha⟩, h⟩
    · exact .inr ⟨hf, params, s₃, ha, hs, h⟩
    · exact .inl ⟨hl, params, s₃, ha, h⟩

theorem enterFunction_eq_ok {α : Type} {x : Parse α} {a : α} :
    enterFunction x s = .ok a s' ↔
      ∃ s₁, x { s with functions := s.functions + 1 } = .ok a s₁ ∧
        s' = { s₁ with functions := s₁.functions - 1 } := by
  cases h : x { s with functions := s.functions + 1 } with
  | ok a' s₁ =>
    simp only [enterFunction_apply, h, EStateM.Result.ok.injEq]
    constructor
    · rintro ⟨rfl, rfl⟩; exact ⟨s₁, ⟨rfl, rfl⟩, rfl⟩
    · rintro ⟨s₂, ⟨rfl, rfl⟩, rfl⟩; exact ⟨rfl, rfl⟩
  | error e s₁ => simp [enterFunction_apply, h]

theorem block_eq_ok {body : List Stmt} :
    block (fuel + 1) s = .ok body s' ↔
      ∃ ss s₁, declarations fuel true s = .ok ss s₁ ∧
        ∃ t s₂, s₁.Takes t s₂ ∧ t.kind = .rightBrace ∧ body = ss ∧ s' = s₂ := by
  simp only [block, bind_eq_ok, expect_eq_ok, pure_eq_ok, Missing.kind, and_assoc]

theorem declarations_eq_ok {inBlock : Bool} {ss : List Stmt} :
    declarations (fuel + 1) inBlock s = .ok ss s' ↔
      ((s.rest = [] ∨ (inBlock = true ∧ s.Faces (· = .rightBrace))) ∧ ss = [] ∧ s' = s) ∨
      (s.rest ≠ [] ∧ (inBlock = true → s.Lacks (· = .rightBrace)) ∧
        ∃ first s₁, declaration fuel s = .ok first s₁ ∧
          ∃ others s₂, declarations fuel inBlock s₁ = .ok others s₂ ∧
            ss = first.toList ++ others ∧ s' = s₂) := by
  rw [declarations, peek_bind]
  cases hr : s.rest with
  | nil => simp [pure_eq_ok]
  | cons t ts =>
    cases inBlock with
    | false =>
      simp only [List.head?_cons, Bool.false_and, Bool.false_eq_true, if_false, bind_eq_ok,
        pure_eq_ok]
      simp
    | true =>
      by_cases hk : t.kind = .rightBrace
      · simp [hk, hr, pure_eq_ok, ParseState.Faces, ParseState.Lacks]
      · simp only [List.head?_cons, Bool.true_and, hk, decide_false, Bool.false_eq_true, if_false,
          bind_eq_ok, pure_eq_ok]
        simp [hk, hr, ParseState.Faces, ParseState.Lacks]

theorem recovering_eq_some {α : Type} {x : Parse α} {a : α} :
    recovering x s = .ok (some a) s' ↔ x s = .ok a s' := by
  cases h : x s with
  | ok a' s₁ => simp [recovering_apply, h]
  | error e s₁ => cases e <;> simp [recovering_apply, h]

theorem declaration_eq_some {d : Stmt} :
    declaration (fuel + 1) s = .ok (some d) s' ↔
      (s.Lacks (fun k => k = .funKw || k = .varKw) ∧ statement fuel s = .ok d s') ∨
      ∃ t s₁, s.Takes t s₁ ∧ ((t.kind = .funKw ∧ functionDeclaration fuel s₁ = .ok d s') ∨
        (t.kind = .varKw ∧ varDeclaration fuel s₁ = .ok d s')) := by
  rw [declaration, recovering_eq_some, accept_bind]
  simp only [Bool.or_eq_true, decide_eq_true_eq]
  refine or_congr Iff.rfl ?_
  refine exists_congr fun t => exists_congr fun s₁ => and_congr_right fun _ => ?_
  by_cases hf : t.kind = .funKw <;> simp [hf]

theorem statement_eq_ok {r : Stmt} :
    statement (fuel + 1) s = .ok r s' ↔
      (s.Lacks opensStatement ∧ expressionStatement fuel s = .ok r s') ∨
      ∃ t s₁, s.Takes t s₁ ∧
        ((t.kind = .forKw ∧ forStatement fuel s₁ = .ok r s') ∨
        (t.kind = .ifKw ∧ ifStatement fuel s₁ = .ok r s') ∨
        (t.kind = .printKw ∧ printStatement fuel s₁ = .ok r s') ∨
        (t.kind = .returnKw ∧ returnStatement fuel t s = .ok r s') ∨
        (t.kind = .whileKw ∧ whileStatement fuel s₁ = .ok r s') ∨
        (t.kind = .leftBrace ∧ ∃ body s₂, block fuel s₁ = .ok body s₂ ∧
          r = .block body ∧ s' = s₂)) := by
  rw [statement, peek_bind]
  cases hh : s.rest.head? with
  | none => simp [ParseState.takes_iff, ParseState.Lacks, hh]
  | some t =>
    have htakes : ∀ u s₁, s.Takes u s₁ ↔ u = t ∧ s₁ = s.advance := by
      simp [ParseState.takes_iff, hh, eq_comm]
    have hlacks : s.Lacks opensStatement ↔ opensStatement t.kind = false := by
      simp [ParseState.Lacks, hh]
    simp only [htakes, hlacks, and_assoc, exists_and_left, exists_eq_left]
    cases hk : t.kind <;>
      simp only [opensStatement, bind_eq_ok, skip_eq_ok, pure_eq_ok, exists_const, exists_eq_left,
        reduceCtorEq, decide_false, decide_true, Bool.or_false, Bool.or_true, Bool.true_eq_false,
        false_and, true_and, false_or, or_false]

theorem forStatement_eq_ok {r : Stmt} :
    forStatement (fuel + 1) s = .ok r s' ↔
      ∃ t s₁, s.Takes t s₁ ∧ t.kind = .leftParen ∧
        ∃ first s₂, firstClause fuel s₁ = .ok first s₂ ∧
          ∃ condition s₃, expressionUnless fuel .semicolon s₂ = .ok condition s₃ ∧
            ∃ u s₄, s₃.Takes u s₄ ∧ u.kind = .semicolon ∧
              ∃ last s₅, expressionUnless fuel .rightParen s₄ = .ok last s₅ ∧
                ∃ v s₆, s₅.Takes v s₆ ∧ v.kind = .rightParen ∧
                  ∃ body s₇, statement fuel s₆ = .ok body s₇ ∧
                    r = .forLoop first condition last body ∧ s' = s₇ := by
  simp only [forStatement, bind_eq_ok, expect_eq_ok, pure_eq_ok, Missing.kind, and_assoc]

theorem ifStatement_eq_ok {r : Stmt} :
    ifStatement (fuel + 1) s = .ok r s' ↔
      ∃ t s₁, s.Takes t s₁ ∧ t.kind = .leftParen ∧
        ∃ condition s₂, expression fuel s₁ = .ok condition s₂ ∧
          ∃ u s₃, s₂.Takes u s₃ ∧ u.kind = .rightParen ∧
            ∃ whenTrue s₄, statement fuel s₃ = .ok whenTrue s₄ ∧
              ((s₄.Lacks (· = .elseKw) ∧ r = .ifThen condition whenTrue ∧ s' = s₄) ∨
              ∃ v s₅, s₄.Takes v s₅ ∧ v.kind = .elseKw ∧
                ∃ whenFalse s₆, statement fuel s₅ = .ok whenFalse s₆ ∧
                  r = .ifElse condition whenTrue whenFalse ∧ s' = s₆) := by
  rw [ifStatement]
  simp only [bind_eq_ok (x := expect _), bind_eq_ok (x := expression _),
    bind_eq_ok (x := statement _), accept_bind, expect_eq_ok, pure_eq_ok, Missing.kind,
    and_assoc, decide_eq_true_eq]

theorem whileStatement_eq_ok {r : Stmt} :
    whileStatement (fuel + 1) s = .ok r s' ↔
      ∃ t s₁, s.Takes t s₁ ∧ t.kind = .leftParen ∧
        ∃ condition s₂, expression fuel s₁ = .ok condition s₂ ∧
          ∃ u s₃, s₂.Takes u s₃ ∧ u.kind = .rightParen ∧
            ∃ body s₄, statement fuel s₃ = .ok body s₄ ∧
              r = .whileLoop condition body ∧ s' = s₄ := by
  simp only [whileStatement, bind_eq_ok, expect_eq_ok, pure_eq_ok, Missing.kind, and_assoc]

end Statements

end Treewalk
