import Treewalk.Tree.Parser.Program

/-!
# The grammar of expressions

A `Phrase` is a derivation of an expression, built the way the grammar says and
without looking at a parser:

    assignment  → series ( "=" assignment )?
    argument    → conditional ( "=" argument )?
    series      → conditional ( "," conditional )*
    conditional → disjunction ( "?" assignment ":" conditional )?
    disjunction → conjunction ( "or" conjunction )*         and so on down to
    factor      → unary ( ( "/" | "*" ) unary )*
    unary       → ( "!" | "-" ) unary | call
    call        → primary ( "(" ( argument ( "," argument )* )? ")" )*
    primary     → constant | IDENTIFIER | "(" assignment ")"

Its `tokens` are the text that it derives, its `tree` the expression that it
denotes. What stands left of `=` and how many arguments a call has is left open
here: a phrase's `violations` are the places where it breaks the rules on these,
each with the number of tokens before it.

Results:

* `Phrase.head`: every phrase starts with a token that an expression can start
  with.
* `continues_operand`: after an operand only an operator that binds tighter than
  those of its chain goes on with it.
-/
namespace Treewalk

namespace Grammar

/-- A token of the given kind. -/
abbrev Tok (k : Kind) := { t : Token // t.kind = k }

/-- A token of one of the given kinds. -/
abbrev TokIn (p : Kind → Bool) := { t : Token // p t.kind = true }

/-- What a phrase can be. -/
inductive Rule where
  | assignment (extent : Extent)
  | chain (level : Level)
  | conditional
  | unary
  | call
  | primary
  deriving DecidableEq, Repr

end Grammar

open Grammar

/-- What stands left of the equals sign of an assignment, or alone. -/
def Extent.target : Extent → Rule
  | full => .chain .series
  | argument => .conditional

/-- The operands of a chain. -/
def Level.operand : Level → Rule
  | series => .conditional
  | disjunction => .chain .conjunction
  | conjunction => .chain .equality
  | equality => .chain .comparison
  | comparison => .chain .term
  | term => .chain .factor
  | factor => .unary

namespace Grammar

/-- The tokens that are expressions of their own, names apart. -/
def isConstant (k : Kind) : Bool :=
  k = .number || k = .string || k = .trueKw || k = .falseKw || k = .nilKw

/-- The value of such a token. -/
def constant (t : Token) : Literal :=
  match t.kind with
  | .trueKw => .bool true
  | .falseKw => .bool false
  | .nilKw => .nil
  | _ => t.literal.getD .nil

mutual

inductive Phrase : Rule → Type where
  | plain {e : Extent} (only : Phrase e.target) : Phrase (.assignment e)
  | assign {e : Extent} (target : Phrase e.target) (equals : Tok .equal)
      (value : Phrase (.assignment e)) : Phrase (.assignment e)
  | chain {l : Level} (first : Phrase l.operand) (tail : Tail l) : Phrase (.chain l)
  | simple (only : Phrase (.chain .disjunction)) : Phrase .conditional
  | ternary (condition : Phrase (.chain .disjunction)) (question : Tok .question)
      (whenTrue : Phrase (.assignment .full)) (colon : Tok .colon)
      (whenFalse : Phrase .conditional) : Phrase .conditional
  | signed (operator : TokIn Parse.isPrefixOperator) (right : Phrase .unary) : Phrase .unary
  | unsigned (only : Phrase .call) : Phrase .unary
  | call (callee : Phrase .primary) (suffixes : Suffixes) : Phrase .call
  | constant (token : TokIn isConstant) : Phrase .primary
  | name (token : Tok .identifier) : Phrase .primary
  | group (opening : Tok .leftParen) (inner : Phrase (.assignment .full))
      (closing : Tok .rightParen) : Phrase .primary

/-- The operators of a chain, each with the operand after it. -/
inductive Tail : Level → Type where
  | done {l : Level} : Tail l
  | more {l : Level} (operator : TokIn l.has) (right : Phrase l.operand) (rest : Tail l) : Tail l

/-- Argument lists, one after the other. -/
inductive Suffixes : Type where
  | done
  | empty (opening : Tok .leftParen) (closing : Tok .rightParen) (rest : Suffixes)
  | applied (opening : Tok .leftParen) (arguments : Arguments) (closing : Tok .rightParen)
      (rest : Suffixes)

inductive Arguments : Type where
  | one (only : Phrase (.assignment .argument))
  | more (first : Phrase (.assignment .argument)) (comma : Tok .comma) (rest : Arguments)

end

/-! ## What a phrase derives and denotes -/

mutual

def Phrase.tokens : {r : Rule} → Phrase r → List Token
  | _, .plain d => d.tokens
  | _, .assign target equals value => target.tokens ++ equals.1 :: value.tokens
  | _, .chain first tail => first.tokens ++ tail.tokens
  | _, .simple d => d.tokens
  | _, .ternary c question t colon f =>
    c.tokens ++ question.1 :: (t.tokens ++ colon.1 :: f.tokens)
  | _, .signed operator right => operator.1 :: right.tokens
  | _, .unsigned d => d.tokens
  | _, .call callee suffixes => callee.tokens ++ suffixes.tokens
  | _, .constant t => [t.1]
  | _, .name t => [t.1]
  | _, .group opening inner closing => opening.1 :: (inner.tokens ++ [closing.1])

def Tail.tokens : {l : Level} → Tail l → List Token
  | _, .done => []
  | _, .more operator right rest => operator.1 :: (right.tokens ++ rest.tokens)

def Suffixes.tokens : Suffixes → List Token
  | .done => []
  | .empty opening closing rest => opening.1 :: closing.1 :: rest.tokens
  | .applied opening args closing rest =>
    opening.1 :: (args.tokens ++ closing.1 :: rest.tokens)

def Arguments.tokens : Arguments → List Token
  | .one d => d.tokens
  | .more first comma rest => first.tokens ++ comma.1 :: rest.tokens

end

/-- An assignment to a name; with anything else on the left the value is dropped. -/
def assigned : Expr → Expr → Expr
  | .name t, value => .assign t value
  | target, _ => target

/-- An operator of a chain with its two sides: `or` and `and` may leave the right one
unevaluated. -/
def joined (l : Level) (left : Expr) (operator : Token) (right : Expr) : Expr :=
  match l with
  | .disjunction | .conjunction => .logical left operator right
  | .series | .equality | .comparison | .term | .factor => .binary left operator right

theorem joined_eq (l : Level) (left : Expr) (operator : Token) (right : Expr) :
    joined l left operator right = l.join left operator right := by
  cases l <;> rfl

mutual

def Phrase.tree : {r : Rule} → Phrase r → Expr
  | _, .plain d => d.tree
  | _, .assign target _ value => assigned target.tree value.tree
  | _, .chain first tail => tail.tree first.tree
  | _, .simple d => d.tree
  | _, .ternary c question t _ f => .ternary question.1 c.tree t.tree f.tree
  | _, .signed operator right => .unary operator.1 right.tree
  | _, .unsigned d => d.tree
  | _, .call callee suffixes => suffixes.tree callee.tree
  | _, .constant t => .literal (Grammar.constant t.1)
  | _, .name t => .name t.1
  | _, .group _ inner _ => .grouping inner.tree

/-- A chain nests to the left: each operator takes all before it as its left side. -/
def Tail.tree : {l : Level} → Tail l → Expr → Expr
  | _, .done, left => left
  | l, .more operator right rest, left => rest.tree (joined l left operator.1 right.tree)

def Suffixes.tree : Suffixes → Expr → Expr
  | .done, callee => callee
  | .empty _ closing rest, callee => rest.tree (.call callee closing.1 [])
  | .applied _ args closing rest, callee => rest.tree (.call callee closing.1 args.trees)

def Arguments.trees : Arguments → List Expr
  | .one d => [d.tree]
  | .more first _ rest => first.tree :: rest.trees

end

theorem Tail.tree_more {l : Level} (operator : TokIn l.has) (right : Phrase l.operand)
    (rest : Tail l) (left : Expr) :
    (Tail.more operator right rest).tree left = rest.tree (l.join left operator.1 right.tree) := by
  rw [Tail.tree, joined_eq]

/-! ## Static rules -/

/-- The left side of an assignment has to be a name. -/
def targetViolations (target : Expr) (position : Nat) (equals : Token) : List Blame :=
  match target with
  | .name _ => []
  | _ => [⟨.assignmentTarget, position, some equals⟩]

/-- At most `argumentLimit` others may stand before a further one. -/
def countViolations (count : Nat) (problem : Problem) (position : Nat) (first : Option Token) :
    List Blame :=
  if argumentLimit ≤ count then [⟨problem, position, first⟩] else []

mutual

/-- The violations of a phrase that starts at the given position. -/
def Phrase.violations : {r : Rule} → Phrase r → Nat → List Blame
  | _, .plain d, n => d.violations n
  | _, .assign target equals value, n =>
    target.violations n ++ value.violations (n + target.tokens.length + 1) ++
      targetViolations target.tree (n + target.tokens.length) equals.1
  | _, .chain first tail, n => first.violations n ++ tail.violations (n + first.tokens.length)
  | _, .simple d, n => d.violations n
  | _, .ternary c _ t _ f, n =>
    c.violations n ++ t.violations (n + c.tokens.length + 1) ++
      f.violations (n + c.tokens.length + 1 + t.tokens.length + 1)
  | _, .signed _ right, n => right.violations (n + 1)
  | _, .unsigned d, n => d.violations n
  | _, .call callee suffixes, n =>
    callee.violations n ++ suffixes.violations (n + callee.tokens.length)
  | _, .constant _, _ => []
  | _, .name _, _ => []
  | _, .group _ inner _, n => inner.violations (n + 1)

def Tail.violations : {l : Level} → Tail l → Nat → List Blame
  | _, .done, _ => []
  | _, .more _ right rest, n =>
    right.violations (n + 1) ++ rest.violations (n + 1 + right.tokens.length)

def Suffixes.violations : Suffixes → Nat → List Blame
  | .done, _ => []
  | .empty _ _ rest, n => rest.violations (n + 2)
  | .applied _ args _ rest, n =>
    args.violations 0 (n + 1) ++ rest.violations (n + 1 + args.tokens.length + 1)

/-- The violations of arguments after `count` others. -/
def Arguments.violations : Arguments → Nat → Nat → List Blame
  | .one d, count, n =>
    countViolations count .tooManyArguments n d.tokens.head? ++ d.violations n
  | .more first _ rest, count, n =>
    countViolations count .tooManyArguments n first.tokens.head? ++ first.violations n ++
      rest.violations (count + 1) (n + first.tokens.length + 1)

end

/-! ## The first token of a phrase -/

/-- The tokens that a primary expression can start with. -/
def startsPrimary (k : Kind) : Bool := isConstant k || k = .identifier || k = .leftParen

/-- The tokens that an expression can start with. -/
def startsExpression (k : Kind) : Bool := Parse.isPrefixOperator k || startsPrimary k

theorem startsExpression_of_primary {k : Kind} (h : startsPrimary k = true) :
    startsExpression k = true := by
  simp [startsExpression, h]

theorem Phrase.head_primary (d : Phrase .primary) :
    ∃ t ts, d.tokens = t :: ts ∧ startsPrimary t.kind = true := by
  cases d with
  | constant t => exact ⟨t.1, [], by rw [Phrase.tokens], by simp [startsPrimary, t.2]⟩
  | name t => exact ⟨t.1, [], by rw [Phrase.tokens], by simp [startsPrimary, t.2]⟩
  | group opening inner closing =>
    exact ⟨opening.1, _, by rw [Phrase.tokens], by simp [startsPrimary, opening.2]⟩

/-- A phrase that begins with another one begins with the token of that one. -/
theorem head_append {ts us : List Token} {p : Kind → Bool}
    (h : ∃ t vs, ts = t :: vs ∧ p t.kind = true) :
    ∃ t vs, ts ++ us = t :: vs ∧ p t.kind = true := by
  obtain ⟨t, vs, rfl, hp⟩ := h
  exact ⟨t, vs ++ us, rfl, hp⟩

theorem Phrase.head : {r : Rule} → (d : Phrase r) →
    ∃ t ts, d.tokens = t :: ts ∧ startsExpression t.kind = true
  | _, .plain d => d.head
  | _, .assign target _ _ => head_append target.head
  | _, .chain first _ => head_append first.head
  | _, .simple d => d.head
  | _, .ternary c _ _ _ _ => head_append c.head
  | _, .signed operator _ =>
    ⟨operator.1, _, by rw [Phrase.tokens], by simp [startsExpression, operator.2]⟩
  | _, .unsigned d => d.head
  | _, .call callee _ => by
    obtain ⟨t, ts, e, h⟩ := callee.head_primary
    exact head_append ⟨t, ts, e, startsExpression_of_primary h⟩
  | _, .constant t => by
    obtain ⟨u, ts, e, h⟩ := (Phrase.constant t).head_primary
    exact ⟨u, ts, e, startsExpression_of_primary h⟩
  | _, .name t => by
    obtain ⟨u, ts, e, h⟩ := (Phrase.name t).head_primary
    exact ⟨u, ts, e, startsExpression_of_primary h⟩
  | _, .group opening inner closing => by
    obtain ⟨u, ts, e, h⟩ := (Phrase.group opening inner closing).head_primary
    exact ⟨u, ts, e, startsExpression_of_primary h⟩

theorem Arguments.head (d : Arguments) :
    ∃ t ts, d.tokens = t :: ts ∧ startsExpression t.kind = true := by
  cases d with
  | one d =>
    rw [Arguments.tokens]
    exact d.head
  | more first comma rest =>
    rw [Arguments.tokens]
    exact head_append first.head

/-- No primary expression starts with a prefix operator. -/
theorem not_prefixed {k : Kind} (h : startsPrimary k = true) :
    Parse.isPrefixOperator k = false := by
  cases k <;> first | rfl | cases h

/-- No expression starts with a token that can follow one. -/
theorem not_closing {k : Kind} (h : startsExpression k = true) :
    k ≠ .rightParen ∧ k ≠ .semicolon ∧ k ≠ .varKw ∧ k ≠ .funKw ∧ k ≠ .rightBrace ∧ k ≠ .elseKw := by
  cases k <;> first | decide | cases h

/-! ## Where a phrase ends -/

/-- How tightly a token binds to the expression before it. -/
def strength : Kind → Nat
  | .comma => 1
  | .question => 2
  | .orKw => 3
  | .andKw => 4
  | .bangEqual | .equalEqual => 5
  | .greater | .greaterEqual | .less | .lessEqual => 6
  | .minus | .plus => 7
  | .slash | .star => 8
  | .leftParen => 9
  | _ => 0

def levelStrength : Level → Nat
  | .series => 1
  | .disjunction => 3
  | .conjunction => 4
  | .equality => 5
  | .comparison => 6
  | .term => 7
  | .factor => 8

/-- Whether a token after a phrase goes on with it. -/
def Rule.continues : Rule → Kind → Bool
  | .assignment .full, k => k = .equal || 1 ≤ strength k
  | .assignment .argument, k => k = .equal || 2 ≤ strength k
  | .chain l, k => levelStrength l ≤ strength k
  | .conditional, k => 2 ≤ strength k
  | .unary, k => 9 ≤ strength k
  | .call, k => 9 ≤ strength k
  | .primary, _ => false

/-- The text after a phrase does not go on with it. -/
def Stops (r : Rule) (rest : List Token) : Prop :=
  ∀ t ∈ rest.head?, r.continues t.kind = false

theorem continues_operand (l : Level) (k : Kind) :
    l.operand.continues k = decide (levelStrength l < strength k) := by
  cases l <;> rfl

theorem has_iff (l : Level) (k : Kind) :
    l.has k = true ↔ strength k = levelStrength l := by
  cases l <;> cases k <;> decide

theorem stops_cons {r : Rule} {t : Token} {ts : List Token} :
    Stops r (t :: ts) ↔ r.continues t.kind = false := by
  simp [Stops]

/-- A token of a kind that does not go on with a phrase stops it. -/
theorem stops_tok {r : Rule} {k : Kind} (t : Tok k) {ts : List Token}
    (h : r.continues k = false) : Stops r (t.1 :: ts) := by
  rw [stops_cons, t.2]
  exact h

/-- What stops a phrase stops one that binds tighter. -/
theorem Stops.mono {r r' : Rule} {ts : List Token} (h : Stops r ts)
    (hle : ∀ k, r'.continues k = true → r.continues k = true) : Stops r' ts := by
  intro t ht
  have := h t ht
  cases h' : r'.continues t.kind with
  | false => rfl
  | true => rw [hle _ h'] at this; cases this

theorem Stops.target {e : Extent} {ts : List Token} (h : Stops (.assignment e) ts) :
    Stops e.target ts := by
  refine h.mono fun k hk => ?_
  cases e with
  | full =>
    have hs : 1 ≤ strength k := of_decide_eq_true hk
    simp [Rule.continues, hs]
  | argument =>
    have hs : 2 ≤ strength k := of_decide_eq_true hk
    simp [Rule.continues, hs]

theorem Stops.disjunction {ts : List Token} (h : Stops .conditional ts) :
    Stops (.chain .disjunction) ts := by
  refine h.mono fun k hk => ?_
  have hs : 3 ≤ strength k := of_decide_eq_true hk
  exact decide_eq_true (by omega)

/-- What stops a full expression stops an argument. -/
theorem Stops.argument {ts : List Token} (h : Stops (.assignment .full) ts) :
    Stops (.assignment .argument) ts := by
  refine h.mono fun k hk => ?_
  simp only [Rule.continues, Bool.or_eq_true, decide_eq_true_eq] at hk ⊢
  exact hk.imp_right fun h => by omega

/-- The operands of a chain stop at its operators, and where the chain stops. -/
theorem Stops.operand {l : Level} {ts : List Token} (tail : Tail l)
    (h : Stops (.chain l) ts) : Stops l.operand (tail.tokens ++ ts) := by
  cases tail with
  | done =>
    refine h.mono fun k hk => ?_
    rw [continues_operand, decide_eq_true_eq] at hk
    simp only [Rule.continues, decide_eq_true_eq]
    omega
  | more operator right rest =>
    have := (has_iff l _).mp operator.2
    refine stops_cons.mpr ?_
    rw [continues_operand, decide_eq_false_iff_not]
    omega

end Grammar

end Treewalk
