import Treewalk.Proofs.Grammar.Sentence

/-!
# A text has one derivation

Two derivations of one construct whose texts start at the same place are equal,
and end at the same place, if neither could go on with what follows it. This is
about the grammar alone: no parser is involved.

Results:

* `Phrase.unique`: the derivation of an expression is unique.
* `Decls.unique`: so is that of a sequence of declarations in which each `else`
  belongs to the nearest `if`.
-/
namespace Treewalk

namespace Grammar

/-- A token of a kind that goes on with a phrase does not stop it. -/
theorem not_stops {r : Rule} {k : Kind} {t : Tok k} {ts : List Token}
    (h : r.continues k = true) : ¬ Stops r (t.1 :: ts) := by
  rw [stops_cons, t.2, h]
  decide

/-- Tokens of different kinds are different. -/
theorem tok_ne {k k' : Kind} {t : Tok k} {t' : Tok k'} (h : k ≠ k') : t.1 ≠ t'.1 :=
  fun e => h (t.2.symm.trans ((congrArg Token.kind e).trans t'.2))

/-! ## Expressions -/

/-- A phrase is the only one of its rule with its text. -/
def Phrase.Unique {r : Rule} (d : Phrase r) : Prop :=
  ∀ (d' : Phrase r) {us us' : List Token}, d.tokens ++ us = d'.tokens ++ us' →
    Stops r us → Stops r us' → d = d' ∧ us = us'

def Tail.Unique {l : Level} (d : Tail l) : Prop :=
  ∀ (d' : Tail l) {us us' : List Token}, d.tokens ++ us = d'.tokens ++ us' →
    Stops (.chain l) us → Stops (.chain l) us' → d = d' ∧ us = us'

def Suffixes.Unique (d : Suffixes) : Prop :=
  ∀ (d' : Suffixes) {us us' : List Token}, d.tokens ++ us = d'.tokens ++ us' →
    Stops .call us → Stops .call us' → d = d' ∧ us = us'

def Arguments.Unique (d : Arguments) : Prop :=
  ∀ (d' : Arguments) {us us' : List Token}, d.tokens ++ us = d'.tokens ++ us' →
    Stops (.assignment .full) us → Stops (.assignment .full) us' → d = d' ∧ us = us'

section Expressions

/-- Where an assignment ends there is no equals sign. -/
theorem not_stops_equal {e : Extent} {t : Tok .equal} {ts : List Token} :
    ¬ Stops (.assignment e) (t.1 :: ts) :=
  not_stops (by cases e <;> rfl)

/-- The left side of an assignment ends at the equals sign. -/
theorem stops_equal {e : Extent} (t : Tok .equal) {ts : List Token} :
    Stops e.target (t.1 :: ts) :=
  stops_tok t (by cases e <;> rfl)

theorem unique_plain {e : Extent} {d : Phrase e.target} (hd : d.Unique) :
    (Phrase.plain d).Unique := by
  intro d' us us' h hs hs'
  cases d' with
  | plain d' =>
    obtain ⟨rfl, rfl⟩ := hd d' h hs.target hs'.target
    exact ⟨rfl, rfl⟩
  | assign target equals value =>
    simp only [Phrase.tokens, List.append_assoc, List.cons_append] at h
    obtain ⟨-, rfl⟩ := hd target h hs.target (stops_equal equals)
    exact absurd hs not_stops_equal

theorem unique_assign {e : Extent} {target : Phrase e.target} {equals : Tok .equal}
    {value : Phrase (.assignment e)} (ht : target.Unique) (hv : value.Unique) :
    (Phrase.assign target equals value).Unique := by
  intro d' us us' h hs hs'
  cases d' with
  | plain d' =>
    simp only [Phrase.tokens, List.append_assoc, List.cons_append] at h
    obtain ⟨-, rfl⟩ := ht d' h (stops_equal equals) hs'.target
    exact absurd hs' not_stops_equal
  | assign target' equals' value' =>
    simp only [Phrase.tokens, List.append_assoc, List.cons_append] at h
    obtain ⟨rfl, h₁⟩ := ht target' h (stops_equal equals) (stops_equal equals')
    obtain ⟨he, h₂⟩ := List.cons.inj h₁
    obtain ⟨rfl, rfl⟩ := hv value' h₂ hs hs'
    cases Subtype.ext he
    exact ⟨rfl, rfl⟩

theorem unique_chain {l : Level} {first : Phrase l.operand} {tail : Tail l}
    (hf : first.Unique) (ht : tail.Unique) : (Phrase.chain first tail).Unique := by
  intro d' us us' h hs hs'
  cases d' with
  | chain first' tail' =>
    simp only [Phrase.tokens, List.append_assoc] at h
    obtain ⟨rfl, h₁⟩ := hf first' h (hs.operand tail) (hs'.operand tail')
    obtain ⟨rfl, rfl⟩ := ht tail' h₁ hs hs'
    exact ⟨rfl, rfl⟩

/-- Where a chain ends there is no operator of its level. -/
theorem not_stops_operator {l : Level} {t : TokIn l.has} {ts : List Token} :
    ¬ Stops (.chain l) (t.1 :: ts) := by
  have hk := (has_iff l _).mp t.2
  rw [stops_cons]
  simp [Rule.continues, hk]

theorem unique_done {l : Level} : (Tail.done (l := l)).Unique := by
  intro d' us us' h hs hs'
  cases d' with
  | done => exact ⟨rfl, h⟩
  | more operator right tail =>
    cases h
    exact absurd hs not_stops_operator

theorem unique_more {l : Level} {operator : TokIn l.has} {right : Phrase l.operand}
    {tail : Tail l} (hr : right.Unique) (ht : tail.Unique) :
    (Tail.more operator right tail).Unique := by
  intro d' us us' h hs hs'
  cases d' with
  | done =>
    cases h
    exact absurd hs' not_stops_operator
  | more operator' right' tail' =>
    simp only [Tail.tokens, List.append_assoc, List.cons_append] at h
    obtain ⟨ho, h₁⟩ := List.cons.inj h
    obtain ⟨rfl, h₂⟩ := hr right' h₁ (hs.operand tail) (hs'.operand tail')
    obtain ⟨rfl, rfl⟩ := ht tail' h₂ hs hs'
    cases Subtype.ext ho
    exact ⟨rfl, rfl⟩

theorem unique_simple {d : Phrase (.chain .disjunction)} (hd : d.Unique) :
    (Phrase.simple d).Unique := by
  intro d' us us' h hs hs'
  cases d' with
  | simple d' =>
    obtain ⟨rfl, rfl⟩ := hd d' h hs.disjunction hs'.disjunction
    exact ⟨rfl, rfl⟩
  | ternary c question t colon f =>
    simp only [Phrase.tokens, List.append_assoc, List.cons_append] at h
    obtain ⟨-, rfl⟩ := hd c h hs.disjunction (stops_tok question rfl)
    exact absurd hs (not_stops rfl)

theorem unique_ternary {c : Phrase (.chain .disjunction)} {question : Tok .question}
    {t : Phrase (.assignment .full)} {colon : Tok .colon} {f : Phrase .conditional}
    (hc : c.Unique) (ht : t.Unique) (hf : f.Unique) :
    (Phrase.ternary c question t colon f).Unique := by
  intro d' us us' h hs hs'
  cases d' with
  | simple d' =>
    simp only [Phrase.tokens, List.append_assoc, List.cons_append] at h
    obtain ⟨-, rfl⟩ := hc d' h (stops_tok question rfl) hs'.disjunction
    exact absurd hs' (not_stops rfl)
  | ternary c' question' t' colon' f' =>
    simp only [Phrase.tokens, List.append_assoc, List.cons_append] at h
    obtain ⟨rfl, h₁⟩ := hc c' h (stops_tok question rfl) (stops_tok question' rfl)
    obtain ⟨hq, h₂⟩ := List.cons.inj h₁
    obtain ⟨rfl, h₃⟩ := ht t' h₂ (stops_tok colon rfl) (stops_tok colon' rfl)
    obtain ⟨hcolon, h₄⟩ := List.cons.inj h₃
    obtain ⟨rfl, rfl⟩ := hf f' h₄ hs hs'
    cases Subtype.ext hq
    cases Subtype.ext hcolon
    exact ⟨rfl, rfl⟩

/-- An expression without a sign does not start with one. -/
theorem not_signed {d : Phrase .call} {operator : TokIn Parse.isPrefixOperator}
    {us us' : List Token} : d.tokens ++ us ≠ operator.1 :: us' := by
  cases d with
  | call callee suffixes =>
    obtain ⟨t, ts, e, ht⟩ := callee.head_primary
    intro h
    simp only [Phrase.tokens, e, List.cons_append, List.cons.injEq] at h
    have hp := operator.2
    rw [← h.1, not_prefixed ht] at hp
    cases hp

theorem unique_signed {operator : TokIn Parse.isPrefixOperator} {right : Phrase .unary}
    (hr : right.Unique) : (Phrase.signed operator right).Unique := by
  intro d' us us' h hs hs'
  cases d' with
  | signed operator' right' =>
    simp only [Phrase.tokens, List.cons_append] at h
    obtain ⟨ho, h₁⟩ := List.cons.inj h
    obtain ⟨rfl, rfl⟩ := hr right' h₁ hs hs'
    cases Subtype.ext ho
    exact ⟨rfl, rfl⟩
  | unsigned d' => exact absurd h.symm not_signed

theorem unique_unsigned {d : Phrase .call} (hd : d.Unique) : (Phrase.unsigned d).Unique := by
  intro d' us us' h hs hs'
  cases d' with
  | signed operator' right' => exact absurd h not_signed
  | unsigned d' =>
    obtain ⟨rfl, rfl⟩ := hd d' h hs hs'
    exact ⟨rfl, rfl⟩

theorem unique_call {callee : Phrase .primary} {suffixes : Suffixes} (hc : callee.Unique)
    (hs : suffixes.Unique) : (Phrase.call callee suffixes).Unique := by
  intro d' us us' h hstop hstop'
  cases d' with
  | call callee' suffixes' =>
    simp only [Phrase.tokens, List.append_assoc] at h
    obtain ⟨rfl, h₁⟩ := hc callee' h (fun _ _ => rfl) (fun _ _ => rfl)
    obtain ⟨rfl, rfl⟩ := hs suffixes' h₁ hstop hstop'
    exact ⟨rfl, rfl⟩

theorem unique_suffixes_done : Suffixes.done.Unique := by
  intro d' us us' h hs hs'
  cases d' with
  | done => exact ⟨rfl, h⟩
  | empty opening closing others | applied opening args closing others =>
    cases h
    exact absurd hs (not_stops rfl)

/-- An argument does not start with a closing parenthesis. -/
theorem not_empty_arguments {args : Arguments} {t : Tok .rightParen} {us us' : List Token} :
    args.tokens ++ us ≠ t.1 :: us' := by
  obtain ⟨u, ts, e, hu⟩ := args.head
  intro h
  simp only [e, List.cons_append, List.cons.injEq] at h
  exact (not_closing hu).1 (h.1 ▸ t.2)

theorem unique_empty {opening : Tok .leftParen} {closing : Tok .rightParen} {others : Suffixes}
    (ho : others.Unique) : (Suffixes.empty opening closing others).Unique := by
  intro d' us us' h hs hs'
  cases d' with
  | done =>
    cases h
    exact absurd hs' (not_stops rfl)
  | empty opening' closing' others' =>
    simp only [Suffixes.tokens, List.cons_append] at h
    obtain ⟨hopening, h₁⟩ := List.cons.inj h
    obtain ⟨hclosing, h₂⟩ := List.cons.inj h₁
    obtain ⟨rfl, rfl⟩ := ho others' h₂ hs hs'
    cases Subtype.ext hopening
    cases Subtype.ext hclosing
    exact ⟨rfl, rfl⟩
  | applied opening' args' closing' others' =>
    simp only [Suffixes.tokens, List.append_assoc, List.cons_append] at h
    exact absurd (List.cons.inj h).2.symm not_empty_arguments

theorem unique_applied {opening : Tok .leftParen} {args : Arguments} {closing : Tok .rightParen}
    {others : Suffixes} (ha : args.Unique) (ho : others.Unique) :
    (Suffixes.applied opening args closing others).Unique := by
  intro d' us us' h hs hs'
  cases d' with
  | done =>
    cases h
    exact absurd hs' (not_stops rfl)
  | empty opening' closing' others' =>
    simp only [Suffixes.tokens, List.append_assoc, List.cons_append] at h
    exact absurd (List.cons.inj h).2 not_empty_arguments
  | applied opening' args' closing' others' =>
    simp only [Suffixes.tokens, List.append_assoc, List.cons_append] at h
    obtain ⟨hopening, h₁⟩ := List.cons.inj h
    obtain ⟨rfl, h₂⟩ := ha args' h₁ (stops_tok closing rfl) (stops_tok closing' rfl)
    obtain ⟨hclosing, h₃⟩ := List.cons.inj h₂
    obtain ⟨rfl, rfl⟩ := ho others' h₃ hs hs'
    cases Subtype.ext hopening
    cases Subtype.ext hclosing
    exact ⟨rfl, rfl⟩

theorem unique_one {d : Phrase (.assignment .argument)} (hd : d.Unique) :
    (Arguments.one d).Unique := by
  intro d' us us' h hs hs'
  cases d' with
  | one d' =>
    obtain ⟨rfl, rfl⟩ := hd d' h hs.argument hs'.argument
    exact ⟨rfl, rfl⟩
  | more first comma others =>
    simp only [Arguments.tokens, List.append_assoc, List.cons_append] at h
    obtain ⟨-, rfl⟩ := hd first h hs.argument (stops_tok comma rfl)
    exact absurd hs (not_stops rfl)

theorem unique_arguments {first : Phrase (.assignment .argument)} {comma : Tok .comma}
    {others : Arguments} (hf : first.Unique) (ho : others.Unique) :
    (Arguments.more first comma others).Unique := by
  intro d' us us' h hs hs'
  cases d' with
  | one d' =>
    simp only [Arguments.tokens, List.append_assoc, List.cons_append] at h
    obtain ⟨-, rfl⟩ := hf d' h (stops_tok comma rfl) hs'.argument
    exact absurd hs' (not_stops rfl)
  | more first' comma' others' =>
    simp only [Arguments.tokens, List.append_assoc, List.cons_append] at h
    obtain ⟨rfl, h₁⟩ := hf first' h (stops_tok comma rfl) (stops_tok comma' rfl)
    obtain ⟨hcomma, h₂⟩ := List.cons.inj h₁
    obtain ⟨rfl, rfl⟩ := ho others' h₂ hs hs'
    cases Subtype.ext hcomma
    exact ⟨rfl, rfl⟩

/-- A constant is of no kind that is not one. -/
theorem not_constant {k : Kind} {t : TokIn isConstant} {t' : Tok k} (h : isConstant k = false) :
    t.1 ≠ t'.1 := by
  intro e
  have := t.2
  rw [e, t'.2, h] at this
  cases this

theorem unique_constant (t : TokIn isConstant) : (Phrase.constant t).Unique := by
  intro d' us us' h _ _
  cases d' with
  | constant t' =>
    obtain ⟨ht, rfl⟩ := List.cons.inj h
    cases Subtype.ext ht
    exact ⟨rfl, rfl⟩
  | name t' => exact absurd (List.cons.inj h).1 (not_constant rfl)
  | group opening inner closing => exact absurd (List.cons.inj h).1 (not_constant rfl)

theorem unique_name (t : Tok .identifier) : (Phrase.name t).Unique := by
  intro d' us us' h _ _
  cases d' with
  | constant t' => exact absurd (List.cons.inj h).1.symm (not_constant rfl)
  | name t' =>
    obtain ⟨ht, rfl⟩ := List.cons.inj h
    cases Subtype.ext ht
    exact ⟨rfl, rfl⟩
  | group opening inner closing => exact absurd (List.cons.inj h).1 (tok_ne (by decide))

theorem unique_group {opening : Tok .leftParen} {inner : Phrase (.assignment .full)}
    {closing : Tok .rightParen} (hi : inner.Unique) :
    (Phrase.group opening inner closing).Unique := by
  intro d' us us' h _ _
  cases d' with
  | constant t' => exact absurd (List.cons.inj h).1.symm (not_constant rfl)
  | name t' => exact absurd (List.cons.inj h).1 (tok_ne (by decide))
  | group opening' inner' closing' =>
    simp only [Phrase.tokens, List.append_assoc, List.cons_append, List.nil_append] at h
    obtain ⟨ho, h₁⟩ := List.cons.inj h
    obtain ⟨rfl, h₂⟩ := hi inner' h₁ (stops_tok closing rfl) (stops_tok closing' rfl)
    obtain ⟨hc, rfl⟩ := List.cons.inj h₂
    cases Subtype.ext ho
    cases Subtype.ext hc
    exact ⟨rfl, rfl⟩

end Expressions

mutual

theorem Phrase.unique : {r : Rule} → (d : Phrase r) → d.Unique
  | _, .plain d => unique_plain d.unique
  | _, .assign target _ value => unique_assign target.unique value.unique
  | _, .chain first tail => unique_chain first.unique tail.unique
  | _, .simple d => unique_simple d.unique
  | _, .ternary c _ t _ f => unique_ternary c.unique t.unique f.unique
  | _, .signed _ right => unique_signed right.unique
  | _, .unsigned d => unique_unsigned d.unique
  | _, .call callee suffixes => unique_call callee.unique suffixes.unique
  | _, .constant t => unique_constant t
  | _, .name t => unique_name t
  | _, .group _ inner _ => unique_group inner.unique

theorem Tail.unique : {l : Level} → (d : Tail l) → d.Unique
  | _, .done => unique_done
  | _, .more _ right rest => unique_more right.unique rest.unique

theorem Suffixes.unique : (d : Suffixes) → d.Unique
  | .done => unique_suffixes_done
  | .empty _ _ rest => unique_empty rest.unique
  | .applied _ args _ rest => unique_applied args.unique rest.unique

theorem Arguments.unique : (d : Arguments) → d.Unique
  | .one d => unique_one d.unique
  | .more first _ rest => unique_arguments first.unique rest.unique

end

/-! ## Clauses -/

section Clauses

variable {us us' : List Token}

theorem Parameters.unique : (d d' : Parameters) → {us us' : List Token} →
    d.tokens ++ us = d'.tokens ++ us' → (∀ t ∈ us.head?, t.kind ≠ .comma) →
      (∀ t ∈ us'.head?, t.kind ≠ .comma) → d = d' ∧ us = us'
  | .one t, .one t', us, us', h, _, _ => by
    obtain ⟨ht, rfl⟩ := List.cons.inj h
    cases Subtype.ext ht
    exact ⟨rfl, rfl⟩
  | .one t, .more t' comma d', us, us', h, hs, _ => by
    obtain ⟨-, rfl⟩ := List.cons.inj h
    exact absurd comma.2 (hs _ rfl)
  | .more t comma d, .one t', us, us', h, _, hs' => by
    obtain ⟨-, rfl⟩ := List.cons.inj h
    exact absurd comma.2 (hs' _ rfl)
  | .more t comma d, .more t' comma' d', us, us', h, hs, hs' => by
    obtain ⟨ht, h₁⟩ := List.cons.inj h
    obtain ⟨hc, h₂⟩ := List.cons.inj h₁
    obtain ⟨rfl, rfl⟩ := d.unique d' h₂ hs hs'
    cases Subtype.ext ht
    cases Subtype.ext hc
    exact ⟨rfl, rfl⟩

/-- An expression before a token that can follow it. -/
theorem expression_unique {k : Kind} {t t' : Tok k} {d d' : Exp}
    (h : d.tokens ++ t.1 :: us = d'.tokens ++ t'.1 :: us')
    (hk : (Rule.assignment .full).continues k = false) : d = d' ∧ t = t' ∧ us = us' := by
  obtain ⟨rfl, h₁⟩ := d.unique d' h (stops_tok t hk) (stops_tok t' hk)
  obtain ⟨ht, rfl⟩ := List.cons.inj h₁
  exact ⟨rfl, Subtype.ext ht, rfl⟩

/-- An expression does not start with a token that can only follow one. -/
theorem not_closing_token {k : Kind} {t : Tok k} {d : Exp} (hk : startsExpression k = false) :
    d.tokens ++ us ≠ t.1 :: us' := by
  obtain ⟨u, ts, e, hu⟩ := d.head
  intro h
  simp only [e, List.cons_append, List.cons.injEq] at h
  rw [h.1, t.2, hk] at hu
  cases hu

theorem optional_unique {k : Kind} {t t' : Tok k} {d d' : Option Exp}
    (h : optional d ++ t.1 :: us = optional d' ++ t'.1 :: us')
    (hk : (Rule.assignment .full).continues k = false) (hk' : startsExpression k = false) :
    d = d' ∧ t = t' ∧ us = us' := by
  cases d with
  | none =>
    cases d' with
    | none =>
      obtain ⟨ht, rfl⟩ := List.cons.inj h
      exact ⟨rfl, Subtype.ext ht, rfl⟩
    | some d' => exact absurd h.symm (not_closing_token hk')
  | some d =>
    cases d' with
    | none => exact absurd h (not_closing_token hk')
    | some d' =>
      obtain ⟨rfl, ht, hus⟩ := expression_unique h hk
      exact ⟨rfl, ht, hus⟩

theorem ExprClause.unique {d d' : ExprClause} (h : d.tokens ++ us = d'.tokens ++ us') :
    d = d' ∧ us = us' := by
  obtain ⟨value, semicolon⟩ := d
  obtain ⟨value', semicolon'⟩ := d'
  simp only [ExprClause.tokens, List.append_assoc, List.cons_append, List.nil_append] at h
  obtain ⟨rfl, rfl, rfl⟩ := expression_unique h rfl
  exact ⟨rfl, rfl⟩

theorem VarClause.unique {d d' : VarClause} (h : d.tokens ++ us = d'.tokens ++ us') :
    d = d' ∧ us = us' := by
  obtain ⟨keyword, name, initial, semicolon⟩ := d
  obtain ⟨keyword', name', initial', semicolon'⟩ := d'
  simp only [VarClause.tokens, List.append_assoc, List.cons_append, List.nil_append] at h
  obtain ⟨hk, h₁⟩ := List.cons.inj h
  obtain ⟨hn, h₂⟩ := List.cons.inj h₁
  cases Subtype.ext hk
  cases Subtype.ext hn
  cases initial with
  | none =>
    cases initial' with
    | none =>
      obtain ⟨hs, rfl⟩ := List.cons.inj h₂
      cases Subtype.ext hs
      exact ⟨rfl, rfl⟩
    | some i => exact absurd (List.cons.inj h₂).1 (tok_ne (by decide))
  | some i =>
    cases initial' with
    | none => exact absurd (List.cons.inj h₂).1 (tok_ne (by decide))
    | some i' =>
      obtain ⟨equals, value⟩ := i
      obtain ⟨equals', value'⟩ := i'
      obtain ⟨he, h₃⟩ := List.cons.inj h₂
      obtain ⟨rfl, rfl, rfl⟩ := expression_unique h₃ rfl
      cases Subtype.ext he
      exact ⟨rfl, rfl⟩

/-- A clause that is an expression does not start like the other ones. -/
theorem ExprClause.not_keyword {k : Kind} {t : Tok k} {d : ExprClause}
    (hk : startsExpression k = false) : d.tokens ++ us ≠ t.1 :: us' := by
  rw [ExprClause.tokens, List.append_assoc]
  exact not_closing_token hk

theorem FirstClause.unique {d d' : FirstClause} (h : d.tokens ++ us = d'.tokens ++ us') :
    d = d' ∧ us = us' := by
  cases d with
  | absent t =>
    cases d' with
    | absent t' =>
      obtain ⟨ht, rfl⟩ := List.cons.inj h
      cases Subtype.ext ht
      exact ⟨rfl, rfl⟩
    | var d' => exact absurd (List.cons.inj h).1 (tok_ne (by decide))
    | expr d' => exact absurd h.symm (ExprClause.not_keyword rfl)
  | var d =>
    cases d' with
    | absent t' => exact absurd (List.cons.inj h).1 (tok_ne (by decide))
    | var d' =>
      obtain ⟨rfl, rfl⟩ := VarClause.unique h
      exact ⟨rfl, rfl⟩
    | expr d' => exact absurd h.symm (ExprClause.not_keyword rfl)
  | expr d =>
    cases d' with
    | absent t' => exact absurd h (ExprClause.not_keyword rfl)
    | var d' => exact absurd h (ExprClause.not_keyword rfl)
    | expr d' =>
      obtain ⟨rfl, rfl⟩ := ExprClause.unique h
      exact ⟨rfl, rfl⟩

end Clauses

/-! ## Statements -/

/-- The keyword or brace that a statement starts with, if it is not an expression. -/
def Statement.lead : Statement → Option Kind
  | .expr _ => none
  | .forLoop .. => some .forKw
  | .ifThen .. | .ifElse .. => some .ifKw
  | .print .. => some .printKw
  | .ret .. => some .returnKw
  | .whileLoop .. => some .whileKw
  | .block .. => some .leftBrace

theorem Statement.lead_head (d : Statement) : ∃ t ts, d.tokens = t :: ts ∧
    d.lead = if opensStatement t.kind then some t.kind else none := by
  cases d with
  | expr d =>
    obtain ⟨t, ts, e, ht⟩ := d.head
    exact ⟨t, ts, e, by simp [Statement.lead, not_opening ht]⟩
  | forLoop keyword | ifThen keyword | ifElse keyword | print keyword | ret keyword
  | whileLoop keyword | block keyword =>
    exact ⟨keyword.1, _, rfl, by rw [keyword.2]; rfl⟩

/-- Statements that start with the same token are of the same kind. -/
theorem Statement.lead_eq {d d' : Statement} {us us' : List Token}
    (h : d.tokens ++ us = d'.tokens ++ us') : d.lead = d'.lead := by
  obtain ⟨t, ts, e, hd⟩ := d.lead_head
  obtain ⟨t', ts', e', hd'⟩ := d'.lead_head
  rw [e, e', List.cons_append, List.cons_append] at h
  obtain ⟨rfl, -⟩ := List.cons.inj h
  rw [hd, hd']

/-- A statement is the only one with its text. -/
def Statement.Unique (d : Statement) : Prop :=
  ∀ (d' : Statement) {us us' : List Token}, d.tokens ++ us = d'.tokens ++ us' → d'.Nearest →
    (d.open = true → NoElse us) → (d'.open = true → NoElse us') → d = d' ∧ us = us'

def Decl.Unique (d : Decl) : Prop :=
  ∀ (d' : Decl) {us us' : List Token}, d.tokens ++ us = d'.tokens ++ us' → d'.Nearest →
    NoElse us → NoElse us' → d = d' ∧ us = us'

def Decls.Unique (d : Decls) : Prop :=
  ∀ (d' : Decls) (inBlock : Bool) {us us' : List Token}, d.tokens ++ us = d'.tokens ++ us' →
    d'.Nearest → Ends inBlock us → Ends inBlock us' → d = d' ∧ us = us'

section Statements

theorem unique_expr (d : ExprClause) : (Statement.expr d).Unique := by
  intro d' us us' h _ _ _
  have hl := Statement.lead_eq h
  cases d' with
  | expr d' =>
    obtain ⟨rfl, rfl⟩ := ExprClause.unique h
    exact ⟨rfl, rfl⟩
  | _ => cases hl

theorem unique_for {keyword : Tok .forKw} {opening : Tok .leftParen} {first : FirstClause}
    {condition : Option Exp} {semicolon : Tok .semicolon} {last : Option Exp}
    {closing : Tok .rightParen} {body : Statement} (hb : body.Unique) :
    (Statement.forLoop keyword opening first condition semicolon last closing body).Unique := by
  intro d' us us' h hn hs hs'
  have hl := Statement.lead_eq h
  cases d' with
  | forLoop keyword' opening' first' condition' semicolon' last' closing' body' =>
    simp only [Statement.tokens, List.append_assoc, List.cons_append] at h
    obtain ⟨hk, h₁⟩ := List.cons.inj h
    obtain ⟨ho, h₂⟩ := List.cons.inj h₁
    obtain ⟨rfl, h₃⟩ := FirstClause.unique h₂
    obtain ⟨rfl, rfl, h₄⟩ := optional_unique h₃ rfl rfl
    obtain ⟨rfl, rfl, h₅⟩ := optional_unique h₄ rfl rfl
    obtain ⟨rfl, rfl⟩ := hb body' h₅ hn hs hs'
    cases Subtype.ext hk
    cases Subtype.ext ho
    exact ⟨rfl, rfl⟩
  | _ => cases hl

theorem unique_ifThen {keyword : Tok .ifKw} {opening : Tok .leftParen} {condition : Exp}
    {closing : Tok .rightParen} {whenTrue : Statement} (hw : whenTrue.Unique) :
    (Statement.ifThen keyword opening condition closing whenTrue).Unique := by
  intro d' us us' h hn hs hs'
  have hl := Statement.lead_eq h
  cases d' with
  | ifThen keyword' opening' condition' closing' whenTrue' =>
    simp only [Statement.tokens, List.append_assoc, List.cons_append] at h
    obtain ⟨hk, h₁⟩ := List.cons.inj h
    obtain ⟨ho, h₂⟩ := List.cons.inj h₁
    obtain ⟨rfl, rfl, h₃⟩ := expression_unique h₂ rfl
    obtain ⟨rfl, rfl⟩ := hw whenTrue' h₃ hn (fun _ => hs rfl) (fun _ => hs' rfl)
    cases Subtype.ext hk
    cases Subtype.ext ho
    exact ⟨rfl, rfl⟩
  | ifElse keyword' opening' condition' closing' whenTrue' otherwise whenFalse =>
    simp only [Statement.tokens, List.append_assoc, List.cons_append] at h
    obtain ⟨hk, h₁⟩ := List.cons.inj h
    obtain ⟨ho, h₂⟩ := List.cons.inj h₁
    obtain ⟨rfl, rfl, h₃⟩ := expression_unique h₂ rfl
    -- The `else` of the other one would come after this one.
    have hclosed : whenTrue'.open = true → NoElse (otherwise.1 :: (whenFalse.tokens ++ us')) := by
      intro hopen
      rw [hn.1] at hopen
      cases hopen
    obtain ⟨-, rfl⟩ := hw whenTrue' h₃ hn.2.1 (fun _ => hs rfl) hclosed
    exact absurd otherwise.2 (hs rfl _ rfl)
  | _ => cases hl

theorem unique_ifElse {keyword : Tok .ifKw} {opening : Tok .leftParen} {condition : Exp}
    {closing : Tok .rightParen} {whenTrue whenFalse : Statement} {otherwise : Tok .elseKw}
    (hopen : whenTrue.open = false) (hw : whenTrue.Unique) (hf : whenFalse.Unique) :
    (Statement.ifElse keyword opening condition closing whenTrue otherwise whenFalse).Unique := by
  intro d' us us' h hn hs hs'
  have hl := Statement.lead_eq h
  have hclosed : whenTrue.open = true → NoElse (otherwise.1 :: (whenFalse.tokens ++ us)) := by
    rw [hopen]
    intro hfalse
    cases hfalse
  cases d' with
  | ifThen keyword' opening' condition' closing' whenTrue' =>
    simp only [Statement.tokens, List.append_assoc, List.cons_append] at h
    obtain ⟨hk, h₁⟩ := List.cons.inj h
    obtain ⟨ho, h₂⟩ := List.cons.inj h₁
    obtain ⟨rfl, rfl, h₃⟩ := expression_unique h₂ rfl
    obtain ⟨-, rfl⟩ := hw whenTrue' h₃ hn hclosed (fun _ => hs' rfl)
    exact absurd otherwise.2 (hs' rfl _ rfl)
  | ifElse keyword' opening' condition' closing' whenTrue' otherwise' whenFalse' =>
    simp only [Statement.tokens, List.append_assoc, List.cons_append] at h
    obtain ⟨hk, h₁⟩ := List.cons.inj h
    obtain ⟨ho, h₂⟩ := List.cons.inj h₁
    obtain ⟨rfl, rfl, h₃⟩ := expression_unique h₂ rfl
    have hclosed' : whenTrue'.open = true →
        NoElse (otherwise'.1 :: (whenFalse'.tokens ++ us')) := by
      rw [hn.1]
      intro hfalse
      cases hfalse
    obtain ⟨rfl, h₄⟩ := hw whenTrue' h₃ hn.2.1 hclosed hclosed'
    obtain ⟨he, h₅⟩ := List.cons.inj h₄
    obtain ⟨rfl, rfl⟩ := hf whenFalse' h₅ hn.2.2 hs hs'
    cases Subtype.ext hk
    cases Subtype.ext ho
    cases Subtype.ext he
    exact ⟨rfl, rfl⟩
  | _ => cases hl

theorem unique_print (keyword : Tok .printKw) (value : Exp) (semicolon : Tok .semicolon) :
    (Statement.print keyword value semicolon).Unique := by
  intro d' us us' h _ _ _
  have hl := Statement.lead_eq h
  cases d' with
  | print keyword' value' semicolon' =>
    simp only [Statement.tokens, List.append_assoc, List.cons_append, List.nil_append] at h
    obtain ⟨hk, h₁⟩ := List.cons.inj h
    obtain ⟨rfl, rfl, rfl⟩ := expression_unique h₁ rfl
    cases Subtype.ext hk
    exact ⟨rfl, rfl⟩
  | _ => cases hl

theorem unique_return (keyword : Tok .returnKw) (value : Option Exp)
    (semicolon : Tok .semicolon) : (Statement.ret keyword value semicolon).Unique := by
  intro d' us us' h _ _ _
  have hl := Statement.lead_eq h
  cases d' with
  | ret keyword' value' semicolon' =>
    simp only [Statement.tokens, List.append_assoc, List.cons_append, List.nil_append] at h
    obtain ⟨hk, h₁⟩ := List.cons.inj h
    obtain ⟨rfl, rfl, rfl⟩ := optional_unique h₁ rfl rfl
    cases Subtype.ext hk
    exact ⟨rfl, rfl⟩
  | _ => cases hl

theorem unique_while {keyword : Tok .whileKw} {opening : Tok .leftParen} {condition : Exp}
    {closing : Tok .rightParen} {body : Statement} (hb : body.Unique) :
    (Statement.whileLoop keyword opening condition closing body).Unique := by
  intro d' us us' h hn hs hs'
  have hl := Statement.lead_eq h
  cases d' with
  | whileLoop keyword' opening' condition' closing' body' =>
    simp only [Statement.tokens, List.append_assoc, List.cons_append] at h
    obtain ⟨hk, h₁⟩ := List.cons.inj h
    obtain ⟨ho, h₂⟩ := List.cons.inj h₁
    obtain ⟨rfl, rfl, h₃⟩ := expression_unique h₂ rfl
    obtain ⟨rfl, rfl⟩ := hb body' h₃ hn hs hs'
    cases Subtype.ext hk
    cases Subtype.ext ho
    exact ⟨rfl, rfl⟩
  | _ => cases hl

/-- Declarations and the closing brace after them. -/
theorem block_unique {d d' : Decls} (hd : d.Unique) {t t' : Tok .rightBrace}
    {us us' : List Token} (h : d.tokens ++ t.1 :: us = d'.tokens ++ t'.1 :: us')
    (hn : d'.Nearest) : d = d' ∧ t = t' ∧ us = us' := by
  obtain ⟨rfl, h₁⟩ := hd d' true h hn ⟨_, _, rfl, t.2⟩ ⟨_, _, rfl, t'.2⟩
  obtain ⟨ht, rfl⟩ := List.cons.inj h₁
  exact ⟨rfl, Subtype.ext ht, rfl⟩

theorem unique_block {opening : Tok .leftBrace} {body : Decls} {closing : Tok .rightBrace}
    (hb : body.Unique) : (Statement.block opening body closing).Unique := by
  intro d' us us' h hn _ _
  have hl := Statement.lead_eq h
  cases d' with
  | block opening' body' closing' =>
    simp only [Statement.tokens, List.append_assoc, List.cons_append, List.nil_append] at h
    obtain ⟨ho, h₁⟩ := List.cons.inj h
    obtain ⟨rfl, rfl, rfl⟩ := block_unique hb h₁ hn
    cases Subtype.ext ho
    exact ⟨rfl, rfl⟩
  | _ => cases hl

/-- Parameters in their parentheses. -/
theorem parameters_unique {d d' : Option Parameters} {t t' : Tok .rightParen}
    {us us' : List Token} (h : parameterTokens d ++ t.1 :: us = parameterTokens d' ++ t'.1 :: us') :
    d = d' ∧ t = t' ∧ us = us' := by
  have hcomma : ∀ (t : Tok .rightParen) (us : List Token),
      ∀ u ∈ (t.1 :: us).head?, u.kind ≠ .comma := by
    intro t us u hu
    cases hu
    rw [t.2]
    decide
  cases d with
  | none =>
    cases d' with
    | none =>
      obtain ⟨ht, rfl⟩ := List.cons.inj h
      exact ⟨rfl, Subtype.ext ht, rfl⟩
    | some d' =>
      obtain ⟨u, ts, e, hu⟩ := d'.head
      rw [parameterTokens, parameterTokens, Option.map_some, Option.getD_some, e] at h
      exact absurd (congrArg Token.kind (List.cons.inj h).1) (by rw [t.2, hu]; decide)
  | some d =>
    cases d' with
    | none =>
      obtain ⟨u, ts, e, hu⟩ := d.head
      rw [parameterTokens, parameterTokens, Option.map_some, Option.getD_some, e] at h
      exact absurd (congrArg Token.kind (List.cons.inj h).1) (by rw [t'.2, hu]; decide)
    | some d' =>
      obtain ⟨rfl, h₁⟩ := d.unique d' h (hcomma t us) (hcomma t' us')
      obtain ⟨ht, rfl⟩ := List.cons.inj h₁
      exact ⟨rfl, Subtype.ext ht, rfl⟩

/-- A statement does not start with the keyword of another declaration. -/
theorem not_declaration_keyword {k : Kind} {t : Tok k} {d : Statement} {us us' : List Token}
    (hk : (startsExpression k || opensStatement k) = false) : d.tokens ++ us ≠ t.1 :: us' := by
  obtain ⟨u, ts, e, hu⟩ := d.head
  intro h
  simp only [e, List.cons_append, List.cons.injEq] at h
  rw [h.1, t.2, hk] at hu
  cases hu

theorem unique_function {keyword : Tok .funKw} {name : Tok .identifier}
    {opening : Tok .leftParen} {params : Option Parameters} {closing : Tok .rightParen}
    {before : Tok .leftBrace} {body : Decls} {after : Tok .rightBrace} (hb : body.Unique) :
    (Decl.function keyword name opening params closing before body after).Unique := by
  intro d' us us' h hn _ _
  cases d' with
  | function keyword' name' opening' params' closing' before' body' after' =>
    simp only [Decl.tokens, List.append_assoc, List.cons_append, List.nil_append] at h
    obtain ⟨hk, h₁⟩ := List.cons.inj h
    obtain ⟨hname, h₂⟩ := List.cons.inj h₁
    obtain ⟨ho, h₃⟩ := List.cons.inj h₂
    obtain ⟨rfl, rfl, h₄⟩ := parameters_unique h₃
    obtain ⟨hbefore, h₅⟩ := List.cons.inj h₄
    obtain ⟨rfl, rfl, rfl⟩ := block_unique hb h₅ hn
    cases Subtype.ext hk
    cases Subtype.ext hname
    cases Subtype.ext ho
    cases Subtype.ext hbefore
    exact ⟨rfl, rfl⟩
  | var d' => exact absurd (List.cons.inj h).1 (tok_ne (by decide))
  | statement d' => exact absurd h.symm (not_declaration_keyword rfl)

theorem unique_var (d : VarClause) : (Decl.var d).Unique := by
  intro d' us us' h _ _ _
  cases d' with
  | function keyword => exact absurd (List.cons.inj h).1 (tok_ne (by decide))
  | var d' =>
    obtain ⟨rfl, rfl⟩ := VarClause.unique h
    exact ⟨rfl, rfl⟩
  | statement d' => exact absurd h.symm (not_declaration_keyword rfl)

theorem unique_statement {d : Statement} (hd : d.Unique) : (Decl.statement d).Unique := by
  intro d' us us' h hn hs hs'
  cases d' with
  | function keyword => exact absurd h (not_declaration_keyword rfl)
  | var d' => exact absurd h (not_declaration_keyword rfl)
  | statement d' =>
    obtain ⟨rfl, rfl⟩ := hd d' h hn (fun _ => hs) (fun _ => hs')
    exact ⟨rfl, rfl⟩

/-- Where declarations end there is no further one. -/
theorem Decl.not_ends {d : Decl} {inBlock : Bool} {us : List Token} :
    ¬ Ends inBlock (d.tokens ++ us) := by
  obtain ⟨t, ts, e, ht⟩ := d.head
  rw [e]
  cases inBlock with
  | true =>
    rintro ⟨u, us', h, hu⟩
    obtain ⟨rfl, -⟩ := List.cons.inj h
    exact (not_separating ht).2 hu
  | false => exact nofun

theorem unique_nil : Decls.nil.Unique := by
  intro d' inBlock us us' h _ hs _
  cases d' with
  | nil => exact ⟨rfl, h⟩
  | cons first others =>
    simp only [Decls.tokens, List.nil_append, List.append_assoc] at h
    rw [h] at hs
    exact absurd hs Decl.not_ends

theorem unique_cons {first : Decl} {others : Decls} (hf : first.Unique) (ho : others.Unique) :
    (Decls.cons first others).Unique := by
  intro d' inBlock us us' h hn hs hs'
  cases d' with
  | nil =>
    simp only [Decls.tokens, List.nil_append, List.append_assoc] at h
    rw [← h] at hs'
    exact absurd hs' Decl.not_ends
  | cons first' others' =>
    simp only [Decls.tokens, List.append_assoc] at h
    obtain ⟨rfl, h₁⟩ := hf first' h hn.1 (others.noElse hs) (others'.noElse hs')
    obtain ⟨rfl, rfl⟩ := ho others' inBlock h₁ hn.2 hs hs'
    exact ⟨rfl, rfl⟩

end Statements

mutual

theorem Statement.unique : (d : Statement) → d.Nearest → d.Unique
  | .expr d, _ => unique_expr d
  | .forLoop _ _ _ _ _ _ _ body, h => unique_for (body.unique h)
  | .ifThen _ _ _ _ whenTrue, h => unique_ifThen (whenTrue.unique h)
  | .ifElse _ _ _ _ whenTrue _ whenFalse, h =>
    unique_ifElse h.1 (whenTrue.unique h.2.1) (whenFalse.unique h.2.2)
  | .print keyword value semicolon, _ => unique_print keyword value semicolon
  | .ret keyword value semicolon, _ => unique_return keyword value semicolon
  | .whileLoop _ _ _ _ body, h => unique_while (body.unique h)
  | .block _ body _, h => unique_block (body.unique h)

theorem Decl.unique : (d : Decl) → d.Nearest → d.Unique
  | .function _ _ _ _ _ _ body _, h => unique_function (body.unique h)
  | .var d, _ => unique_var d
  | .statement d, h => unique_statement (d.unique h)

theorem Decls.unique : (d : Decls) → d.Nearest → d.Unique
  | .nil, _ => unique_nil
  | .cons first others, h => unique_cons (first.unique h.1) (others.unique h.2)

end

end Grammar

end Treewalk
