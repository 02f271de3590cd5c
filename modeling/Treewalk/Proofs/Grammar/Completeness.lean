import Treewalk.Proofs.Grammar.Spans

/-!
# What has a derivation is read

Where the text ahead starts with that of a derivation and what follows does not
go on with it, the function that reads the construct reads exactly the
derivation. The fuel that this takes is bounded by the number of tokens: `cost`
is what each rule needs besides 32 for every token.

Results:

* `Phrase.readable`: every phrase is read.
* `Decls.readable`: so is every sequence of declarations in which each `else`
  belongs to the nearest `if`.
-/
namespace Treewalk

open Grammar Parse

namespace ParseState

/-- The token ahead can be taken. -/
theorem exists_takes {s : ParseState} {t : Token} {ts : List Token} (h : s.rest = t :: ts) :
    ∃ s', s.Takes t s' ∧ s'.rest = ts := by
  obtain ⟨rest, n, fs, bs⟩ := s
  subst h
  exact ⟨_, .mk .., rfl⟩

/-- After reading `ts` of `ts ++ us`, `us` is ahead. -/
theorem Reads.rest_eq {s s' : ParseState} {ts us : List Token} {vs : List Blame}
    (h : s.Reads ts vs s') (hs : s.rest = ts ++ us) : s'.rest = us :=
  List.append_cancel_left (h.rest.symm.trans hs)

theorem lacks_of_cons {s : ParseState} {t : Token} {ts : List Token} {p : Kind → Bool}
    (h : s.rest = t :: ts) (ht : p t.kind = false) : s.Lacks p := by
  intro u hu
  rw [h] at hu
  cases hu
  exact ht

theorem faces_of_cons {s : ParseState} {t : Token} {ts : List Token} {p : Kind → Bool}
    (h : s.rest = t :: ts) (ht : p t.kind = true) : s.Faces p :=
  ⟨t, by rw [h]; rfl, ht⟩

/-- Where a phrase stops there is no token of a kind that goes on with it. -/
theorem lacks_of_stops {s : ParseState} {r : Rule} {p : Kind → Bool} (h : Stops r s.rest)
    (hp : ∀ k, p k = true → r.continues k = true) : s.Lacks p := by
  intro t ht
  cases hk : p t.kind with
  | false => rfl
  | true =>
    have := h t ht
    rw [hp _ hk] at this
    cases this

end ParseState

namespace Grammar

/-! ## Expressions -/

/-- The fuel that a rule needs besides 32 for every token. -/
def Rule.cost : Rule → Nat
  | .primary => 1
  | .call => 1
  | .unary => 2
  | .chain .factor => 4
  | .chain .term => 6
  | .chain .comparison => 8
  | .chain .equality => 10
  | .chain .conjunction => 12
  | .chain .disjunction => 14
  | .conditional => 15
  | .chain .series => 17
  | .assignment _ => 18

theorem cost_operand (l : Level) : l.operand.cost + 2 ≤ (Rule.chain l).cost := by
  cases l <;> decide

theorem cost_operand_le (l : Level) : l.operand.cost ≤ 15 := by
  cases l <;> decide

theorem cost_target (e : Extent) : e.target.cost ≤ 17 := by
  cases e <;> decide

/-- Wherever the phrase is ahead and nothing goes on with it, it is read. -/
def Phrase.Readable {r : Rule} (d : Phrase r) : Prop :=
  ∀ {s : ParseState} {rest : List Token}, s.rest = d.tokens ++ rest → Stops r rest →
    ∀ fuel, 32 * d.tokens.length + r.cost ≤ fuel →
      ∃ s', r.read fuel s = .ok d.tree s' ∧ d.Spans s s'

def Tail.Readable {l : Level} (d : Tail l) : Prop :=
  ∀ {s : ParseState} {rest : List Token} {left : Expr}, s.rest = d.tokens ++ rest →
    Stops (.chain l) rest → ∀ fuel, 32 * d.tokens.length + 1 ≤ fuel →
      ∃ s', chainTail fuel l left s = .ok (d.tree left) s' ∧ d.Spans s s'

def Suffixes.Readable (d : Suffixes) : Prop :=
  ∀ {s : ParseState} {rest : List Token} {callee : Expr}, s.rest = d.tokens ++ rest →
    Stops .call rest → ∀ fuel, 32 * d.tokens.length + 1 ≤ fuel →
      ∃ s', callTail fuel callee s = .ok (d.tree callee) s' ∧ d.Spans s s'

def Arguments.Readable (d : Arguments) : Prop :=
  ∀ (count : Nat) {s : ParseState} {rest : List Token}, s.rest = d.tokens ++ rest →
    Stops (.assignment .full) rest → ∀ fuel, 32 * d.tokens.length + 19 ≤ fuel →
      ∃ s', arguments fuel count s = .ok d.trees s' ∧ d.Spans count s s'

/-- Fuel that is needed is there. -/
theorem exists_succ {m fuel : Nat} (h : m + 1 ≤ fuel) : ∃ n, fuel = n + 1 ∧ m ≤ n :=
  ⟨fuel - 1, by omega, by omega⟩

section Expressions

theorem readable_plain {e : Extent} {d : Phrase e.target} (hd : d.Readable) :
    (Phrase.plain d).Readable := by
  intro s rest hs hstop fuel hfuel
  obtain ⟨fuel, rfl, hf⟩ := exists_succ (m := 32 * d.tokens.length + 17) hfuel
  have := cost_target e
  obtain ⟨s', h, r⟩ := hd hs hstop.target fuel (by omega)
  refine ⟨s', assignment_eq_ok.mpr ⟨_, s', h, .inl ⟨?_, rfl, rfl⟩⟩, r⟩
  rw [← r.rest_eq hs] at hstop
  refine ParseState.lacks_of_stops hstop fun k hk => ?_
  cases of_decide_eq_true hk
  cases e <;> rfl

theorem readable_assign {e : Extent} {target : Phrase e.target} {equals : Tok .equal}
    {value : Phrase (.assignment e)} (ht : target.Readable) (hv : value.Readable) :
    (Phrase.assign target equals value).Readable := by
  intro s rest hs hstop fuel hfuel
  have := cost_target e
  simp only [Phrase.tokens, List.append_assoc, List.cons_append, List.length_append,
    List.length_cons, Rule.cost] at hs hfuel
  obtain ⟨fuel, rfl, hf⟩ := exists_succ hfuel
  obtain ⟨s₁, h₁, r₁⟩ := ht hs (stops_tok equals (by cases e <;> rfl)) fuel (by omega)
  obtain ⟨s₂, ht₂, hs₂⟩ := ParseState.exists_takes (r₁.rest_eq hs)
  obtain ⟨s₃, h₃, r₃⟩ := hv hs₂ hstop fuel (by simp only [Rule.cost]; omega)
  exact ⟨_, assignment_eq_ok.mpr ⟨_, s₁, h₁, .inr ⟨_, s₂, ht₂, equals.2, _, s₃, h₃, rfl, rfl⟩⟩,
    spans_assign r₁ ht₂ r₃⟩

theorem readable_chain {l : Level} {first : Phrase l.operand} {tail : Tail l}
    (hf : first.Readable) (ht : tail.Readable) : (Phrase.chain first tail).Readable := by
  intro s rest hs hstop fuel hfuel
  have hcost := cost_operand l
  simp only [Phrase.tokens, List.append_assoc, List.length_append] at hs hfuel
  obtain ⟨fuel, rfl⟩ : ∃ n, fuel = n + 2 := ⟨fuel - 2, by omega⟩
  obtain ⟨s₁, h₁, r₁⟩ := hf hs (hstop.operand tail) fuel (by omega)
  obtain ⟨s₂, h₂, r₂⟩ := ht (r₁.rest_eq hs) hstop (fuel + 1) (by omega)
  refine ⟨s₂, chain_eq_ok.mpr ⟨_, s₁, ?_, h₂⟩, spans_chain r₁ r₂⟩
  rwa [read_operand]

theorem readable_done {l : Level} : (Tail.done (l := l)).Readable := by
  intro s rest left hs hstop fuel hfuel
  obtain ⟨fuel, rfl, -⟩ := exists_succ hfuel
  refine ⟨s, chainTail_eq_ok.mpr (.inl ⟨?_, rfl, rfl⟩), .refl _⟩
  rw [← show s.rest = rest from hs] at hstop
  refine ParseState.lacks_of_stops hstop fun k hk => ?_
  exact decide_eq_true (Nat.le_of_eq ((has_iff l k).mp hk).symm)

theorem readable_more {l : Level} {operator : TokIn l.has} {right : Phrase l.operand}
    {tail : Tail l} (hr : right.Readable) (ht : tail.Readable) :
    (Tail.more operator right tail).Readable := by
  intro s rest left hs hstop fuel hfuel
  have hcost := cost_operand_le l
  simp only [Tail.tokens, List.append_assoc, List.cons_append, List.length_append,
    List.length_cons] at hs hfuel
  obtain ⟨fuel, rfl⟩ : ∃ n, fuel = n + 2 := ⟨fuel - 2, by omega⟩
  obtain ⟨s₁, ht₁, hs₁⟩ := ParseState.exists_takes hs
  obtain ⟨s₂, h₂, r₂⟩ := hr hs₁ (hstop.operand tail) fuel (by omega)
  obtain ⟨s₃, h₃, r₃⟩ := ht (r₂.rest_eq hs₁) hstop (fuel + 1) (by omega)
  rw [Tail.tree_more]
  refine ⟨s₃, chainTail_eq_ok.mpr (.inr ⟨_, s₁, ht₁, operator.2, _, s₂, ?_, h₃⟩),
    spans_tail ht₁ r₂ r₃⟩
  rwa [read_operand]

theorem readable_simple {d : Phrase (.chain .disjunction)} (hd : d.Readable) :
    (Phrase.simple d).Readable := by
  intro s rest hs hstop fuel hfuel
  obtain ⟨fuel, rfl, hf⟩ := exists_succ (m := 32 * d.tokens.length + 14) hfuel
  obtain ⟨s', h, r⟩ := hd hs hstop.disjunction fuel hf
  refine ⟨s', conditional_eq_ok.mpr ⟨_, s', h, .inl ⟨?_, rfl, rfl⟩⟩, r⟩
  rw [← r.rest_eq hs] at hstop
  refine ParseState.lacks_of_stops hstop fun k hk => ?_
  cases of_decide_eq_true hk
  rfl

theorem readable_ternary {c : Phrase (.chain .disjunction)} {question : Tok .question}
    {t : Phrase (.assignment .full)} {colon : Tok .colon} {f : Phrase .conditional}
    (hc : c.Readable) (ht : t.Readable) (hf : f.Readable) :
    (Phrase.ternary c question t colon f).Readable := by
  intro s rest hs hstop fuel hfuel
  simp only [Phrase.tokens, List.append_assoc, List.cons_append, List.length_append,
    List.length_cons, Rule.cost] at hs hfuel
  obtain ⟨fuel, rfl, -⟩ := exists_succ hfuel
  obtain ⟨s₁, h₁, r₁⟩ := hc hs (stops_tok question rfl) fuel
    (by simp only [Rule.cost]; omega)
  obtain ⟨s₂, ht₂, hs₂⟩ := ParseState.exists_takes (r₁.rest_eq hs)
  obtain ⟨s₃, h₃, r₃⟩ := ht hs₂ (stops_tok colon rfl) fuel
    (by simp only [Rule.cost]; omega)
  obtain ⟨s₄, ht₄, hs₄⟩ := ParseState.exists_takes (r₃.rest_eq hs₂)
  obtain ⟨s₅, h₅, r₅⟩ := hf hs₄ hstop fuel (by simp only [Rule.cost]; omega)
  exact ⟨s₅, conditional_eq_ok.mpr ⟨_, s₁, h₁, .inr ⟨_, s₂, ht₂, question.2, _, s₃, h₃, _, s₄, ht₄,
    colon.2, _, s₅, h₅, rfl, rfl⟩⟩, spans_ternary r₁ ht₂ r₃ ht₄ r₅⟩

theorem readable_signed {operator : TokIn isPrefixOperator} {right : Phrase .unary}
    (hr : right.Readable) : (Phrase.signed operator right).Readable := by
  intro s rest hs hstop fuel hfuel
  simp only [Phrase.tokens, List.cons_append, List.length_cons, Rule.cost] at hs hfuel
  obtain ⟨fuel, rfl, -⟩ := exists_succ hfuel
  obtain ⟨s₁, ht₁, hs₁⟩ := ParseState.exists_takes hs
  obtain ⟨s₂, h₂, r₂⟩ := hr hs₁ hstop fuel (by simp only [Rule.cost]; omega)
  exact ⟨s₂, unary_eq_ok.mpr (.inr ⟨_, s₁, ht₁, operator.2, _, s₂, h₂, rfl, rfl⟩),
    spans_signed ht₁ r₂⟩

theorem readable_unsigned {d : Phrase .call} (hd : d.Readable) :
    (Phrase.unsigned d).Readable := by
  intro s rest hs hstop fuel hfuel
  obtain ⟨fuel, rfl, hf⟩ := exists_succ (m := 32 * d.tokens.length + 1) hfuel
  obtain ⟨s', h, r⟩ := hd hs hstop fuel hf
  refine ⟨s', unary_eq_ok.mpr (.inl ⟨?_, h⟩), r⟩
  cases d with
  | call callee suffixes =>
    obtain ⟨t, ts, e, ht⟩ := callee.head_primary
    simp only [Phrase.tokens, e, List.cons_append] at hs
    exact ParseState.lacks_of_cons hs (not_prefixed ht)

theorem readable_call {callee : Phrase .primary} {suffixes : Suffixes} (hc : callee.Readable)
    (hs : suffixes.Readable) : (Phrase.call callee suffixes).Readable := by
  intro s rest hrest hstop fuel hfuel
  simp only [Phrase.tokens, List.append_assoc, List.length_append, Rule.cost] at hrest hfuel
  obtain ⟨s₁, h₁, r₁⟩ := hc hrest (fun _ _ => rfl) fuel
    (by simp only [Rule.cost]; omega)
  obtain ⟨s₂, h₂, r₂⟩ := hs (r₁.rest_eq hrest) hstop fuel (by omega)
  exact ⟨s₂, call_eq_ok.mpr ⟨_, s₁, h₁, h₂⟩, spans_call r₁ r₂⟩

theorem readable_suffixes_done : Suffixes.done.Readable := by
  intro s rest callee hs hstop fuel hfuel
  obtain ⟨fuel, rfl, -⟩ := exists_succ hfuel
  refine ⟨s, callTail_eq_ok.mpr (.inl ⟨?_, rfl, rfl⟩), .refl _⟩
  rw [← show s.rest = rest from hs] at hstop
  refine ParseState.lacks_of_stops hstop fun k hk => ?_
  cases of_decide_eq_true hk
  rfl

theorem readable_empty {opening : Tok .leftParen} {closing : Tok .rightParen} {others : Suffixes}
    (ho : others.Readable) : (Suffixes.empty opening closing others).Readable := by
  intro s rest callee hs hstop fuel hfuel
  simp only [Suffixes.tokens, List.cons_append, List.length_cons] at hs hfuel
  obtain ⟨fuel, rfl, -⟩ := exists_succ hfuel
  obtain ⟨s₁, ht₁, hs₁⟩ := ParseState.exists_takes hs
  obtain ⟨s₂, ht₂, hs₂⟩ := ParseState.exists_takes hs₁
  obtain ⟨s₃, h₃, r₃⟩ := ho hs₂ hstop fuel (by omega)
  have hface : s₁.Faces (· = .rightParen) :=
    ParseState.faces_of_cons hs₁ (decide_eq_true closing.2)
  exact ⟨s₃, callTail_eq_ok.mpr (.inr ⟨_, s₁, ht₁, opening.2, [], s₁, .inl ⟨hface, rfl, rfl⟩, _, s₂,
    ht₂, closing.2, h₃⟩), spans_empty ht₁ ht₂ r₃⟩

theorem readable_applied {opening : Tok .leftParen} {args : Arguments} {closing : Tok .rightParen}
    {others : Suffixes} (ha : args.Readable) (ho : others.Readable) :
    (Suffixes.applied opening args closing others).Readable := by
  intro s rest callee hs hstop fuel hfuel
  simp only [Suffixes.tokens, List.append_assoc, List.cons_append, List.length_append,
    List.length_cons] at hs hfuel
  obtain ⟨fuel, rfl, -⟩ := exists_succ hfuel
  obtain ⟨s₁, ht₁, hs₁⟩ := ParseState.exists_takes hs
  obtain ⟨s₂, h₂, r₂⟩ := ha 0 hs₁ (stops_tok closing rfl) fuel (by omega)
  obtain ⟨s₃, ht₃, hs₃⟩ := ParseState.exists_takes (r₂.rest_eq hs₁)
  obtain ⟨s₄, h₄, r₄⟩ := ho hs₃ hstop fuel (by omega)
  have hlack : s₁.Lacks (· = .rightParen) := by
    obtain ⟨t, ts, e, ht⟩ := args.head
    rw [e] at hs₁
    exact ParseState.lacks_of_cons hs₁ (decide_eq_false (not_closing ht).1)
  exact ⟨s₄, callTail_eq_ok.mpr (.inr ⟨_, s₁, ht₁, opening.2, _, s₂, .inr ⟨hlack, h₂⟩, _, s₃, ht₃,
    closing.2, h₄⟩), spans_applied ht₁ r₂ ht₃ r₄⟩

theorem readable_one {d : Phrase (.assignment .argument)} (hd : d.Readable) :
    (Arguments.one d).Readable := by
  intro count s rest hs hstop fuel hfuel
  obtain ⟨fuel, rfl, hf⟩ := exists_succ (m := 32 * d.tokens.length + 18) hfuel
  obtain ⟨s', h, r⟩ := hd (s := counted s count .tooManyArguments) hs hstop.argument
    fuel hf
  refine ⟨s', arguments_eq_ok.mpr ⟨_, s', h, .inl ⟨?_, rfl, rfl⟩⟩, spans_counted r⟩
  rw [← r.rest_eq hs] at hstop
  refine ParseState.lacks_of_stops hstop fun k hk => ?_
  cases of_decide_eq_true hk
  rfl

theorem readable_arguments {first : Phrase (.assignment .argument)} {comma : Tok .comma}
    {others : Arguments} (hf : first.Readable) (ho : others.Readable) :
    (Arguments.more first comma others).Readable := by
  intro count s rest hs hstop fuel hfuel
  simp only [Arguments.tokens, List.append_assoc, List.cons_append, List.length_append,
    List.length_cons] at hs hfuel
  obtain ⟨fuel, rfl, -⟩ := exists_succ hfuel
  obtain ⟨s₁, h₁, r₁⟩ := hf (s := counted s count .tooManyArguments) hs (stops_tok comma rfl)
    fuel (by simp only [Rule.cost]; omega)
  obtain ⟨s₂, ht₂, hs₂⟩ := ParseState.exists_takes (r₁.rest_eq hs)
  obtain ⟨s₃, h₃, r₃⟩ := ho (count + 1) hs₂ hstop fuel (by omega)
  exact ⟨s₃, arguments_eq_ok.mpr ⟨_, s₁, h₁, .inr ⟨_, s₂, ht₂, comma.2, _, s₃, h₃, rfl, rfl⟩⟩,
    spans_arguments r₁ ht₂ r₃⟩

theorem readable_constant (t : TokIn isConstant) : (Phrase.constant t).Readable := by
  intro s rest hs hstop fuel hfuel
  obtain ⟨fuel, rfl, -⟩ := exists_succ hfuel
  obtain ⟨s₁, ht₁, -⟩ := ParseState.exists_takes hs
  exact ⟨s₁, primary_eq_ok.mpr ⟨_, s₁, ht₁, .inl ⟨t.2, rfl, rfl⟩⟩, ht₁.reads⟩

theorem readable_name (t : Tok .identifier) : (Phrase.name t).Readable := by
  intro s rest hs hstop fuel hfuel
  obtain ⟨fuel, rfl, -⟩ := exists_succ hfuel
  obtain ⟨s₁, ht₁, -⟩ := ParseState.exists_takes hs
  exact ⟨s₁, primary_eq_ok.mpr ⟨_, s₁, ht₁, .inr (.inl ⟨t.2, rfl, rfl⟩)⟩, ht₁.reads⟩

theorem readable_group {opening : Tok .leftParen} {inner : Phrase (.assignment .full)}
    {closing : Tok .rightParen} (hi : inner.Readable) :
    (Phrase.group opening inner closing).Readable := by
  intro s rest hs hstop fuel hfuel
  simp only [Phrase.tokens, List.append_assoc, List.cons_append, List.nil_append,
    List.length_append, List.length_cons, List.length_nil, Rule.cost] at hs hfuel
  obtain ⟨fuel, rfl, -⟩ := exists_succ hfuel
  obtain ⟨s₁, ht₁, hs₁⟩ := ParseState.exists_takes hs
  obtain ⟨s₂, h₂, r₂⟩ := hi hs₁ (stops_tok closing rfl) fuel
    (by simp only [Rule.cost]; omega)
  obtain ⟨s₃, ht₃, -⟩ := ParseState.exists_takes (r₂.rest_eq hs₁)
  exact ⟨s₃, primary_eq_ok.mpr ⟨_, s₁, ht₁, .inr (.inr ⟨opening.2, _, s₂, h₂, _, s₃, ht₃, closing.2,
    rfl, rfl⟩)⟩, spans_group ht₁ r₂ ht₃⟩

end Expressions

mutual

theorem Phrase.readable : {r : Rule} → (d : Phrase r) → d.Readable
  | _, .plain d => readable_plain d.readable
  | _, .assign target _ value => readable_assign target.readable value.readable
  | _, .chain first tail => readable_chain first.readable tail.readable
  | _, .simple d => readable_simple d.readable
  | _, .ternary c _ t _ f => readable_ternary c.readable t.readable f.readable
  | _, .signed _ right => readable_signed right.readable
  | _, .unsigned d => readable_unsigned d.readable
  | _, .call callee suffixes => readable_call callee.readable suffixes.readable
  | _, .constant t => readable_constant t
  | _, .name t => readable_name t
  | _, .group _ inner _ => readable_group inner.readable

theorem Tail.readable : {l : Level} → (d : Tail l) → d.Readable
  | _, .done => readable_done
  | _, .more _ right rest => readable_more right.readable rest.readable

theorem Suffixes.readable : (d : Suffixes) → d.Readable
  | .done => readable_suffixes_done
  | .empty _ _ rest => readable_empty rest.readable
  | .applied _ args _ rest => readable_applied args.readable rest.readable

theorem Arguments.readable : (d : Arguments) → d.Readable
  | .one d => readable_one d.readable
  | .more first _ rest => readable_arguments first.readable rest.readable

end

/-! ## Clauses -/

section Clauses

variable {s : ParseState} {rest : List Token}

theorem Parameters.readable : (d : Parameters) → ∀ (count : Nat) {s : ParseState}
    {rest : List Token}, s.rest = d.tokens ++ rest → (∀ t ∈ rest.head?, t.kind ≠ .comma) →
      ∀ fuel, d.tokens.length ≤ fuel →
        ∃ s', parameters fuel count s = .ok d.names s' ∧ d.Spans count s s'
  | .one t, count, s, rest, hs, hstop, fuel, hfuel => by
    obtain ⟨fuel, rfl, -⟩ := exists_succ (m := 0) hfuel
    obtain ⟨s₁, ht₁, hs₁⟩ := ParseState.exists_takes (s := counted s count .tooManyParameters) hs
    refine ⟨s₁, parameters_eq_ok.mpr ⟨_, s₁, ht₁, t.2, .inl ⟨?_, rfl, rfl⟩⟩, spans_parameter ht₁⟩
    rw [← show s₁.rest = rest from hs₁] at hstop
    exact fun u hu => decide_eq_false (hstop u hu)
  | .more t comma d, count, s, rest, hs, hstop, fuel, hfuel => by
    simp only [Parameters.tokens, List.length_cons] at hfuel
    obtain ⟨fuel, rfl, -⟩ := exists_succ hfuel
    obtain ⟨s₁, ht₁, hs₁⟩ := ParseState.exists_takes (s := counted s count .tooManyParameters) hs
    obtain ⟨s₂, ht₂, hs₂⟩ := ParseState.exists_takes hs₁
    obtain ⟨s₃, h₃, r₃⟩ := d.readable (count + 1) hs₂ hstop fuel (by omega)
    exact ⟨s₃, parameters_eq_ok.mpr ⟨_, s₁, ht₁, t.2, .inr ⟨_, s₂, ht₂, comma.2, _, s₃, h₃, rfl,
      rfl⟩⟩, spans_parameters ht₁ ht₂ r₃⟩

/-- An expression is read before a token that can follow it. -/
theorem expression_readable {k : Kind} {t : Tok k} (d : Exp)
    (hs : s.rest = d.tokens ++ t.1 :: rest) (hk : (Rule.assignment .full).continues k = false)
    (fuel : Nat) (hfuel : 32 * d.tokens.length + 18 ≤ fuel) :
    ∃ s', expression fuel s = .ok d.tree s' ∧ d.Spans s s' :=
  d.readable hs (stops_tok t hk) fuel hfuel

theorem optional_readable {k : Kind} {t : Tok k} (d : Option Exp)
    (hs : s.rest = optional d ++ t.1 :: rest) (hk : k = .semicolon ∨ k = .rightParen)
    (fuel : Nat) (hfuel : 32 * (optional d).length + 18 ≤ fuel) :
    ∃ s', expressionUnless fuel k s = .ok (d.map Phrase.tree) s' ∧ OptionalSpans d s s' := by
  cases d with
  | none =>
    have hface : s.Faces (· = k) := ParseState.faces_of_cons hs (decide_eq_true t.2)
    exact ⟨s, expressionUnless_eq_ok.mpr (.inl ⟨hface, rfl, rfl⟩), .refl _⟩
  | some d =>
    have hcontinues : (Rule.assignment .full).continues k = false := by
      obtain rfl | rfl := hk <;> rfl
    obtain ⟨s₁, h₁, r₁⟩ := expression_readable d hs hcontinues fuel hfuel
    refine ⟨s₁, expressionUnless_eq_ok.mpr (.inr ⟨?_, _, s₁, h₁, rfl, rfl⟩), r₁⟩
    obtain ⟨u, us, e, hu⟩ := d.head
    have hcons : s.rest = u :: (us ++ t.1 :: rest) := by
      rw [hs, show optional (some d) = d.tokens from rfl, e, List.cons_append]
    refine ParseState.lacks_of_cons hcons ?_
    obtain rfl | rfl := hk
    · exact decide_eq_false (not_closing hu).2.1
    · exact decide_eq_false (not_closing hu).1

theorem ExprClause.readable (d : ExprClause) (hs : s.rest = d.tokens ++ rest) (fuel : Nat)
    (hfuel : 32 * d.tokens.length ≤ fuel) :
    ∃ s', expressionStatement fuel s = .ok d.tree s' ∧ d.Spans s s' := by
  obtain ⟨value, semicolon⟩ := d
  simp only [ExprClause.tokens, List.append_assoc, List.cons_append, List.nil_append,
    List.length_append, List.length_cons, List.length_nil] at hs hfuel
  obtain ⟨s₁, h₁, r₁⟩ := expression_readable value hs rfl fuel (by omega)
  obtain ⟨s₂, ht₂, -⟩ := ParseState.exists_takes (r₁.rest_eq hs)
  exact ⟨s₂, expressionStatement_eq_ok.mpr ⟨_, s₁, h₁, _, s₂, ht₂, semicolon.2, rfl, rfl⟩,
    spans_exprClause r₁ ht₂⟩

/-- A variable declaration is read after its keyword. -/
theorem VarClause.readable (d : VarClause) (hs : s.rest = d.tokens ++ rest) (fuel : Nat)
    (hfuel : 32 * d.tokens.length ≤ fuel) :
    ∃ s₁ s', s.Takes d.keyword.1 s₁ ∧ varDeclaration fuel s₁ = .ok d.tree s' ∧ d.Spans s s' := by
  obtain ⟨keyword, name, initial, semicolon⟩ := d
  simp only [VarClause.tokens, List.append_assoc, List.cons_append, List.nil_append,
    List.length_append, List.length_cons, List.length_nil] at hs hfuel
  obtain ⟨s₁, ht₁, hs₁⟩ := ParseState.exists_takes hs
  obtain ⟨s₂, ht₂, hs₂⟩ := ParseState.exists_takes hs₁
  cases initial with
  | none =>
    obtain ⟨s₃, ht₃, -⟩ := ParseState.exists_takes hs₂
    have hlack : s₂.Lacks (· = .equal) :=
      ParseState.lacks_of_cons hs₂ (by rw [semicolon.2]; rfl)
    exact ⟨s₁, s₃, ht₁, varDeclaration_eq_ok.mpr ⟨_, s₂, ht₂, name.2, none, s₂,
      .inl ⟨hlack, rfl, rfl⟩, _, s₃, ht₃, semicolon.2, rfl, rfl⟩, spans_declared ht₁ ht₂ ht₃⟩
  | some initial =>
    obtain ⟨equals, value⟩ := initial
    simp only [initialTokens, List.cons_append, List.length_cons] at hs₂ hfuel
    obtain ⟨s₃, ht₃, hs₃⟩ := ParseState.exists_takes hs₂
    obtain ⟨s₄, h₄, r₄⟩ := expression_readable value hs₃ rfl fuel (by omega)
    obtain ⟨s₅, ht₅, -⟩ := ParseState.exists_takes (r₄.rest_eq hs₃)
    exact ⟨s₁, s₅, ht₁, varDeclaration_eq_ok.mpr ⟨_, s₂, ht₂, name.2, some value.tree, s₄,
      .inr ⟨_, s₃, ht₃, equals.2, _, h₄, rfl⟩, _, s₅, ht₅, semicolon.2, rfl, rfl⟩,
      spans_initialized ht₁ ht₂ ht₃ r₄ ht₅⟩

theorem FirstClause.readable (d : FirstClause) (hs : s.rest = d.tokens ++ rest) (fuel : Nat)
    (hfuel : 32 * d.tokens.length ≤ fuel) :
    ∃ s', firstClause fuel s = .ok d.tree s' ∧ d.Spans s s' := by
  cases d with
  | absent semicolon =>
    obtain ⟨s₁, ht₁, -⟩ := ParseState.exists_takes hs
    exact ⟨s₁, firstClause_eq_ok.mpr (.inr ⟨_, s₁, ht₁, .inl ⟨semicolon.2, rfl, rfl⟩⟩), ht₁.reads⟩
  | var d =>
    obtain ⟨s₁, s', ht₁, h, r⟩ := d.readable hs fuel hfuel
    exact ⟨s', firstClause_eq_ok.mpr (.inr ⟨_, s₁, ht₁, .inr ⟨d.keyword.2, _, s', h, rfl, rfl⟩⟩), r⟩
  | expr d =>
    obtain ⟨s', h, r⟩ := d.readable hs fuel hfuel
    refine ⟨s', firstClause_eq_ok.mpr (.inl ⟨?_, _, s', h, rfl, rfl⟩), r⟩
    obtain ⟨t, ts, e, ht⟩ := d.head
    rw [FirstClause.tokens, e] at hs
    have hne := not_closing ht
    exact ParseState.lacks_of_cons hs (by simp [hne])

end Clauses

/-! ## Statements -/

def Statement.Readable (d : Statement) : Prop :=
  ∀ {s : ParseState} {rest : List Token}, s.rest = d.tokens ++ rest →
    (d.open = true → NoElse rest) → ∀ fuel, 32 * d.tokens.length + 19 ≤ fuel →
      ∃ s', statement fuel s = .ok d.tree s' ∧ d.Spans s s'

def Decl.Readable (d : Decl) : Prop :=
  ∀ {s : ParseState} {rest : List Token}, s.rest = d.tokens ++ rest → NoElse rest →
    ∀ fuel, 32 * d.tokens.length + 20 ≤ fuel →
      ∃ s', declaration fuel s = .ok (some d.tree) s' ∧ d.Spans s s'

def Decls.Readable (d : Decls) : Prop :=
  ∀ (inBlock : Bool) {s : ParseState} {rest : List Token}, s.rest = d.tokens ++ rest →
    Ends inBlock rest → ∀ fuel, 32 * d.tokens.length + 21 ≤ fuel →
      ∃ s', declarations fuel inBlock s = .ok d.trees s' ∧ d.Spans s s'

section Statements

theorem readable_expr (d : ExprClause) : (Statement.expr d).Readable := by
  intro s rest hs _ fuel hfuel
  obtain ⟨fuel, rfl, hf⟩ := exists_succ (m := 32 * d.tokens.length + 18) hfuel
  obtain ⟨s', h, r⟩ := d.readable hs fuel (by omega)
  refine ⟨s', statement_eq_ok.mpr (.inl ⟨?_, h⟩), r⟩
  obtain ⟨t, ts, e, ht⟩ := d.head
  rw [Statement.tokens, e] at hs
  exact ParseState.lacks_of_cons hs (not_opening ht)

theorem readable_for {keyword : Tok .forKw} {opening : Tok .leftParen} {first : FirstClause}
    {condition : Option Exp} {semicolon : Tok .semicolon} {last : Option Exp}
    {closing : Tok .rightParen} {body : Statement} (hb : body.Readable) :
    (Statement.forLoop keyword opening first condition semicolon last closing body).Readable := by
  intro s rest hs hopen fuel hfuel
  simp only [Statement.tokens, List.append_assoc, List.cons_append, List.length_append,
    List.length_cons] at hs hfuel
  obtain ⟨fuel, rfl⟩ : ∃ n, fuel = n + 2 := ⟨fuel - 2, by omega⟩
  obtain ⟨s₁, ht₁, hs₁⟩ := ParseState.exists_takes hs
  obtain ⟨s₂, ht₂, hs₂⟩ := ParseState.exists_takes hs₁
  obtain ⟨s₃, h₃, r₃⟩ := first.readable hs₂ fuel (by omega)
  have hs₃ := r₃.rest_eq hs₂
  obtain ⟨s₄, h₄, r₄⟩ := optional_readable condition hs₃ (.inl rfl) fuel (by omega)
  obtain ⟨s₅, ht₅, hs₅⟩ := ParseState.exists_takes (r₄.rest_eq hs₃)
  obtain ⟨s₆, h₆, r₆⟩ := optional_readable last hs₅ (.inr rfl) fuel (by omega)
  obtain ⟨s₇, ht₇, hs₇⟩ := ParseState.exists_takes (r₆.rest_eq hs₅)
  obtain ⟨s₈, h₈, r₈⟩ := hb hs₇ hopen fuel (by omega)
  refine ⟨s₈, statement_eq_ok.mpr (.inr ⟨_, s₁, ht₁, .inl ⟨keyword.2, ?_⟩⟩),
    spans_for ht₁ ht₂ r₃ r₄ ht₅ r₆ ht₇ r₈⟩
  exact forStatement_eq_ok.mpr ⟨_, s₂, ht₂, opening.2, _, s₃, h₃, _, s₄, h₄, _, s₅, ht₅,
    semicolon.2, _, s₆, h₆, _, s₇, ht₇, closing.2, _, s₈, h₈, Statement.tree_forLoop .., rfl⟩

theorem readable_ifThen {keyword : Tok .ifKw} {opening : Tok .leftParen} {condition : Exp}
    {closing : Tok .rightParen} {whenTrue : Statement} (hw : whenTrue.Readable) :
    (Statement.ifThen keyword opening condition closing whenTrue).Readable := by
  intro s rest hs hopen fuel hfuel
  simp only [Statement.tokens, List.append_assoc, List.cons_append, List.length_append,
    List.length_cons] at hs hfuel
  obtain ⟨fuel, rfl⟩ : ∃ n, fuel = n + 2 := ⟨fuel - 2, by omega⟩
  obtain ⟨s₁, ht₁, hs₁⟩ := ParseState.exists_takes hs
  obtain ⟨s₂, ht₂, hs₂⟩ := ParseState.exists_takes hs₁
  obtain ⟨s₃, h₃, r₃⟩ := expression_readable condition hs₂ rfl fuel (by omega)
  obtain ⟨s₄, ht₄, hs₄⟩ := ParseState.exists_takes (r₃.rest_eq hs₂)
  have hnone : NoElse rest := hopen rfl
  obtain ⟨s₅, h₅, r₅⟩ := hw hs₄ (fun _ => hnone) fuel (by omega)
  have hlack : s₅.Lacks (· = .elseKw) := by
    rw [← r₅.rest_eq hs₄] at hnone
    exact fun t ht => decide_eq_false (hnone t ht)
  refine ⟨s₅, statement_eq_ok.mpr (.inr ⟨_, s₁, ht₁, .inr (.inl ⟨keyword.2, ?_⟩)⟩),
    spans_ifThen ht₁ ht₂ r₃ ht₄ r₅⟩
  exact ifStatement_eq_ok.mpr ⟨_, s₂, ht₂, opening.2, _, s₃, h₃, _, s₄, ht₄, closing.2, _, s₅, h₅,
    .inl ⟨hlack, rfl, rfl⟩⟩

theorem readable_ifElse {keyword : Tok .ifKw} {opening : Tok .leftParen} {condition : Exp}
    {closing : Tok .rightParen} {whenTrue whenFalse : Statement} {otherwise : Tok .elseKw}
    (hw : whenTrue.Readable) (hclosed : whenTrue.open = false) (hf : whenFalse.Readable) :
    (Statement.ifElse keyword opening condition closing whenTrue otherwise whenFalse).Readable := by
  intro s rest hs hopen fuel hfuel
  simp only [Statement.tokens, List.append_assoc, List.cons_append, List.length_append,
    List.length_cons] at hs hfuel
  obtain ⟨fuel, rfl⟩ : ∃ n, fuel = n + 2 := ⟨fuel - 2, by omega⟩
  obtain ⟨s₁, ht₁, hs₁⟩ := ParseState.exists_takes hs
  obtain ⟨s₂, ht₂, hs₂⟩ := ParseState.exists_takes hs₁
  obtain ⟨s₃, h₃, r₃⟩ := expression_readable condition hs₂ rfl fuel (by omega)
  obtain ⟨s₄, ht₄, hs₄⟩ := ParseState.exists_takes (r₃.rest_eq hs₂)
  -- A statement that is not open leaves the `else` to this one.
  obtain ⟨s₅, h₅, r₅⟩ := hw hs₄ (by simp [hclosed]) fuel (by omega)
  obtain ⟨s₆, ht₆, hs₆⟩ := ParseState.exists_takes (r₅.rest_eq hs₄)
  obtain ⟨s₇, h₇, r₇⟩ := hf hs₆ hopen fuel (by omega)
  refine ⟨s₇, statement_eq_ok.mpr (.inr ⟨_, s₁, ht₁, .inr (.inl ⟨keyword.2, ?_⟩)⟩),
    spans_ifElse ht₁ ht₂ r₃ ht₄ r₅ ht₆ r₇⟩
  exact ifStatement_eq_ok.mpr ⟨_, s₂, ht₂, opening.2, _, s₃, h₃, _, s₄, ht₄, closing.2, _, s₅, h₅,
    .inr ⟨_, s₆, ht₆, otherwise.2, _, s₇, h₇, rfl, rfl⟩⟩

theorem readable_print (keyword : Tok .printKw) (value : Exp) (semicolon : Tok .semicolon) :
    (Statement.print keyword value semicolon).Readable := by
  intro s rest hs _ fuel hfuel
  simp only [Statement.tokens, List.append_assoc, List.cons_append, List.nil_append,
    List.length_append, List.length_cons, List.length_nil] at hs hfuel
  obtain ⟨fuel, rfl, -⟩ := exists_succ hfuel
  obtain ⟨s₁, ht₁, hs₁⟩ := ParseState.exists_takes hs
  obtain ⟨s₂, h₂, r₂⟩ := expression_readable value hs₁ rfl fuel (by omega)
  obtain ⟨s₃, ht₃, -⟩ := ParseState.exists_takes (r₂.rest_eq hs₁)
  refine ⟨s₃, statement_eq_ok.mpr (.inr ⟨_, s₁, ht₁, .inr (.inr (.inl ⟨keyword.2, ?_⟩))⟩),
    spans_print ht₁ r₂ ht₃⟩
  exact printStatement_eq_ok.mpr ⟨_, s₂, h₂, _, s₃, ht₃, semicolon.2, rfl, rfl⟩

theorem readable_return (keyword : Tok .returnKw) (value : Option Exp)
    (semicolon : Tok .semicolon) : (Statement.ret keyword value semicolon).Readable := by
  intro s rest hs _ fuel hfuel
  simp only [Statement.tokens, List.append_assoc, List.cons_append, List.nil_append,
    List.length_append, List.length_cons, List.length_nil] at hs hfuel
  obtain ⟨fuel, rfl, -⟩ := exists_succ hfuel
  obtain ⟨s₀, ht₀, -⟩ := ParseState.exists_takes hs
  have hs' : (checkedReturn s keyword.1).rest = _ := hs
  obtain ⟨s₁, ht₁, hs₁⟩ := ParseState.exists_takes hs'
  obtain ⟨s₂, h₂, r₂⟩ := optional_readable value hs₁ (.inl rfl) fuel (by omega)
  obtain ⟨s₃, ht₃, -⟩ := ParseState.exists_takes (r₂.rest_eq hs₁)
  refine ⟨s₃, statement_eq_ok.mpr (.inr ⟨_, s₀, ht₀, .inr (.inr (.inr (.inl ⟨keyword.2, ?_⟩)))⟩),
    spans_return ht₁ r₂ ht₃⟩
  obtain ⟨-, rfl⟩ := ParseState.takes_iff.mp ht₁
  exact (returnStatement_eq_ok (ParseState.takes_iff.mp ht₀).1).mpr
    ⟨_, s₂, h₂, _, s₃, ht₃, semicolon.2, rfl, rfl⟩

theorem readable_while {keyword : Tok .whileKw} {opening : Tok .leftParen} {condition : Exp}
    {closing : Tok .rightParen} {body : Statement} (hb : body.Readable) :
    (Statement.whileLoop keyword opening condition closing body).Readable := by
  intro s rest hs hopen fuel hfuel
  simp only [Statement.tokens, List.append_assoc, List.cons_append, List.length_append,
    List.length_cons] at hs hfuel
  obtain ⟨fuel, rfl⟩ : ∃ n, fuel = n + 2 := ⟨fuel - 2, by omega⟩
  obtain ⟨s₁, ht₁, hs₁⟩ := ParseState.exists_takes hs
  obtain ⟨s₂, ht₂, hs₂⟩ := ParseState.exists_takes hs₁
  obtain ⟨s₃, h₃, r₃⟩ := expression_readable condition hs₂ rfl fuel (by omega)
  obtain ⟨s₄, ht₄, hs₄⟩ := ParseState.exists_takes (r₃.rest_eq hs₂)
  obtain ⟨s₅, h₅, r₅⟩ := hb hs₄ hopen fuel (by omega)
  refine ⟨s₅, statement_eq_ok.mpr (.inr ⟨_, s₁, ht₁,
    .inr (.inr (.inr (.inr (.inl ⟨keyword.2, ?_⟩))))⟩), spans_while ht₁ ht₂ r₃ ht₄ r₅⟩
  exact whileStatement_eq_ok.mpr ⟨_, s₂, ht₂, opening.2, _, s₃, h₃, _, s₄, ht₄, closing.2, _, s₅,
    h₅, rfl, rfl⟩

/-- Declarations and the closing brace after them. -/
theorem block_readable {d : Decls} (hd : d.Readable) {s : ParseState} {rest : List Token}
    {closing : Tok .rightBrace} (hs : s.rest = d.tokens ++ closing.1 :: rest) (fuel : Nat)
    (hfuel : 32 * d.tokens.length + 22 ≤ fuel) :
    ∃ s₁ s', block fuel s = .ok d.trees s' ∧ d.Spans s s₁ ∧ s₁.Takes closing.1 s' := by
  obtain ⟨fuel, rfl, hf⟩ := exists_succ hfuel
  obtain ⟨s₁, h₁, r₁⟩ := hd true hs ⟨_, _, rfl, closing.2⟩ fuel hf
  obtain ⟨s₂, ht₂, -⟩ := ParseState.exists_takes (r₁.rest_eq hs)
  exact ⟨s₁, s₂, block_eq_ok.mpr ⟨_, s₁, h₁, _, s₂, ht₂, closing.2, rfl, rfl⟩, r₁, ht₂⟩

theorem readable_block {opening : Tok .leftBrace} {body : Decls} {closing : Tok .rightBrace}
    (hb : body.Readable) : (Statement.block opening body closing).Readable := by
  intro s rest hs _ fuel hfuel
  simp only [Statement.tokens, List.append_assoc, List.cons_append, List.nil_append,
    List.length_append, List.length_cons, List.length_nil] at hs hfuel
  obtain ⟨fuel, rfl, -⟩ := exists_succ hfuel
  obtain ⟨s₁, ht₁, hs₁⟩ := ParseState.exists_takes hs
  obtain ⟨s₂, s₃, h₃, r₂, ht₃⟩ := block_readable hb hs₁ fuel (by omega)
  exact ⟨s₃, statement_eq_ok.mpr (.inr ⟨_, s₁, ht₁, .inr (.inr (.inr (.inr (.inr ⟨opening.2, _, s₃,
    h₃, rfl, rfl⟩))))⟩), spans_block ht₁ r₂ ht₃⟩

theorem readable_function {keyword : Tok .funKw} {name : Tok .identifier}
    {opening : Tok .leftParen} {params : Option Parameters} {closing : Tok .rightParen}
    {before : Tok .leftBrace} {body : Decls} {after : Tok .rightBrace} (hb : body.Readable) :
    (Decl.function keyword name opening params closing before body after).Readable := by
  intro s rest hs _ fuel hfuel
  simp only [Decl.tokens, List.append_assoc, List.cons_append, List.nil_append,
    List.length_append, List.length_cons, List.length_nil] at hs hfuel
  obtain ⟨fuel, rfl⟩ : ∃ n, fuel = n + 2 := ⟨fuel - 2, by omega⟩
  obtain ⟨s₁, ht₁, hs₁⟩ := ParseState.exists_takes hs
  obtain ⟨s₂, ht₂, hs₂⟩ := ParseState.exists_takes hs₁
  obtain ⟨s₃, ht₃, hs₃⟩ := ParseState.exists_takes hs₂
  obtain ⟨s₄, h₄, r₄⟩ : ∃ s₄, ((s₃.Faces (· = .rightParen) ∧ parameterNames params = [] ∧ s₄ = s₃) ∨
      (s₃.Lacks (· = .rightParen) ∧ parameters fuel 0 s₃ = .ok (parameterNames params) s₄)) ∧
      ParameterSpans params s₃ s₄ := by
    cases params with
    | none =>
      exact ⟨s₃, .inl ⟨ParseState.faces_of_cons hs₃ (decide_eq_true closing.2), rfl, rfl⟩, .refl _⟩
    | some d =>
      simp only [parameterTokens, Option.map_some, Option.getD_some] at hs₃ hfuel
      have hcomma : ∀ t ∈ (closing.1 :: before.1 :: (body.tokens ++ after.1 :: rest)).head?,
          t.kind ≠ .comma := by
        intro t ht
        cases ht
        rw [closing.2]
        decide
      obtain ⟨s₄, h₄, r₄⟩ := d.readable 0 hs₃ hcomma fuel (by omega)
      obtain ⟨t, ts, e, ht⟩ := d.head
      rw [e] at hs₃
      exact ⟨s₄, .inr ⟨ParseState.lacks_of_cons hs₃ (by rw [ht]; rfl), h₄⟩, r₄⟩
  obtain ⟨s₅, ht₅, hs₅⟩ := ParseState.exists_takes (r₄.rest_eq hs₃)
  obtain ⟨s₆, ht₆, hs₆⟩ := ParseState.exists_takes hs₅
  obtain ⟨s₇, s₈, h₈, r₇, ht₈⟩ := block_readable hb
    (s := { s₆ with functions := s₆.functions + 1 }) hs₆ fuel (by omega)
  refine ⟨{ s₈ with functions := s₈.functions - 1 }, declaration_eq_some.mpr (.inr ⟨_, s₁, ht₁,
    .inl ⟨keyword.2, ?_⟩⟩), spans_function ht₁ ht₂ ht₃ r₄ ht₅ ht₆ r₇ ht₈⟩
  exact functionDeclaration_eq_ok.mpr ⟨_, s₂, ht₂, name.2, _, s₃, ht₃, opening.2, _, s₄, h₄, _, s₅,
    ht₅, closing.2, _, s₆, ht₆, before.2, _, _, enterFunction_eq_ok.mpr ⟨s₈, h₈, rfl⟩, rfl, rfl⟩

theorem readable_var (d : VarClause) : (Decl.var d).Readable := by
  intro s rest hs _ fuel hfuel
  obtain ⟨fuel, rfl, hf⟩ := exists_succ (m := 32 * d.tokens.length + 19) hfuel
  obtain ⟨s₁, s', ht₁, h, r⟩ := d.readable hs fuel (by omega)
  exact ⟨s', declaration_eq_some.mpr (.inr ⟨_, s₁, ht₁, .inr ⟨d.keyword.2, h⟩⟩), r⟩

theorem readable_statement {d : Statement} (hd : d.Readable) : (Decl.statement d).Readable := by
  intro s rest hs hnone fuel hfuel
  obtain ⟨fuel, rfl, hf⟩ := exists_succ (m := 32 * d.tokens.length + 19) hfuel
  obtain ⟨s', h, r⟩ := hd hs (fun _ => hnone) fuel hf
  refine ⟨s', declaration_eq_some.mpr (.inl ⟨?_, h⟩), r⟩
  obtain ⟨t, ts, e, ht⟩ := d.head
  rw [Decl.tokens, e] at hs
  refine ParseState.lacks_of_cons hs ?_
  revert ht
  cases t.kind <;> decide

theorem readable_nil : Decls.nil.Readable := by
  intro inBlock s rest hs hend fuel hfuel
  obtain ⟨fuel, rfl, -⟩ := exists_succ hfuel
  refine ⟨s, declarations_eq_ok.mpr (.inl ⟨?_, rfl, rfl⟩), .refl _⟩
  cases inBlock with
  | true =>
    obtain ⟨t, ts, rfl, ht⟩ := hend
    exact .inr ⟨rfl, ParseState.faces_of_cons hs (decide_eq_true ht)⟩
  | false =>
    cases hend
    exact .inl hs

theorem readable_cons {first : Decl} {others : Decls} (hf : first.Readable)
    (ho : others.Readable) : (Decls.cons first others).Readable := by
  intro inBlock s rest hs hend fuel hfuel
  obtain ⟨t, ts, e, ht⟩ := first.head
  simp only [Decls.tokens, List.append_assoc, List.length_append] at hs hfuel
  have hpos : 0 < first.tokens.length := by simp [e]
  obtain ⟨fuel, rfl, -⟩ := exists_succ hfuel
  obtain ⟨s₁, h₁, r₁⟩ := hf hs (others.noElse hend) fuel (by omega)
  obtain ⟨s₂, h₂, r₂⟩ := ho inBlock (r₁.rest_eq hs) hend fuel (by omega)
  rw [e] at hs
  refine ⟨s₂, declarations_eq_ok.mpr (.inr ⟨by simp [hs], fun _ => ?_, _, s₁, h₁, _, s₂, h₂, rfl,
    rfl⟩), spans_cons r₁ r₂⟩
  exact ParseState.lacks_of_cons hs (decide_eq_false (not_separating ht).2)

end Statements

mutual

theorem Statement.readable : (d : Statement) → d.Nearest → d.Readable
  | .expr d, _ => readable_expr d
  | .forLoop _ _ _ _ _ _ _ body, h => readable_for (body.readable h)
  | .ifThen _ _ _ _ whenTrue, h => readable_ifThen (whenTrue.readable h)
  | .ifElse _ _ _ _ whenTrue _ whenFalse, h =>
    readable_ifElse (whenTrue.readable h.2.1) h.1 (whenFalse.readable h.2.2)
  | .print keyword value semicolon, _ => readable_print keyword value semicolon
  | .ret keyword value semicolon, _ => readable_return keyword value semicolon
  | .whileLoop _ _ _ _ body, h => readable_while (body.readable h)
  | .block _ body _, h => readable_block (body.readable h)

theorem Decl.readable : (d : Decl) → d.Nearest → d.Readable
  | .function _ _ _ _ _ _ body _, h => readable_function (body.readable h)
  | .var d, _ => readable_var d
  | .statement d, h => readable_statement (d.readable h)

theorem Decls.readable : (d : Decls) → d.Nearest → d.Readable
  | .nil, _ => readable_nil
  | .cons first others, h => readable_cons (first.readable h.1) (others.readable h.2)

end

end Grammar

end Treewalk
