import Treewalk.Proofs.Grammar.Sentence

/-!
# Where violations stand

The violations of a derivation are listed by recursion on it, each with an index and a token.
The indices are those of different tokens of the derivation, and the token at the index is the
one that is blamed and is of the kind that the violated rule is about.

Results:

* `Placed.append`: problems of two texts in a row.
* `Decls.placed`: the violations of a program.
-/
namespace Treewalk

/-- The kinds of token that are blamed for breaking a static rule. -/
def Problem.blames : Problem → Kind → Bool
  | .assignmentTarget, k => k = .equal
  | .tooManyArguments, k => Grammar.startsExpression k
  | .tooManyParameters, k => k = .identifier
  | .topLevelReturn, k => k = .returnKw
  | .missing _, _ | .noExpression, _ => false

theorem Problem.not_fatal_of_blames {p : Problem} {k : Kind} (h : p.blames k = true) :
    p.fatal = false := by
  cases p <;> first | rfl | cases h

namespace Grammar

/-- The problems blame different tokens of `ts`, whose first one has the index `n`. -/
structure Placed (ts : List Token) (n : Nat) (bs : List Blame) : Prop where
  distinct : (bs.map Blame.index).Nodup
  token : ∀ b ∈ bs, ∃ i t, b.index = n + i ∧ ts[i]? = some t ∧ b.token = some t ∧
    b.problem.blames t.kind = true

variable {ts us : List Token} {n : Nat} {bs cs : List Blame} {t : Token}

theorem placed_nil : Placed ts n [] := ⟨List.nodup_nil, List.forall_mem_nil _⟩

theorem placed_one {p : Problem} (h : p.blames t.kind = true) :
    Placed [t] n [⟨p, n, some t⟩] := by
  refine ⟨by simp, fun b hb => ?_⟩
  obtain rfl := List.mem_singleton.mp hb
  exact ⟨0, t, rfl, rfl, rfl, h⟩

namespace Placed

theorem perm (h : Placed ts n bs) (hperm : bs.Perm cs) : Placed ts n cs :=
  ⟨(hperm.map _).nodup h.distinct, fun b hb => h.token b (hperm.mem_iff.mpr hb)⟩

theorem append (h : Placed ts n bs) (h' : Placed us (n + ts.length) cs) :
    Placed (ts ++ us) n (bs ++ cs) := by
  constructor
  · rw [List.map_append, List.nodup_append]
    refine ⟨h.distinct, h'.distinct, ?_⟩
    simp only [List.mem_map]
    rintro _ ⟨b, hb, rfl⟩ _ ⟨c, hc, rfl⟩
    -- The first problems are within the first tokens, the others after them.
    obtain ⟨i, t, hi, ht, -⟩ := h.token b hb
    obtain ⟨j, u, hj, -⟩ := h'.token c hc
    have hlt := (List.getElem?_eq_some_iff.mp ht).1
    omega
  · intro b hb
    obtain hb | hb := List.mem_append.mp hb
    · obtain ⟨i, t, hi, ht, hrest⟩ := h.token b hb
      refine ⟨i, t, hi, ?_, hrest⟩
      rw [List.getElem?_append_left (List.getElem?_eq_some_iff.mp ht).1, ht]
    · obtain ⟨i, t, hi, ht, hrest⟩ := h'.token b hb
      refine ⟨ts.length + i, t, by omega, ?_, hrest⟩
      rw [List.getElem?_append_right (Nat.le_add_right _ _), Nat.add_sub_cancel_left, ht]

theorem cons (h : Placed ts (n + 1) bs) : Placed (t :: ts) n bs :=
  (placed_nil : Placed [t] n []).append h

theorem before (h : Placed ts n bs) : Placed (ts ++ us) n bs := by
  simpa using h.append placed_nil

end Placed

theorem placed_target (target : Expr) (equals : Tok .equal) (n : Nat) :
    Placed [equals.1] n (targetViolations target n equals.1) := by
  unfold targetViolations
  split
  · exact placed_nil
  · exact placed_one (decide_eq_true equals.2)

theorem placed_counted (p : Problem) (h : p.blames t.kind = true) (count n : Nat) :
    Placed [t] n (countViolations count p n (some t)) := by
  unfold countViolations
  split
  · exact placed_one h
  · exact placed_nil

theorem placed_return (keyword : Tok .returnKw) (fs n : Nat) :
    Placed [keyword.1] n (returnViolations fs n keyword.1) := by
  unfold returnViolations
  split
  · exact placed_one (decide_eq_true keyword.2)
  · exact placed_nil

/-- The problems blame tokens of `ts` other than the first one. -/
def Follows (ts : List Token) (n : Nat) (bs : List Blame) : Prop :=
  ∃ t rest, ts = t :: rest ∧ Placed rest (n + 1) bs

namespace Follows

theorem placed (h : Follows ts n bs) : Placed ts n bs := by
  obtain ⟨t, rest, rfl, hrest⟩ := h
  exact hrest.cons

theorem append (h : Follows ts n bs) (h' : Placed us (n + ts.length) cs) :
    Follows (ts ++ us) n (bs ++ cs) := by
  obtain ⟨t, rest, rfl, hrest⟩ := h
  refine ⟨t, rest ++ us, rfl, hrest.append ?_⟩
  rwa [List.length_cons, Nat.add_comm rest.length, ← Nat.add_assoc] at h'

/-- The first token of an argument can be blamed as well. -/
theorem counted (h : Follows ts n bs)
    (hhead : ∃ t rest, ts = t :: rest ∧ startsExpression t.kind = true) (count : Nat) :
    Placed ts n (countViolations count .tooManyArguments n ts.head? ++ bs) := by
  obtain ⟨t, rest, rfl, hrest⟩ := h
  obtain ⟨_, _, heq, hstarts⟩ := hhead
  cases heq
  exact (placed_counted .tooManyArguments hstarts count n).append hrest

end Follows

mutual

theorem Phrase.follows : {r : Rule} → (d : Phrase r) → (n : Nat) →
    Follows d.tokens n (d.violations n)
  | _, .plain d, n => d.follows n
  | _, .assign target equals value, n => by
    -- The equals sign is blamed after what stands on both sides of it.
    have hright := (placed_target target.tree equals _).append
      (value.follows (n + target.tokens.length + 1)).placed
    rw [Phrase.violations, List.append_assoc]
    exact (target.follows n).append (hright.perm List.perm_append_comm)
  | _, .chain first tail, n => (first.follows n).append (tail.placed _)
  | _, .simple d, n => d.follows n
  | _, .ternary c _ whenTrue _ whenFalse, n => by
    rw [Phrase.violations, List.append_assoc]
    exact (c.follows n).append
      (.cons ((whenTrue.follows _).placed.append (.cons (whenFalse.follows _).placed)))
  | _, .signed operator right, n => ⟨operator.1, _, rfl, (right.follows (n + 1)).placed⟩
  | _, .unsigned d, n => d.follows n
  | _, .call callee suffixes, n => (callee.follows n).append (suffixes.placed _)
  | _, .constant t, _ => ⟨t.1, [], rfl, placed_nil⟩
  | _, .name t, _ => ⟨t.1, [], rfl, placed_nil⟩
  | _, .group opening inner _, n => ⟨opening.1, _, rfl, (inner.follows (n + 1)).placed.before⟩

theorem Tail.placed : {l : Level} → (d : Tail l) → (n : Nat) → Placed d.tokens n (d.violations n)
  | _, .done, _ => placed_nil
  | _, .more _ right rest, n => .cons ((right.follows (n + 1)).placed.append (rest.placed _))

theorem Suffixes.placed : (d : Suffixes) → (n : Nat) → Placed d.tokens n (d.violations n)
  | .done, _ => placed_nil
  | .empty _ _ rest, n => .cons (.cons (rest.placed (n + 2)))
  | .applied _ args _ rest, n => .cons ((args.placed 0 (n + 1)).append (.cons (rest.placed _)))

theorem Arguments.placed : (d : Arguments) → (count n : Nat) →
    Placed d.tokens n (d.violations count n)
  | .one d, count, n => (d.follows n).counted d.head count
  | .more first _ rest, count, n =>
    ((first.follows n).counted first.head count).append (.cons (rest.placed (count + 1) _))

end

theorem optional_placed (d : Option Exp) (n : Nat) :
    Placed (optional d) n (optionalViolations d n) := by
  cases d with
  | none => exact placed_nil
  | some d => exact (d.follows n).placed

theorem VarClause.placed (d : VarClause) (n : Nat) : Placed d.tokens n (d.violations n) := by
  unfold VarClause.tokens VarClause.violations
  cases d.initial with
  | none => exact placed_nil
  | some e => exact .cons (.cons (.cons ((e.2.follows (n + 3)).placed.before)))

theorem ExprClause.placed (d : ExprClause) (n : Nat) : Placed d.tokens n (d.violations n) :=
  (d.value.follows n).placed.before

theorem FirstClause.placed : (d : FirstClause) → (n : Nat) → Placed d.tokens n (d.violations n)
  | .absent _, _ => placed_nil
  | .var d, n => d.placed n
  | .expr d, n => d.placed n

theorem Parameters.placed : (d : Parameters) → (count n : Nat) →
    Placed d.tokens n (d.violations count n)
  | .one t, count, n => placed_counted .tooManyParameters (decide_eq_true t.2) count n
  | .more t _ rest, count, n =>
    (placed_counted .tooManyParameters (decide_eq_true t.2) count n).append
      (.cons (rest.placed (count + 1) (n + 2)))

theorem parameters_placed (d : Option Parameters) (n : Nat) :
    Placed (parameterTokens d) n (parameterViolations d n) := by
  cases d with
  | none => exact placed_nil
  | some d => exact d.placed 0 n

mutual

theorem Statement.placed : (d : Statement) → (fs n : Nat) →
    Placed d.tokens n (d.violations fs n)
  | .expr d, _, n => d.placed n
  | .forLoop _ _ first condition _ last _ body, fs, n => by
    simp only [Statement.violations, List.append_assoc]
    exact .cons (.cons ((first.placed (n + 2)).append ((optional_placed condition _).append
      (.cons ((optional_placed last _).append (.cons (body.placed fs _)))))))
  | .ifThen _ _ condition _ whenTrue, fs, n =>
    .cons (.cons ((condition.follows (n + 2)).placed.append (.cons (whenTrue.placed fs _))))
  | .ifElse _ _ condition _ whenTrue _ whenFalse, fs, n => by
    simp only [Statement.violations, List.append_assoc]
    exact .cons (.cons ((condition.follows (n + 2)).placed.append
      (.cons ((whenTrue.placed fs _).append (.cons (whenFalse.placed fs _))))))
  | .print _ value _, _, n => .cons (value.follows (n + 1)).placed.before
  | .ret keyword value _, fs, n =>
    (placed_return keyword fs n).append (optional_placed value (n + 1)).before
  | .whileLoop _ _ condition _ body, fs, n =>
    .cons (.cons ((condition.follows (n + 2)).placed.append (.cons (body.placed fs _))))
  | .block _ body _, fs, n => .cons (body.placed fs (n + 1)).before

theorem Decl.placed : (d : Decl) → (fs n : Nat) → Placed d.tokens n (d.violations fs n)
  | .function _ _ _ params _ _ body _, fs, n =>
    .cons (.cons (.cons ((parameters_placed params (n + 3)).append
      (.cons (.cons (body.placed (fs + 1) _).before)))))
  | .var d, _, n => d.placed n
  | .statement d, fs, n => d.placed fs n

/-- Violations blame different tokens, each of the kind that its rule is about. -/
theorem Decls.placed : (d : Decls) → (fs n : Nat) → Placed d.tokens n (d.violations fs n)
  | .nil, _, _ => placed_nil
  | .cons first others, fs, n => (first.placed fs n).append (others.placed fs _)

end

end Grammar

end Treewalk
