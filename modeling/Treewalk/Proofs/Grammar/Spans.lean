import Treewalk.Proofs.Grammar.Steps

/-!
# Derivations between two states

A derivation spans the way from one state to another if its tokens are what is
read between them and its violations what is recorded. For each construct: when
its parts span consecutive stretches, the whole spans all of them. `Soundness`
and `Completeness` both put the readings of the parts together with these.
-/
namespace Treewalk

open ParseState

namespace Grammar

/-! ## Expressions -/

def Phrase.Spans {r : Rule} (d : Phrase r) (s s' : ParseState) : Prop :=
  s.Reads d.tokens (d.violations s.position) s'

def Tail.Spans {l : Level} (d : Tail l) (s s' : ParseState) : Prop :=
  s.Reads d.tokens (d.violations s.position) s'

def Suffixes.Spans (d : Suffixes) (s s' : ParseState) : Prop :=
  s.Reads d.tokens (d.violations s.position) s'

/-- Arguments after `count` others. -/
def Arguments.Spans (d : Arguments) (count : Nat) (s s' : ParseState) : Prop :=
  s.Reads d.tokens (d.violations count s.position) s'

section Expressions

variable {s s₁ s₂ s₃ s₄ s₅ : ParseState}

theorem spans_assign {e : Extent} {target : Phrase e.target} {t : Tok .equal}
    {value : Phrase (.assignment e)} (rt : target.Spans s s₁) (ht : s₁.Takes t.1 s₂)
    (rv : value.Spans s₂ s₃) :
    (Phrase.assign target t value).Spans s
      (s₃.noted (targetViolations target.tree s₁.position t.1)) := by
  have r := (rt.trans (ht.reads.trans rv)).trans
    (s₃.reads_noted (targetViolations target.tree s₁.position t.1))
  rw [ht.reads.position, rt.position] at r
  rw [rt.position]
  simpa [Phrase.Spans, Phrase.tokens, Phrase.violations] using r

theorem spans_chain {l : Level} {first : Phrase l.operand} {tail : Tail l}
    (rf : first.Spans s s₁) (rt : tail.Spans s₁ s₂) : (Phrase.chain first tail).Spans s s₂ := by
  have r := rf.trans rt
  rwa [rf.position] at r

theorem spans_tail {l : Level} {t : TokIn l.has} {right : Phrase l.operand} {rest : Tail l}
    (ht : s.Takes t.1 s₁) (rr : right.Spans s₁ s₂) (rt : rest.Spans s₂ s₃) :
    (Tail.more t right rest).Spans s s₃ := by
  have r := ht.reads.trans (rr.trans rt)
  rw [rr.position, ht.reads.position] at r
  simpa [Tail.Spans, Tail.tokens, Tail.violations] using r

theorem spans_ternary {c : Phrase (.chain .disjunction)} {t : Tok .question}
    {w : Phrase (.assignment .full)} {u : Tok .colon} {f : Phrase .conditional}
    (rc : c.Spans s s₁) (ht : s₁.Takes t.1 s₂) (rw' : w.Spans s₂ s₃) (hu : s₃.Takes u.1 s₄)
    (rf : f.Spans s₄ s₅) : (Phrase.ternary c t w u f).Spans s s₅ := by
  have r := rc.trans (ht.reads.trans (rw'.trans (hu.reads.trans rf)))
  rw [hu.reads.position, rw'.position, ht.reads.position, rc.position] at r
  simpa [Phrase.Spans, Phrase.tokens, Phrase.violations] using r

theorem spans_signed {t : TokIn Parse.isPrefixOperator} {right : Phrase .unary}
    (ht : s.Takes t.1 s₁) (rr : right.Spans s₁ s₂) : (Phrase.signed t right).Spans s s₂ := by
  have r := ht.reads.trans rr
  rwa [ht.reads.position] at r

theorem spans_call {callee : Phrase .primary} {suffixes : Suffixes} (rc : callee.Spans s s₁)
    (rs : suffixes.Spans s₁ s₂) : (Phrase.call callee suffixes).Spans s s₂ := by
  have r := rc.trans rs
  rwa [rc.position] at r

theorem spans_empty {t : Tok .leftParen} {u : Tok .rightParen} {rest : Suffixes}
    (ht : s.Takes t.1 s₁) (hu : s₁.Takes u.1 s₂) (rs : rest.Spans s₂ s₃) :
    (Suffixes.empty t u rest).Spans s s₃ := by
  have r := ht.reads.trans (hu.reads.trans rs)
  rw [hu.reads.position, ht.reads.position] at r
  simpa [Suffixes.Spans, Suffixes.tokens, Suffixes.violations] using r

theorem spans_applied {t : Tok .leftParen} {args : Arguments} {u : Tok .rightParen}
    {rest : Suffixes} (ht : s.Takes t.1 s₁) (ra : args.Spans 0 s₁ s₂) (hu : s₂.Takes u.1 s₃)
    (rs : rest.Spans s₃ s₄) : (Suffixes.applied t args u rest).Spans s s₄ := by
  have r := ht.reads.trans (ra.trans (hu.reads.trans rs))
  rw [hu.reads.position, ra.position, ht.reads.position] at r
  simpa [Suffixes.Spans, Suffixes.tokens, Suffixes.violations] using r

/-- The token at hand where a phrase is read is the first one of the phrase. -/
theorem Phrase.Spans.head {r : Rule} {d : Phrase r} (h : d.Spans s s₁) :
    s.rest.head? = d.tokens.head? := by
  obtain ⟨t, ts, e, -⟩ := d.head
  have hrest : s.rest = d.tokens ++ s₁.rest := h.rest
  rw [hrest, e]
  rfl

/-- The state in which an argument after `count` others is read. -/
def counted (s : ParseState) (count : Nat) (p : Problem) : ParseState :=
  s.noted (countViolations count p s.position s.rest.head?)

theorem spans_counted {count : Nat} {d : Phrase (.assignment .argument)}
    (h : d.Spans (counted s count .tooManyArguments) s₁) :
    s.Reads d.tokens
      (countViolations count .tooManyArguments s.position d.tokens.head? ++
        d.violations s.position) s₁ := by
  have hn := s.reads_noted (countViolations count .tooManyArguments s.position s.rest.head?)
  have r := hn.trans h
  rwa [show s.rest.head? = d.tokens.head? from h.head] at r

theorem spans_arguments {count : Nat} {first : Phrase (.assignment .argument)} {t : Tok .comma}
    {rest : Arguments} (rf : first.Spans (counted s count .tooManyArguments) s₁)
    (ht : s₁.Takes t.1 s₂) (rr : rest.Spans (count + 1) s₂ s₃) :
    (Arguments.more first t rest).Spans count s s₃ := by
  have r := (spans_counted rf).trans (ht.reads.trans rr)
  rw [ht.reads.position, (spans_counted rf).position] at r
  simpa [Arguments.Spans, Arguments.tokens, Arguments.violations] using r

theorem spans_group {t : Tok .leftParen} {inner : Phrase (.assignment .full)}
    {u : Tok .rightParen} (ht : s.Takes t.1 s₁) (ri : inner.Spans s₁ s₂) (hu : s₂.Takes u.1 s₃) :
    (Phrase.group t inner u).Spans s s₃ := by
  have r := ht.reads.trans (ri.trans hu.reads)
  rw [ht.reads.position] at r
  simpa [Phrase.Spans, Phrase.tokens, Phrase.violations] using r

end Expressions

/-! ## Clauses -/

def Parameters.Spans (d : Parameters) (count : Nat) (s s' : ParseState) : Prop :=
  s.Reads d.tokens (d.violations count s.position) s'

/-- An expression that may be left out. -/
def OptionalSpans (d : Option Exp) (s s' : ParseState) : Prop :=
  s.Reads (optional d) (optionalViolations d s.position) s'

def ExprClause.Spans (d : ExprClause) (s s' : ParseState) : Prop :=
  s.Reads d.tokens (d.violations s.position) s'

def VarClause.Spans (d : VarClause) (s s' : ParseState) : Prop :=
  s.Reads d.tokens (d.violations s.position) s'

def FirstClause.Spans (d : FirstClause) (s s' : ParseState) : Prop :=
  s.Reads d.tokens (d.violations s.position) s'

/-- Parameters that may be left out. -/
def ParameterSpans (d : Option Parameters) (s s' : ParseState) : Prop :=
  s.Reads (parameterTokens d) (parameterViolations d s.position) s'

section Clauses

variable {s s₁ s₂ s₃ s₄ s₅ : ParseState}

theorem spans_parameter {count : Nat} {t : Tok .identifier}
    (ht : (counted s count .tooManyParameters).Takes t.1 s₁) :
    (Parameters.one t).Spans count s s₁ := by
  have hhead : s.rest.head? = some t.1 := (takes_iff.mp ht).1
  have r := (s.reads_noted (countViolations count .tooManyParameters s.position s.rest.head?)).trans
    ht.reads
  rw [hhead] at r
  simpa [Parameters.Spans, Parameters.tokens, Parameters.violations] using r

theorem spans_parameters {count : Nat} {t : Tok .identifier} {u : Tok .comma} {rest : Parameters}
    (ht : (counted s count .tooManyParameters).Takes t.1 s₁) (hu : s₁.Takes u.1 s₂)
    (rr : rest.Spans (count + 1) s₂ s₃) : (Parameters.more t u rest).Spans count s s₃ := by
  have r := (spans_parameter ht).trans (hu.reads.trans rr)
  rw [hu.reads.position, ht.reads.position] at r
  simpa [Parameters.Spans, Parameters.tokens, Parameters.violations, counted, noted] using r

theorem spans_exprClause {d : Exp} {t : Tok .semicolon} (rd : d.Spans s s₁)
    (ht : s₁.Takes t.1 s₂) : (ExprClause.mk d t).Spans s s₂ := by
  simpa [ExprClause.Spans, ExprClause.tokens, ExprClause.violations] using rd.trans ht.reads

theorem spans_declared {k : Tok .varKw} {name : Tok .identifier} {u : Tok .semicolon}
    (hk : s.Takes k.1 s₁) (hn : s₁.Takes name.1 s₂) (hu : s₂.Takes u.1 s₃) :
    (VarClause.mk k name none u).Spans s s₃ :=
  hk.reads.trans (hn.reads.trans hu.reads)

theorem spans_initialized {k : Tok .varKw} {name : Tok .identifier} {t : Tok .equal} {d : Exp}
    {u : Tok .semicolon} (hk : s.Takes k.1 s₁) (hn : s₁.Takes name.1 s₂) (ht : s₂.Takes t.1 s₃)
    (rd : d.Spans s₃ s₄) (hu : s₄.Takes u.1 s₅) :
    (VarClause.mk k name (some (t, d)) u).Spans s s₅ := by
  have r := hk.reads.trans (hn.reads.trans (ht.reads.trans (rd.trans hu.reads)))
  rw [ht.reads.position, hn.reads.position, hk.reads.position] at r
  simpa [VarClause.Spans, VarClause.tokens, VarClause.violations, initialTokens] using r

end Clauses

/-! ## Statements -/

def Statement.Spans (d : Statement) (s s' : ParseState) : Prop :=
  s.Reads d.tokens (d.violations s.functions s.position) s'

def Decl.Spans (d : Decl) (s s' : ParseState) : Prop :=
  s.Reads d.tokens (d.violations s.functions s.position) s'

def Decls.Spans (d : Decls) (s s' : ParseState) : Prop :=
  s.Reads d.tokens (d.violations s.functions s.position) s'

section Statements

variable {s s₁ s₂ s₃ s₄ s₅ s₆ s₇ : ParseState}

theorem spans_print {k : Tok .printKw} {d : Exp} {u : Tok .semicolon} (hk : s.Takes k.1 s₁)
    (rd : d.Spans s₁ s₂) (hu : s₂.Takes u.1 s₃) : (Statement.print k d u).Spans s s₃ := by
  have r := hk.reads.trans (rd.trans hu.reads)
  rw [hk.reads.position] at r
  simpa [Statement.Spans, Statement.tokens, Statement.violations] using r

/-- The state in which a `return` is read. -/
def checkedReturn (s : ParseState) (keyword : Token) : ParseState :=
  s.noted (returnViolations s.functions s.position keyword)

theorem spans_return {k : Tok .returnKw} {d : Option Exp} {u : Tok .semicolon}
    (hk : (checkedReturn s k.1).Takes k.1 s₁) (rd : OptionalSpans d s₁ s₂) (hu : s₂.Takes u.1 s₃) :
    (Statement.ret k d u).Spans s s₃ := by
  have r := (s.reads_noted _).trans (hk.reads.trans (rd.trans hu.reads))
  rw [hk.reads.position] at r
  simpa [Statement.Spans, Statement.tokens, Statement.violations, checkedReturn, noted] using r

theorem spans_block {o : Tok .leftBrace} {d : Decls} {c : Tok .rightBrace} (ho : s.Takes o.1 s₁)
    (rd : d.Spans s₁ s₂) (hc : s₂.Takes c.1 s₃) : (Statement.block o d c).Spans s s₃ := by
  have r := ho.reads.trans (rd.trans hc.reads)
  rw [ho.reads.position, ho.reads.functions] at r
  simpa [Statement.Spans, Statement.tokens, Statement.violations] using r

theorem spans_for {s₈ : ParseState} {k : Tok .forKw} {o : Tok .leftParen} {first : FirstClause}
    {condition : Option Exp} {u : Tok .semicolon} {last : Option Exp} {c : Tok .rightParen}
    {body : Statement} (hk : s.Takes k.1 s₁) (ho : s₁.Takes o.1 s₂) (rf : first.Spans s₂ s₃)
    (rc : OptionalSpans condition s₃ s₄) (hu : s₄.Takes u.1 s₅) (rl : OptionalSpans last s₅ s₆)
    (hc : s₆.Takes c.1 s₇) (rb : body.Spans s₇ s₈) :
    (Statement.forLoop k o first condition u last c body).Spans s s₈ := by
  have r := hk.reads.trans (ho.reads.trans (rf.trans (rc.trans (hu.reads.trans (rl.trans
    (hc.reads.trans rb))))))
  rw [hc.reads.position, rl.position, hu.reads.position, rc.position, rf.position,
    ho.reads.position, hk.reads.position, hc.reads.functions, rl.functions, hu.reads.functions,
    rc.functions, rf.functions, ho.reads.functions, hk.reads.functions] at r
  simpa [Statement.Spans, Statement.tokens, Statement.violations, Nat.add_assoc] using r

theorem spans_ifThen {k : Tok .ifKw} {o : Tok .leftParen} {condition : Exp} {c : Tok .rightParen}
    {whenTrue : Statement} (hk : s.Takes k.1 s₁) (ho : s₁.Takes o.1 s₂)
    (rc : condition.Spans s₂ s₃) (hc : s₃.Takes c.1 s₄) (rw' : whenTrue.Spans s₄ s₅) :
    (Statement.ifThen k o condition c whenTrue).Spans s s₅ := by
  have r := hk.reads.trans (ho.reads.trans (rc.trans (hc.reads.trans rw')))
  rw [hc.reads.position, rc.position, ho.reads.position, hk.reads.position,
    hc.reads.functions, rc.functions, ho.reads.functions, hk.reads.functions] at r
  simpa [Statement.Spans, Statement.tokens, Statement.violations, Nat.add_assoc] using r

theorem spans_ifElse {k : Tok .ifKw} {o : Tok .leftParen} {condition : Exp} {c : Tok .rightParen}
    {whenTrue whenFalse : Statement} {v : Tok .elseKw} (hk : s.Takes k.1 s₁)
    (ho : s₁.Takes o.1 s₂) (rc : condition.Spans s₂ s₃) (hc : s₃.Takes c.1 s₄)
    (rw' : whenTrue.Spans s₄ s₅) (hv : s₅.Takes v.1 s₆) (rf : whenFalse.Spans s₆ s₇) :
    (Statement.ifElse k o condition c whenTrue v whenFalse).Spans s s₇ := by
  have r := hk.reads.trans (ho.reads.trans (rc.trans (hc.reads.trans (rw'.trans
    (hv.reads.trans rf)))))
  rw [hv.reads.position, rw'.position, hc.reads.position, rc.position, ho.reads.position,
    hk.reads.position, hv.reads.functions, rw'.functions, hc.reads.functions, rc.functions,
    ho.reads.functions, hk.reads.functions] at r
  simpa [Statement.Spans, Statement.tokens, Statement.violations, Nat.add_assoc] using r

theorem spans_while {k : Tok .whileKw} {o : Tok .leftParen} {condition : Exp}
    {c : Tok .rightParen} {body : Statement} (hk : s.Takes k.1 s₁) (ho : s₁.Takes o.1 s₂)
    (rc : condition.Spans s₂ s₃) (hc : s₃.Takes c.1 s₄) (rb : body.Spans s₄ s₅) :
    (Statement.whileLoop k o condition c body).Spans s s₅ := by
  have r := hk.reads.trans (ho.reads.trans (rc.trans (hc.reads.trans rb)))
  rw [hc.reads.position, rc.position, ho.reads.position, hk.reads.position,
    hc.reads.functions, rc.functions, ho.reads.functions, hk.reads.functions] at r
  simpa [Statement.Spans, Statement.tokens, Statement.violations, Nat.add_assoc] using r

/-- The body of a function is read with one more function around it. -/
theorem spans_function {s₈ : ParseState} {k : Tok .funKw} {name : Tok .identifier}
    {o : Tok .leftParen} {params : Option Parameters} {c : Tok .rightParen} {b : Tok .leftBrace}
    {body : Decls} {e : Tok .rightBrace} (hk : s.Takes k.1 s₁) (hn : s₁.Takes name.1 s₂)
    (ho : s₂.Takes o.1 s₃) (rp : ParameterSpans params s₃ s₄) (hc : s₄.Takes c.1 s₅)
    (hb : s₅.Takes b.1 s₆) (rb : body.Spans { s₆ with functions := s₆.functions + 1 } s₇)
    (he : s₇.Takes e.1 s₈) :
    (Decl.function k name o params c b body e).Spans s { s₈ with functions := s₈.functions - 1 } := by
  have rbody : s₆.Reads (body.tokens ++ [e.1]) (body.violations (s₆.functions + 1) s₆.position)
      { s₈ with functions := s₈.functions - 1 } := by
    have r := rb.trans he.reads
    exact ⟨r.rest, r.position, Nat.sub_eq_of_eq_add r.functions, by simpa using r.problems⟩
  have hfs : s₆.functions = s.functions := by
    rw [hb.reads.functions, hc.reads.functions, rp.functions, ho.reads.functions,
      hn.reads.functions, hk.reads.functions]
  have r := hk.reads.trans (hn.reads.trans (ho.reads.trans (rp.trans (hc.reads.trans
    (hb.reads.trans rbody)))))
  rw [hb.reads.position, hc.reads.position, rp.position, ho.reads.position, hn.reads.position,
    hk.reads.position, hfs] at r
  simpa [Decl.Spans, Decl.tokens, Decl.violations, Nat.add_assoc] using r

theorem spans_cons {first : Decl} {others : Decls} (rf : first.Spans s s₁)
    (ro : others.Spans s₁ s₂) : (Decls.cons first others).Spans s s₂ := by
  have r := rf.trans ro
  rwa [rf.functions, rf.position] at r

end Statements

end Grammar

end Treewalk
