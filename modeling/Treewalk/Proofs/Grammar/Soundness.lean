import Treewalk.Proofs.Grammar.Moves
import Treewalk.Proofs.Grammar.Spans

/-!
# What is read has a derivation

Whatever the functions that read expressions and statements accept is the text
of a derivation: its tree is their result, and its violations are what they
record on the way.

Results:

* `expression_sound`: every expression that is read has a derivation.
* `declarations_sound`: so do all declarations, if no fatal problem is recorded.
-/
namespace Treewalk

open Grammar Parse

/-! ## Expressions -/

/-- With this much fuel, every function that reads a part of an expression reads
a derivation of it. -/
structure SoundAt (fuel : Nat) : Prop where
  read : ∀ r s a s', Rule.read r fuel s = .ok a s' → ∃ d : Phrase r, d.tree = a ∧ d.Spans s s'
  operand : ∀ l s a s', operand fuel l s = .ok a s' →
    ∃ d : Phrase l.operand, d.tree = a ∧ d.Spans s s'
  tail : ∀ l left s a s', chainTail fuel l left s = .ok a s' →
    ∃ d : Tail l, d.tree left = a ∧ d.Spans s s'
  suffixes : ∀ callee s a s', callTail fuel callee s = .ok a s' →
    ∃ d : Suffixes, d.tree callee = a ∧ d.Spans s s'
  arguments : ∀ count s as s', arguments fuel count s = .ok as s' →
    ∃ d : Arguments, d.trees = as ∧ d.Spans count s s'

namespace SoundAt

variable {fuel : Nat} {s s' : ParseState} {a : Expr}

theorem assignment_succ (ih : SoundAt fuel) {e : Extent}
    (h : Parse.assignment (fuel + 1) e s = .ok a s') :
    ∃ d : Phrase (.assignment e), d.tree = a ∧ d.Spans s s' := by
  obtain ⟨target, s₁, ht, h⟩ := assignment_eq_ok.mp h
  obtain ⟨dt, rfl, rt⟩ := ih.read _ _ _ _ ht
  obtain ⟨-, rfl, rfl⟩ | ⟨t, s₂, hk, ke, value, s₃, hv, rfl, rfl⟩ := h
  · exact ⟨.plain dt, rfl, rt⟩
  · obtain ⟨dv, rfl, rv⟩ := ih.read (.assignment e) _ _ _ hv
    exact ⟨.assign dt ⟨t, ke⟩ dv, rfl, spans_assign rt hk rv⟩

theorem chain_succ (ih : SoundAt fuel) {l : Level} (h : Parse.chain (fuel + 1) l s = .ok a s') :
    ∃ d : Phrase (.chain l), d.tree = a ∧ d.Spans s s' := by
  obtain ⟨left, s₁, hl, ht⟩ := chain_eq_ok.mp h
  obtain ⟨dl, rfl, rl⟩ := ih.operand _ _ _ _ hl
  obtain ⟨dt, rfl, rt⟩ := ih.tail _ _ _ _ _ ht
  exact ⟨.chain dl dt, rfl, spans_chain rl rt⟩

theorem tail_succ (ih : SoundAt fuel) {l : Level} {left : Expr}
    (h : chainTail (fuel + 1) l left s = .ok a s') :
    ∃ d : Tail l, d.tree left = a ∧ d.Spans s s' := by
  obtain ⟨-, rfl, rfl⟩ | ⟨t, s₁, hk, ko, right, s₂, hr, h⟩ := chainTail_eq_ok.mp h
  · exact ⟨.done, rfl, .refl _⟩
  · obtain ⟨dr, rfl, rr⟩ := ih.operand _ _ _ _ hr
    obtain ⟨dt, rfl, rt⟩ := ih.tail _ _ _ _ _ h
    exact ⟨.more ⟨t, ko⟩ dr dt, Tail.tree_more .., spans_tail hk rr rt⟩

theorem conditional_succ (ih : SoundAt fuel) (h : Parse.conditional (fuel + 1) s = .ok a s') :
    ∃ d : Phrase .conditional, d.tree = a ∧ d.Spans s s' := by
  obtain ⟨c, s₁, hc, h⟩ := conditional_eq_ok.mp h
  obtain ⟨dc, rfl, rc⟩ := ih.read (.chain .disjunction) _ _ _ hc
  obtain ⟨-, rfl, rfl⟩ | ⟨t, s₂, hq, kq, w, s₃, hw, u, s₄, hu, ku, f, s₅, hf, rfl, rfl⟩ := h
  · exact ⟨.simple dc, rfl, rc⟩
  · obtain ⟨dw, rfl, rw'⟩ := ih.read (.assignment .full) _ _ _ hw
    obtain ⟨df, rfl, rf⟩ := ih.read .conditional _ _ _ hf
    exact ⟨.ternary dc ⟨t, kq⟩ dw ⟨u, ku⟩ df, rfl, spans_ternary rc hq rw' hu rf⟩

theorem unary_succ (ih : SoundAt fuel) (h : Parse.unary (fuel + 1) s = .ok a s') :
    ∃ d : Phrase .unary, d.tree = a ∧ d.Spans s s' := by
  obtain ⟨-, h⟩ | ⟨t, s₁, ht, kt, right, s₂, hr, rfl, rfl⟩ := unary_eq_ok.mp h
  · obtain ⟨d, rfl, r⟩ := ih.read .call _ _ _ h
    exact ⟨.unsigned d, rfl, r⟩
  · obtain ⟨dr, rfl, rr⟩ := ih.read .unary _ _ _ hr
    exact ⟨.signed ⟨t, kt⟩ dr, rfl, spans_signed ht rr⟩

theorem suffixes_succ (ih : SoundAt fuel) {callee : Expr}
    (h : callTail (fuel + 1) callee s = .ok a s') :
    ∃ d : Suffixes, d.tree callee = a ∧ d.Spans s s' := by
  obtain ⟨-, rfl, rfl⟩ | ⟨t, s₁, ht, kt, args, s₂, ha, u, s₃, hu, ku, h⟩ := callTail_eq_ok.mp h
  · exact ⟨.done, rfl, .refl _⟩
  · obtain ⟨ds, rfl, rs⟩ := ih.suffixes _ _ _ _ h
    obtain ⟨-, rfl, rfl⟩ | ⟨-, ha⟩ := ha
    · exact ⟨.empty ⟨t, kt⟩ ⟨u, ku⟩ ds, rfl, spans_empty ht hu rs⟩
    · obtain ⟨da, rfl, ra⟩ := ih.arguments _ _ _ _ ha
      exact ⟨.applied ⟨t, kt⟩ da ⟨u, ku⟩ ds, rfl, spans_applied ht ra hu rs⟩

theorem arguments_succ (ih : SoundAt fuel) {count : Nat} {as : List Expr}
    (h : Parse.arguments (fuel + 1) count s = .ok as s') :
    ∃ d : Arguments, d.trees = as ∧ d.Spans count s s' := by
  obtain ⟨first, s₁, hf, h⟩ := arguments_eq_ok.mp h
  obtain ⟨df, rfl, rf⟩ := ih.read (.assignment .argument) _ _ _ hf
  obtain ⟨-, rfl, rfl⟩ | ⟨t, s₂, ht, kt, others, s₃, ho, rfl, rfl⟩ := h
  · exact ⟨.one df, rfl, spans_counted rf⟩
  · obtain ⟨d, rfl, r⟩ := ih.arguments _ _ _ _ ho
    exact ⟨.more df ⟨t, kt⟩ d, rfl, spans_arguments rf ht r⟩

theorem primary_succ (ih : SoundAt fuel) (h : Parse.primary (fuel + 1) s = .ok a s') :
    ∃ d : Phrase .primary, d.tree = a ∧ d.Spans s s' := by
  obtain ⟨t, s₁, ht, h⟩ := primary_eq_ok.mp h
  obtain ⟨kc, rfl, rfl⟩ | ⟨ki, rfl, rfl⟩ | ⟨kp, inner, s₂, hi, u, s₃, hu, ku, rfl, rfl⟩ := h
  · exact ⟨.constant ⟨t, kc⟩, rfl, ht.reads⟩
  · exact ⟨.name ⟨t, ki⟩, rfl, ht.reads⟩
  · obtain ⟨di, rfl, ri⟩ := ih.read (.assignment .full) _ _ _ hi
    exact ⟨.group ⟨t, kp⟩ di ⟨u, ku⟩, rfl, spans_group ht ri hu⟩

theorem zero : SoundAt 0 where
  read r s a s' h := by
    cases r with
    | call =>
      obtain ⟨callee, s₁, hp, -⟩ := call_eq_ok.mp h
      exact (outOfFuel_ne_ok hp).elim
    | _ => exact (outOfFuel_ne_ok h).elim
  operand _ _ _ _ h := (outOfFuel_ne_ok h).elim
  tail _ _ _ _ _ h := (outOfFuel_ne_ok h).elim
  suffixes _ _ _ _ h := (outOfFuel_ne_ok h).elim
  arguments _ _ _ _ h := (outOfFuel_ne_ok h).elim

theorem succ (ih : SoundAt fuel) : SoundAt (fuel + 1) where
  read r s a s' h := by
    cases r with
    | assignment e => exact ih.assignment_succ h
    | chain l => exact ih.chain_succ h
    | conditional => exact ih.conditional_succ h
    | unary => exact ih.unary_succ h
    | call =>
      obtain ⟨callee, s₁, hp, hs⟩ := call_eq_ok.mp h
      obtain ⟨dp, rfl, rp⟩ := ih.primary_succ hp
      obtain ⟨ds, rfl, rs⟩ := ih.suffixes_succ hs
      exact ⟨.call dp ds, rfl, spans_call rp rs⟩
    | primary => exact ih.primary_succ h
  operand l s a s' h := by
    rw [read_operand] at h
    exact ih.read _ _ _ _ h
  tail _ _ _ _ _ h := ih.tail_succ h
  suffixes _ _ _ _ h := ih.suffixes_succ h
  arguments _ _ _ _ h := ih.arguments_succ h

theorem all : ∀ fuel, SoundAt fuel
  | 0 => zero
  | fuel + 1 => (all fuel).succ

end SoundAt

/-- Every expression that is read has a derivation. -/
theorem expression_sound {fuel : Nat} {s s' : ParseState} {a : Expr}
    (h : expression fuel s = .ok a s') : ∃ d : Exp, d.tree = a ∧ d.Spans s s' :=
  (SoundAt.all fuel).read (.assignment .full) _ _ _ h

/-! ## Clauses -/

section Clauses

variable {fuel : Nat} {s s' : ParseState}

theorem parameters_sound : ∀ {fuel count : Nat} {s s' : ParseState} {params : List Token},
    parameters fuel count s = .ok params s' →
      ∃ d : Parameters, d.names = params ∧ d.Spans count s s'
  | 0, _, _, _, _, h => (outOfFuel_ne_ok h).elim
  | fuel + 1, count, s, s', params, h => by
    obtain ⟨first, s₁, hf, kf, h⟩ := parameters_eq_ok.mp h
    obtain ⟨-, rfl, rfl⟩ | ⟨t, s₂, ht, kt, others, s₃, ho, rfl, rfl⟩ := h
    · exact ⟨.one ⟨first, kf⟩, rfl, spans_parameter hf⟩
    · obtain ⟨d, rfl, r⟩ := parameters_sound ho
      exact ⟨.more ⟨first, kf⟩ ⟨t, kt⟩ d, rfl, spans_parameters hf ht r⟩

theorem expressionUnless_sound {k : Kind} {r : Option Expr}
    (h : expressionUnless fuel k s = .ok r s') :
    ∃ d : Option Exp, d.map Phrase.tree = r ∧ OptionalSpans d s s' := by
  obtain ⟨-, rfl, rfl⟩ | ⟨-, e, s₁, he, rfl, rfl⟩ := expressionUnless_eq_ok.mp h
  · exact ⟨none, rfl, .refl _⟩
  · obtain ⟨d, rfl, r⟩ := expression_sound he
    exact ⟨some d, rfl, r⟩

theorem expressionStatement_sound {r : Stmt} (h : expressionStatement fuel s = .ok r s') :
    ∃ d : ExprClause, d.tree = r ∧ d.Spans s s' := by
  obtain ⟨e, s₁, he, t, s₂, ht, kt, rfl, rfl⟩ := expressionStatement_eq_ok.mp h
  obtain ⟨d, rfl, r⟩ := expression_sound he
  exact ⟨⟨d, ⟨t, kt⟩⟩, rfl, spans_exprClause r ht⟩

/-- What follows `var` after its keyword has been read. -/
theorem varDeclaration_sound {s₀ : ParseState} {keyword : Token} {r : Stmt}
    (hk : s₀.Takes keyword s) (kk : keyword.kind = .varKw)
    (h : varDeclaration fuel s = .ok r s') : ∃ d : VarClause, d.tree = r ∧ d.Spans s₀ s' := by
  obtain ⟨name, s₁, hn, kn, initial, s₂, hi, u, s₄, hu, ku, rfl, rfl⟩ := varDeclaration_eq_ok.mp h
  obtain ⟨-, rfl, rfl⟩ | ⟨t, s₃, ht, kt, e, he, rfl⟩ := hi
  · exact ⟨⟨⟨keyword, kk⟩, ⟨name, kn⟩, none, ⟨u, ku⟩⟩, rfl, spans_declared hk hn hu⟩
  · obtain ⟨d, rfl, r⟩ := expression_sound he
    exact ⟨⟨⟨keyword, kk⟩, ⟨name, kn⟩, some (⟨t, kt⟩, d), ⟨u, ku⟩⟩, rfl,
      spans_initialized hk hn ht r hu⟩

theorem firstClause_sound {r : Option Stmt} (h : firstClause fuel s = .ok r s') :
    ∃ d : FirstClause, d.tree = r ∧ d.Spans s s' := by
  obtain ⟨-, d, s₁, hd, rfl, rfl⟩ | ⟨t, s₁, ht, ⟨kt, rfl, rfl⟩ | ⟨kt, d, s₂, hd, rfl, rfl⟩⟩ :=
    firstClause_eq_ok.mp h
  · obtain ⟨d, rfl, r⟩ := expressionStatement_sound hd
    exact ⟨.expr d, rfl, r⟩
  · exact ⟨.absent ⟨t, kt⟩, rfl, ht.reads⟩
  · obtain ⟨d, rfl, r⟩ := varDeclaration_sound ht kt hd
    exact ⟨.var d, rfl, r⟩

end Clauses

/-! ## Statements -/

/-- The result is the tree of a statement between the two states in which every `else`
belongs to the nearest `if`, and no `else` that could belong to it comes after it. -/
def StatementFound (s : ParseState) (r : Stmt) (s' : ParseState) : Prop :=
  ∃ d : Statement, d.tree = r ∧ d.Spans s s' ∧ d.Nearest ∧
    (d.open = true → s'.Lacks (· = .elseKw))

def DeclFound (s : ParseState) (r : Stmt) (s' : ParseState) : Prop :=
  ∃ d : Decl, d.tree = r ∧ d.Spans s s' ∧ d.Nearest

def DeclsFound (s : ParseState) (rs : List Stmt) (s' : ParseState) : Prop :=
  ∃ d : Decls, d.trees = rs ∧ d.Spans s s' ∧ d.Nearest

/-- With this much fuel, every function that reads statements reads a derivation
unless it records a fatal problem. What follows a keyword is read in `s₁`, after the
keyword in `s`. -/
structure SoundStatementsAt (fuel : Nat) : Prop where
  declaration : ∀ s r s', declaration fuel s = .ok (some r) s' → NoFatal s' → DeclFound s r s'
  declarations : ∀ inBlock s rs s', declarations fuel inBlock s = .ok rs s' → NoFatal s' →
    DeclsFound s rs s'
  block : ∀ s body s', block fuel s = .ok body s' → NoFatal s' →
    ∃ (s₁ : ParseState) (t : Token), DeclsFound s body s₁ ∧ s₁.Takes t s' ∧ t.kind = .rightBrace
  function : ∀ s t s₁ r s', s.Takes t s₁ → t.kind = .funKw →
    functionDeclaration fuel s₁ = .ok r s' → NoFatal s' → DeclFound s r s'
  statement : ∀ s r s', statement fuel s = .ok r s' → NoFatal s' → StatementFound s r s'
  forLoop : ∀ s t s₁ r s', s.Takes t s₁ → t.kind = .forKw →
    forStatement fuel s₁ = .ok r s' → NoFatal s' → StatementFound s r s'
  ifThen : ∀ s t s₁ r s', s.Takes t s₁ → t.kind = .ifKw →
    ifStatement fuel s₁ = .ok r s' → NoFatal s' → StatementFound s r s'
  whileLoop : ∀ s t s₁ r s', s.Takes t s₁ → t.kind = .whileKw →
    whileStatement fuel s₁ = .ok r s' → NoFatal s' → StatementFound s r s'

namespace SoundStatementsAt

variable {fuel : Nat} {s s₁ s' : ParseState} {t : Token} {r : Stmt}

theorem zero : SoundStatementsAt 0 where
  declaration _ _ _ h := (outOfFuel_ne_ok h).elim
  declarations _ _ _ _ h := (outOfFuel_ne_ok h).elim
  block _ _ _ h := (outOfFuel_ne_ok h).elim
  function _ _ _ _ _ _ _ h := (outOfFuel_ne_ok h).elim
  statement _ _ _ h := (outOfFuel_ne_ok h).elim
  forLoop _ _ _ _ _ _ _ h := (outOfFuel_ne_ok h).elim
  ifThen _ _ _ _ _ _ _ h := (outOfFuel_ne_ok h).elim
  whileLoop _ _ _ _ _ _ _ h := (outOfFuel_ne_ok h).elim

theorem declaration_succ (ih : SoundStatementsAt fuel)
    (h : Parse.declaration (fuel + 1) s = .ok (some r) s') (hn : NoFatal s') :
    DeclFound s r s' := by
  obtain ⟨-, h⟩ | ⟨t, s₁, ht, ⟨kt, h⟩ | ⟨kt, h⟩⟩ := declaration_eq_some.mp h
  · obtain ⟨d, rfl, rd, hd, -⟩ := ih.statement _ _ _ h hn
    exact ⟨.statement d, rfl, rd, hd⟩
  · exact ih.function _ _ _ _ _ ht kt h hn
  · obtain ⟨d, rfl, rd⟩ := varDeclaration_sound ht kt h
    exact ⟨.var d, rfl, rd, trivial⟩

theorem declarations_succ (ih : SoundStatementsAt fuel) {inBlock : Bool} {rs : List Stmt}
    (h : Parse.declarations (fuel + 1) inBlock s = .ok rs s') (hn : NoFatal s') :
    DeclsFound s rs s' := by
  obtain ⟨-, rfl, rfl⟩ | ⟨-, -, first, s₁, hf, others, s₂, ho, rfl, rfl⟩ :=
    declarations_eq_ok.mp h
  · exact ⟨.nil, rfl, .refl _, trivial⟩
  · have hn₁ : NoFatal s₁ :=
      hn.of_ok ((obeysStatements keeps_moves fuel).declarations inBlock) ho
    cases first with
    | none => exact absurd hn₁ (declaration_none hf)
    | some r =>
      obtain ⟨df, rfl, rf, hdf⟩ := ih.declaration _ _ _ hf hn₁
      obtain ⟨d, rfl, rd, hd⟩ := ih.declarations _ _ _ _ ho hn
      exact ⟨.cons df d, rfl, spans_cons rf rd, hdf, hd⟩

theorem block_succ (ih : SoundStatementsAt fuel) {body : List Stmt}
    (h : Parse.block (fuel + 1) s = .ok body s') (hn : NoFatal s') :
    ∃ (s₁ : ParseState) (t : Token), DeclsFound s body s₁ ∧ s₁.Takes t s' ∧
      t.kind = .rightBrace := by
  obtain ⟨ss, s₁, hd, t, s₂, ht, kt, rfl, rfl⟩ := block_eq_ok.mp h
  have hn₁ : NoFatal s₁ := fun b hb => hn b (by rw [ht.reads.problems]; simpa using hb)
  exact ⟨s₁, t, ih.declarations _ _ _ _ hd hn₁, ht, kt⟩

theorem function_succ (ih : SoundStatementsAt fuel) (hk : s.Takes t s₁) (kk : t.kind = .funKw)
    (h : functionDeclaration (fuel + 1) s₁ = .ok r s') (hn : NoFatal s') : DeclFound s r s' := by
  obtain ⟨name, s₂, hname, kn, o, s₃, ho, ko, params, s₄, hp, c, s₅, hc, kc, b, s₆, hb, kb,
    body, s₇, hbody, rfl, rfl⟩ := functionDeclaration_eq_ok.mp h
  obtain ⟨s₈, hblock, rfl⟩ := enterFunction_eq_ok.mp hbody
  obtain ⟨s₉, e, ⟨d, rfl, rd, hd⟩, he, ke⟩ := ih.block _ _ _ hblock hn
  obtain ⟨ps, rfl, rp⟩ : ∃ ps : Option Parameters, parameterNames ps = params ∧
      ParameterSpans ps s₃ s₄ := by
    obtain ⟨-, rfl, rfl⟩ | ⟨-, hp⟩ := hp
    · exact ⟨none, rfl, .refl _⟩
    · obtain ⟨ps, rfl, rp⟩ := parameters_sound hp
      exact ⟨some ps, rfl, rp⟩
  exact ⟨.function ⟨t, kk⟩ ⟨name, kn⟩ ⟨o, ko⟩ ps ⟨c, kc⟩ ⟨b, kb⟩ d ⟨e, ke⟩, rfl,
    spans_function hk hname ho rp hc hb rd he, hd⟩

theorem return_sound (hk : s.Takes t s₁) (kk : t.kind = .returnKw)
    (h : returnStatement fuel t s = .ok r s') : StatementFound s r s' := by
  have hhead := (ParseState.takes_iff.mp hk).1
  obtain ⟨value, s₂, hv, u, s₃, hu, ku, rfl, rfl⟩ := (returnStatement_eq_ok hhead).mp h
  -- The violation is noted before the keyword is read.
  have hk' : (checkedReturn s t).Takes t (checkedReturn s t).advance :=
    ParseState.takes_iff.mpr ⟨hhead, rfl⟩
  obtain ⟨d, rfl, rd⟩ := expressionUnless_sound hv
  exact ⟨.ret ⟨t, kk⟩ d ⟨u, ku⟩, rfl, spans_return hk' rd hu, trivial, nofun⟩

theorem statement_succ (ih : SoundStatementsAt fuel)
    (h : Parse.statement (fuel + 1) s = .ok r s') (hn : NoFatal s') : StatementFound s r s' := by
  obtain ⟨-, h⟩ | ⟨t, s₁, ht, h⟩ := statement_eq_ok.mp h
  · obtain ⟨d, rfl, rd⟩ := expressionStatement_sound h
    exact ⟨.expr d, rfl, rd, trivial, nofun⟩
  · obtain ⟨kt, h⟩ | ⟨kt, h⟩ | ⟨kt, h⟩ | ⟨kt, h⟩ | ⟨kt, h⟩ | ⟨kt, body, s₂, h, rfl, rfl⟩ := h
    · exact ih.forLoop _ _ _ _ _ ht kt h hn
    · exact ih.ifThen _ _ _ _ _ ht kt h hn
    · obtain ⟨e, s₂, he, u, s₃, hu, ku, rfl, rfl⟩ := printStatement_eq_ok.mp h
      obtain ⟨d, rfl, rd⟩ := expression_sound he
      exact ⟨.print ⟨t, kt⟩ d ⟨u, ku⟩, rfl, spans_print ht rd hu, trivial, nofun⟩
    · exact return_sound ht kt h
    · exact ih.whileLoop _ _ _ _ _ ht kt h hn
    · obtain ⟨s₃, e, ⟨d, rfl, rd, hd⟩, he, ke⟩ := ih.block _ _ _ h hn
      exact ⟨.block ⟨t, kt⟩ d ⟨e, ke⟩, rfl, spans_block ht rd he, hd, nofun⟩

theorem forLoop_succ (ih : SoundStatementsAt fuel) (hk : s.Takes t s₁) (kk : t.kind = .forKw)
    (h : forStatement (fuel + 1) s₁ = .ok r s') (hn : NoFatal s') : StatementFound s r s' := by
  obtain ⟨o, s₂, ho, ko, first, s₃, hf, condition, s₄, hc, u, s₅, hu, ku, last, s₆, hl, v, s₇, hv,
    kv, body, s₈, hb, rfl, rfl⟩ := forStatement_eq_ok.mp h
  obtain ⟨df, rfl, rf⟩ := firstClause_sound hf
  obtain ⟨dc, rfl, rc⟩ := expressionUnless_sound hc
  obtain ⟨dl, rfl, rl⟩ := expressionUnless_sound hl
  obtain ⟨db, rfl, rb, hdb, hopen⟩ := ih.statement _ _ _ hb hn
  exact ⟨.forLoop ⟨t, kk⟩ ⟨o, ko⟩ df dc ⟨u, ku⟩ dl ⟨v, kv⟩ db, Statement.tree_forLoop ..,
    spans_for hk ho rf rc hu rl hv rb, hdb, hopen⟩

theorem ifThen_succ (ih : SoundStatementsAt fuel) (hk : s.Takes t s₁) (kk : t.kind = .ifKw)
    (h : ifStatement (fuel + 1) s₁ = .ok r s') (hn : NoFatal s') : StatementFound s r s' := by
  obtain ⟨o, s₂, ho, ko, condition, s₃, hc, u, s₄, hu, ku, whenTrue, s₅, hw, h⟩ :=
    ifStatement_eq_ok.mp h
  obtain ⟨dc, rfl, rc⟩ := expression_sound hc
  obtain ⟨hl, rfl, rfl⟩ | ⟨v, s₆, hv, kv, whenFalse, s₇, hf, rfl, rfl⟩ := h
  · obtain ⟨dw, rfl, rw', hdw, -⟩ := ih.statement _ _ _ hw hn
    exact ⟨.ifThen ⟨t, kk⟩ ⟨o, ko⟩ dc ⟨u, ku⟩ dw, rfl, spans_ifThen hk ho rc hu rw', hdw,
      fun _ => hl⟩
  · have hn₆ : NoFatal s₆ := hn.of_ok (obeysStatements keeps_moves fuel).statement hf
    have hn₅ : NoFatal s₅ := fun b hb => hn₆ b (by rw [hv.reads.problems]; simpa using hb)
    obtain ⟨dw, rfl, rw', hdw, hopen⟩ := ih.statement _ _ _ hw hn₅
    obtain ⟨df, rfl, rf, hdf, hopen'⟩ := ih.statement _ _ _ hf hn
    -- An open statement would have taken the `else` itself.
    have hclosed : dw.open = false := by
      cases ho : dw.open with
      | false => rfl
      | true =>
        have := hopen ho v (ParseState.takes_iff.mp hv).1
        exact absurd kv (of_decide_eq_false this)
    exact ⟨.ifElse ⟨t, kk⟩ ⟨o, ko⟩ dc ⟨u, ku⟩ dw ⟨v, kv⟩ df, rfl,
      spans_ifElse hk ho rc hu rw' hv rf, ⟨hclosed, hdw, hdf⟩, hopen'⟩

theorem whileLoop_succ (ih : SoundStatementsAt fuel) (hk : s.Takes t s₁)
    (kk : t.kind = .whileKw) (h : whileStatement (fuel + 1) s₁ = .ok r s') (hn : NoFatal s') :
    StatementFound s r s' := by
  obtain ⟨o, s₂, ho, ko, condition, s₃, hc, u, s₄, hu, ku, body, s₅, hb, rfl, rfl⟩ :=
    whileStatement_eq_ok.mp h
  obtain ⟨dc, rfl, rc⟩ := expression_sound hc
  obtain ⟨db, rfl, rb, hdb, hopen⟩ := ih.statement _ _ _ hb hn
  exact ⟨.whileLoop ⟨t, kk⟩ ⟨o, ko⟩ dc ⟨u, ku⟩ db, rfl, spans_while hk ho rc hu rb, hdb, hopen⟩

theorem succ (ih : SoundStatementsAt fuel) : SoundStatementsAt (fuel + 1) where
  declaration _ _ _ := ih.declaration_succ
  declarations _ _ _ _ := ih.declarations_succ
  block _ _ _ := ih.block_succ
  function _ _ _ _ _ := ih.function_succ
  statement _ _ _ := ih.statement_succ
  forLoop _ _ _ _ _ := ih.forLoop_succ
  ifThen _ _ _ _ _ := ih.ifThen_succ
  whileLoop _ _ _ _ _ := ih.whileLoop_succ

theorem all : ∀ fuel, SoundStatementsAt fuel
  | 0 => zero
  | fuel + 1 => (all fuel).succ

end SoundStatementsAt

/-- All declarations that are read without a fatal problem have a derivation. -/
theorem declarations_sound {fuel : Nat} {inBlock : Bool} {s s' : ParseState} {rs : List Stmt}
    (h : declarations fuel inBlock s = .ok rs s') (hn : NoFatal s') : DeclsFound s rs s' :=
  (SoundStatementsAt.all fuel).declarations _ _ _ _ h hn

/-- Outside a block, declarations are read up to the end. -/
theorem declarations_rest : ∀ {fuel : Nat} {s s' : ParseState} {rs : List Stmt},
    declarations fuel false s = .ok rs s' → s'.rest = []
  | 0, _, _, _, h => (outOfFuel_ne_ok h).elim
  | fuel + 1, s, s', rs, h => by
    obtain ⟨hr, -, rfl⟩ | ⟨-, -, first, s₁, -, others, s₂, ho, -, rfl⟩ :=
      declarations_eq_ok.mp h
    · exact hr.resolve_right (by simp)
    · exact declarations_rest ho

end Treewalk
