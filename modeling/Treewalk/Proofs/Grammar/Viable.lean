import Treewalk.Proofs.Grammar.Dangling
import Treewalk.Proofs.Grammar.Lookahead
import Treewalk.Proofs.Grammar.Soundness

/-!
# Viable prefixes

Until its first fatal problem, what a reader has read can be continued to a sentence:
whatever construct it is in can be completed. A reader is followed from the words before it
(`Ready`) to its first fatal problem (`Sticks`); for each construct it is shown that the
reader gives up where the words before are viable, if each construct of that sort could
stand where it starts.

Results:

* `SticksAt.all`: readers of expressions give up after viable words.
* `SticksStatementsAt.all`: so do readers of statements.
-/
namespace Treewalk

open Grammar Parse

/-- The tokens can be continued to a sentence. -/
def Viable (ts : List Token) : Prop := ∃ more, Sentence (ts ++ more)

theorem Viable.shorter {ts us : List Token} (h : Viable us) (hshorter : ts <+: us) :
    Viable ts := by
  obtain ⟨more, hmore⟩ := h
  obtain ⟨between, rfl⟩ := hshorter
  exact ⟨between ++ more, by rwa [← List.append_assoc]⟩

/-! ## Some construct of each sort -/

namespace Grammar

instance (k : Kind) : Inhabited (Tok k) := ⟨⟨⟨k, "", none, 1⟩, rfl⟩⟩

theorem exists_phrase (r : Rule) : Nonempty (Phrase r) := by
  have hchain : ∀ l : Level, Nonempty (Phrase l.operand) → Nonempty (Phrase (.chain l)) :=
    fun l ⟨d⟩ => ⟨.chain d .done⟩
  have hfactor := hchain .factor ⟨.unsigned (.call (.name default) .done)⟩
  have hterm := hchain .term hfactor
  have hcomparison := hchain .comparison hterm
  have hequality := hchain .equality hcomparison
  have hconjunction := hchain .conjunction hequality
  obtain ⟨disjunction⟩ := hchain .disjunction hconjunction
  obtain ⟨series⟩ := hchain .series ⟨.simple disjunction⟩
  cases r with
  | assignment e =>
    cases e with
    | full => exact ⟨.plain series⟩
    | argument => exact ⟨.plain (.simple disjunction)⟩
  | chain l =>
    cases l with
    | series => exact ⟨series⟩
    | disjunction => exact ⟨disjunction⟩
    | conjunction => exact hconjunction
    | equality => exact hequality
    | comparison => exact hcomparison
    | term => exact hterm
    | factor => exact hfactor
  | conditional => exact ⟨.simple disjunction⟩
  | unary => exact ⟨.unsigned (.call (.name default) .done)⟩
  | call => exact ⟨.call (.name default) .done⟩
  | primary => exact ⟨.name default⟩

noncomputable instance (r : Rule) : Inhabited (Phrase r) := ⟨Classical.choice (exists_phrase r)⟩

instance (l : Level) : Inhabited (Tail l) := ⟨.done⟩

instance : Inhabited Suffixes := ⟨.done⟩

noncomputable instance : Inhabited Arguments := ⟨.one default⟩

instance : Inhabited Parameters := ⟨.one default⟩

instance : Inhabited VarClause := ⟨⟨default, default, none, default⟩⟩

noncomputable instance : Inhabited ExprClause := ⟨⟨default, default⟩⟩

instance : Inhabited FirstClause := ⟨.absent default⟩

instance : Inhabited Decls := ⟨.nil⟩

instance : Inhabited Statement := ⟨.block default .nil default⟩

instance : Inhabited Decl := ⟨.statement default⟩

end Grammar

/-! ## The first fatal problem -/

def firstFatal? (bs : List Blame) : Option Blame := bs.find? (·.problem.fatal)

theorem firstFatal?_eq_none {bs : List Blame} : firstFatal? bs = none ↔ Mild bs := by
  simp [firstFatal?, Mild]

theorem firstFatal?_eq_some {bs : List Blame} {b : Blame} (h : firstFatal? bs = some b) :
    b ∈ bs ∧ b.problem.fatal = true := by
  unfold firstFatal? at h
  have hfatal := List.find?_some h
  exact ⟨List.mem_of_find?_eq_some h, hfatal⟩

theorem mild_problems {s : ParseState} : Mild s.problems.toList ↔ NoFatal s := by
  simp [Mild, NoFatal]

/-- A further problem does not change which one comes first. -/
theorem firstFatal?_append (bs : List Blame) (b : Blame) :
    firstFatal? (bs ++ [b]) = (firstFatal? bs).or (firstFatal? [b]) := by
  simp [firstFatal?, List.find?_append]

section Sticks

variable {α β D : Type} (ts : List Token)

/-- The problem is one of the token it names, and the tokens before that one are viable. -/
structure Apt (b : Blame) : Prop where
  bound : b.index ≤ ts.length
  token : b.token = ts[b.index]?
  viable : Viable (ts.take b.index)

/-- The state of a reader of `ts` that has read the given words, with a next token as `N`
says, or that has met a fatal problem before, and the first one of these is apt. -/
structure Ready (words : List Token) (N : Option Token → Prop) (s : ParseState) : Prop where
  apt : ∀ b, firstFatal? s.problems.toList = some b → Apt ts b
  rest : NoFatal s → words ++ s.rest = ts
  position : NoFatal s → s.position = words.length
  next : NoFatal s → N s.rest.head?

/-- Nothing is known about the next token. -/
def Anything (_ : Option Token) : Prop := True

/-- After the given words, with a next token as `N` says, the first fatal problem is apt. -/
def Sticks (words : List Token) (N : Option Token → Prop) (x : Parse α) : Prop :=
  ∀ s, Ready ts words N s → ∀ b, firstFatal? (blames (x s)) = some b → Apt ts b

/-- Unless it meets a fatal problem, the reader reads one of the given constructs. -/
def Yields (tokens : D → List Token) (x : Parse α) : Prop :=
  ∀ s a s', x s = .ok a s' → NoFatal s' → ∃ d vs, s.Reads (tokens d) vs s'

variable {ts} {words : List Token} {N N' : Option Token → Prop} {x : Parse α} {f : α → Parse β}

namespace Ready

variable {s : ParseState}

theorem weaken (h : Ready ts words N s) (hN : ∀ t, N t → N' t) : Ready ts words N' s :=
  ⟨h.apt, h.rest, h.position, fun hs => hN _ (h.next hs)⟩

/-- A token that is at hand is the next one. -/
theorem facing (h : Ready ts words N s) {t : Token} (ht : s.rest.head? = some t) :
    Ready ts words (· = some t) s :=
  ⟨h.apt, h.rest, h.position, fun _ => ht⟩

theorem advance (h : Ready ts words N s) {t : Token} (ht : s.rest.head? = some t) :
    Ready ts (words ++ [t]) Anything s.advance := by
  obtain ⟨rest, n, fs, bs⟩ := s
  cases rest with
  | nil => cases ht
  | cons u us =>
    obtain rfl : u = t := Option.some.inj ht
    refine ⟨h.apt, fun hs => ?_, fun hs => ?_, fun _ => trivial⟩
    · rw [List.append_assoc]
      exact h.rest hs
    · rw [List.length_append]
      exact congrArg (· + 1) (h.position hs)

theorem skipped {t : Token} (h : Ready ts words (· = some t) s) :
    Ready ts (words ++ [t]) Anything s.advance := by
  by_cases hs : NoFatal s
  · exact h.advance (h.next hs)
  · -- Nothing has to be known about a state with a fatal problem.
    have hproblems : s.advance.problems = s.problems := by
      unfold ParseState.advance
      split <;> rfl
    have hs' : ¬ NoFatal s.advance := by
      unfold NoFatal
      rwa [hproblems]
    exact ⟨by rw [hproblems]; exact h.apt, fun hn => absurd hn hs', fun hn => absurd hn hs',
      fun _ => trivial⟩

theorem record (h : Ready ts words N s) {b : Blame} (hb : b.problem.fatal = false) :
    Ready ts words N (s.record b) := by
  have hmild : NoFatal (s.record b) → NoFatal s := fun hs c hc => hs c (Array.mem_push_of_mem b hc)
  refine ⟨fun c hc => h.apt c ?_, fun hs => h.rest (hmild hs), fun hs => h.position (hmild hs),
    fun hs => h.next (hmild hs)⟩
  rw [ParseState.record, Array.toList_push, firstFatal?_append] at hc
  simpa [firstFatal?, hb] using hc

/-- Giving up after viable words is apt. -/
theorem fatal (h : Ready ts words N s) (hv : Viable words) (p : Problem) {b : Blame}
    (hb : firstFatal? (s.problems.toList ++ [s.blame p]) = some b) : Apt ts b := by
  rw [firstFatal?_append] at hb
  cases hfirst : firstFatal? s.problems.toList with
  | some c =>
    rw [hfirst, Option.some_or, Option.some.injEq] at hb
    exact hb ▸ h.apt c hfirst
  | none =>
    have hs : NoFatal s := mild_problems.mp (firstFatal?_eq_none.mp hfirst)
    rw [hfirst, Option.none_or] at hb
    obtain rfl : b = s.blame p := List.mem_singleton.mp (firstFatal?_eq_some hb).1
    have hrest := h.rest hs
    have hposition := h.position hs
    subst hrest
    refine ⟨?_, ?_, ?_⟩
    · simp [ParseState.blame, hposition]
    · simp [ParseState.blame, hposition, List.getElem?_append_right, List.head?_eq_getElem?]
    · simpa [ParseState.blame, hposition] using hv

/-- After a construct has been read, its tokens are among the words before. -/
theorem after {tokens : D → List Token} [Inhabited D] (hy : Yields tokens x)
    (hx : Sticks ts words N x) (h : Ready ts words N s) {a : α} {s' : ParseState}
    (hs : x s = .ok a s') : ∃ d, Ready ts (words ++ tokens d) Anything s' := by
  have hapt : ∀ b, firstFatal? s'.problems.toList = some b → Apt ts b := by
    intro b hb
    refine hx s h b ?_
    rw [hs]
    exact hb
  by_cases hmild : NoFatal s'
  · obtain ⟨d, vs, hreads⟩ := hy s a s' hs hmild
    have hbefore : NoFatal s := by
      intro b hb
      refine hmild b ?_
      rw [hreads.problems]
      exact Array.mem_append_left _ hb
    refine ⟨d, hapt, fun _ => ?_, fun _ => ?_, fun _ => trivial⟩
    · rw [List.append_assoc, ← hreads.rest]
      exact h.rest hbefore
    · rw [hreads.position, h.position hbefore, List.length_append]
  · exact ⟨default, hapt, fun hn => absurd hn hmild, fun hn => absurd hn hmild, fun _ => trivial⟩

end Ready

/-! ## Steps -/

namespace Sticks

theorem weaken (h : Sticks ts words N x) (hN : ∀ t, N' t → N t) : Sticks ts words N' x :=
  fun s hs => h s (hs.weaken hN)

theorem pure (a : α) : Sticks ts words N (Pure.pure a : Parse α) := fun _ hs => hs.apt

theorem outOfFuel : Sticks ts words N (Parse.outOfFuel : Parse α) := fun _ hs => hs.apt

theorem fail {p : Problem} (hv : Viable words) : Sticks ts words N (Parse.fail p : Parse α) :=
  fun _ hs _ hb => hs.fatal hv p hb

theorem bind {tokens : D → List Token} [Inhabited D] (hx : Sticks ts words N x)
    (hy : Yields tokens x) (hf : ∀ a d, Sticks ts (words ++ tokens d) Anything (f a)) :
    Sticks ts words N (x >>= f) := by
  intro s hs b hb
  cases hr : x s with
  | ok a s₁ =>
    rw [bind_of_ok hr] at hb
    obtain ⟨d, hd⟩ := hs.after hy hx hr
    exact hf a d s₁ hd b hb
  | error halt s₁ =>
    rw [bind_of_error hr] at hb
    refine hx s hs b ?_
    rw [hr, ← hb]
    cases halt <;> rfl

/-- What is done with the result makes no difference. -/
theorem map (hx : Sticks ts words N x) (g : α → β) :
    Sticks ts words N (x >>= fun a => Pure.pure (g a)) := by
  intro s hs b hb
  refine hx s hs b ?_
  cases hr : x s with
  | ok a s₁ =>
    rw [bind_of_ok hr] at hb
    exact hb
  | error halt s₁ =>
    rw [bind_of_error hr] at hb
    cases halt <;> exact hb

theorem peek {f : Option Token → Parse β} (hnone : Sticks ts words N (f none))
    (hsome : ∀ t, Sticks ts words (· = some t) (f (some t))) :
    Sticks ts words N (peek? >>= f) := by
  intro s hs b hb
  rw [bind_of_ok (show peek? s = .ok s.rest.head? s from rfl)] at hb
  cases hhead : s.rest.head? with
  | none =>
    rw [hhead] at hb
    exact hnone s hs b hb
  | some t =>
    rw [hhead] at hb
    exact hsome t s (hs.facing hhead) b hb

theorem check {k : Kind} {f : Bool → Parse β} (hfalse : Sticks ts words N (f false))
    (htrue : ∀ t : Tok k, Sticks ts words (· = some t.1) (f true)) :
    Sticks ts words N (Parse.check k >>= f) := by
  intro s hs b hb
  rw [bind_of_ok (show Parse.check k s = .ok (s.rest.head?.any (·.kind = k)) s from rfl)] at hb
  cases hcheck : s.rest.head?.any (·.kind = k) with
  | false =>
    rw [hcheck] at hb
    exact hfalse s hs b hb
  | true =>
    rw [hcheck] at hb
    obtain ⟨t, ht, hk⟩ : ∃ t, s.rest.head? = some t ∧ decide (t.kind = k) = true := by
      simpa [Option.any_eq_true] using hcheck
    exact htrue ⟨t, of_decide_eq_true hk⟩ s (hs.facing ht) b hb

theorem skip {t : Token} {f : Unit → Parse β} (hf : Sticks ts (words ++ [t]) Anything (f ())) :
    Sticks ts words (· = some t) (Parse.skip >>= f) :=
  fun _ hs b hb => hf _ hs.skipped b hb

theorem accept {p : Kind → Bool} {f : Option Token → Parse β}
    (hnone : Sticks ts words N (f none))
    (hsome : ∀ t : TokIn p, Sticks ts (words ++ [t.1]) Anything (f (some t.1))) :
    Sticks ts words N (accept? p >>= f) := by
  intro s hs b hb
  cases hrest : s.rest with
  | nil =>
    rw [bind_of_ok (show accept? p s = .ok none s by simp only [accept?_apply, hrest])] at hb
    exact hnone s hs b hb
  | cons t us =>
    by_cases hp : p t.kind = true
    · rw [bind_of_ok (show accept? p s = .ok (some t) s.advance by
        simp only [accept?_apply, hrest, hp, if_true])] at hb
      exact hsome ⟨t, hp⟩ _ (hs.advance (by rw [hrest]; rfl)) b hb
    · rw [bind_of_ok (show accept? p s = .ok none s by
        simp only [accept?_apply, hrest, hp, if_false, Bool.false_eq_true])] at hb
      exact hnone s hs b hb

theorem acceptKind {k : Kind} {f : Option Token → Parse β} (hnone : Sticks ts words N (f none))
    (hsome : ∀ t : Tok k, Sticks ts (words ++ [t.1]) Anything (f (some t.1))) :
    Sticks ts words N (accept? (· = k) >>= f) :=
  .accept hnone fun t => hsome ⟨t.1, of_decide_eq_true t.2⟩

theorem expect {what : Missing} {f : Token → Parse β} (hv : Viable words)
    (hf : ∀ t : Tok what.kind, Sticks ts (words ++ [t.1]) Anything (f t.1)) :
    Sticks ts words N (Parse.expect what >>= f) := by
  intro s hs b hb
  have hgiveUp : Parse.expect what s = .error (.fatal (s.blame (.missing what))) s →
      Apt ts b := by
    intro h
    rw [bind_of_error h] at hb
    exact hs.fatal hv _ hb
  cases hrest : s.rest with
  | nil => exact hgiveUp (by simp only [expect_apply, hrest])
  | cons t us =>
    by_cases hk : t.kind = what.kind
    · rw [bind_of_ok (show Parse.expect what s = .ok t s.advance by
        simp only [expect_apply, hrest, hk, if_true])] at hb
      exact hf ⟨t, hk⟩ _ (hs.advance (by rw [hrest]; rfl)) b hb
    · exact hgiveUp (by simp only [expect_apply, hrest, hk, if_false])

theorem inFunction {f : Bool → Parse β} (hf : ∀ c, Sticks ts words N (f c)) :
    Sticks ts words N (Parse.inFunction >>= f) :=
  fun s hs b hb => hf _ s hs b hb

theorem blame {p : Problem} {f : Blame → Parse β}
    (hf : ∀ b, b.problem = p → Sticks ts words N (f b)) :
    Sticks ts words N (Parse.blame p >>= f) :=
  fun s hs b hb => hf (s.blame p) rfl s hs b hb

theorem record {c : Blame} {f : Unit → Parse β} (hc : c.problem.fatal = false)
    (hf : Sticks ts words N (f ())) : Sticks ts words N (Parse.record c >>= f) :=
  fun _ hs b hb => hf _ (hs.record hc) b hb

theorem reportIf {c : Bool} {p : Problem} {f : Unit → Parse β} (hp : p.fatal = false)
    (hf : Sticks ts words N (f ())) : Sticks ts words N (Parse.reportIf c p >>= f) := by
  intro s hs b hb
  cases c with
  | false => exact hf s hs b hb
  | true => exact hf _ (hs.record hp) b hb

theorem enterFunction (hx : Sticks ts words N x) :
    Sticks ts words N (Parse.enterFunction x) := by
  intro s hs b hb
  rw [(enterFunction_leaves x s).2] at hb
  exact hx { s with functions := s.functions + 1 } ⟨hs.apt, hs.rest, hs.position, hs.next⟩ b hb

theorem recovering (hx : Sticks ts words N x) : Sticks ts words N (Parse.recovering x) := by
  intro s hs b hb
  rw [(recovering_moves x s).2] at hb
  exact hx s hs b hb

end Sticks

end Sticks

/-! ## Expressions -/

section Readers

variable {α β D : Type} {ts : List Token}

/-- Wherever each of the given constructs can stand, the reader's first fatal problem is
apt. -/
def Derives (ts : List Token) (tokens : D → List Token) (x : Parse α) : Prop :=
  ∀ words, (∀ d, Viable (words ++ tokens d)) → Sticks ts words Anything x

/-- A construct and a token that has to come after it. -/
theorem Derives.expect {tokens : D → List Token} [Inhabited D] {x : Parse α}
    (hx : Derives ts tokens x) (hy : Yields tokens x) {what : Missing} {f : α → Token → Parse β}
    {words : List Token} (hwords : ∀ d, Viable (words ++ tokens d))
    (hf : ∀ a d (t : Tok what.kind), Sticks ts (words ++ tokens d ++ [t.1]) Anything (f a t.1)) :
    Sticks ts words Anything (x >>= fun a => Parse.expect what >>= f a) :=
  (hx words hwords).bind hy fun a d => .expect (hwords d) (hf a d)

/-- With this much fuel, all readers of expressions give up after viable words. -/
structure SticksAt (ts : List Token) (fuel : Nat) : Prop where
  read : ∀ r, Derives ts (Phrase.tokens (r := r)) (r.read fuel)
  operand : ∀ l, Derives ts (Phrase.tokens (r := l.operand)) (Parse.operand fuel l)
  tail : ∀ l left, Derives ts (Tail.tokens (l := l)) (chainTail fuel l left)
  suffixes : ∀ callee, Derives ts Suffixes.tokens (callTail fuel callee)
  arguments : ∀ count, Derives ts Arguments.tokens (Parse.arguments fuel count)

theorem yields_read (r : Rule) (fuel : Nat) : Yields (Phrase.tokens (r := r)) (r.read fuel) := by
  intro s a s' h _
  obtain ⟨d, -, hd⟩ := (SoundAt.all fuel).read r s a s' h
  exact ⟨d, _, hd⟩

theorem yields_operand (l : Level) (fuel : Nat) :
    Yields (Phrase.tokens (r := l.operand)) (operand fuel l) := by
  intro s a s' h _
  obtain ⟨d, -, hd⟩ := (SoundAt.all fuel).operand l s a s' h
  exact ⟨d, _, hd⟩

theorem yields_arguments (fuel count : Nat) :
    Yields Arguments.tokens (arguments fuel count) := by
  intro s a s' h _
  obtain ⟨d, -, hd⟩ := (SoundAt.all fuel).arguments count s a s' h
  exact ⟨d, _, hd⟩

namespace SticksAt

variable {fuel : Nat}

theorem zero : SticksAt ts 0 where
  read r := by
    cases r with
    | call =>
      exact fun _ _ => Sticks.bind .outOfFuel (yields_read .primary 0) fun _ _ => .outOfFuel
    | _ => exact fun _ _ => .outOfFuel
  operand _ _ _ := .outOfFuel
  tail _ _ _ _ := .outOfFuel
  suffixes _ _ _ := .outOfFuel
  arguments _ _ _ := .outOfFuel

theorem assignment_succ (ih : SticksAt ts fuel) (e : Extent) :
    Derives ts (Phrase.tokens (r := .assignment e)) (Parse.assignment (fuel + 1) e) := by
  intro words hwords
  rw [Treewalk.assignment_succ]
  refine (ih.read e.target words fun d => hwords (.plain d)).bind (yields_read _ _)
    fun target d => ?_
  refine .check (.pure _) fun t => .blame fun b hb => .skip ?_
  refine (ih.read (.assignment e) _ fun value => ?_).bind (yields_read _ _) fun value _ => ?_
  · exact (hwords (.assign d t value)).shorter (by simp [Phrase.tokens])
  · split
    · exact .pure _
    · exact .record (by rw [hb]; rfl) (.pure _)

theorem chain_succ (ih : SticksAt ts fuel) (l : Level) :
    Derives ts (Phrase.tokens (r := .chain l)) (Parse.chain (fuel + 1) l) := by
  intro words hwords
  refine (ih.operand l words fun d => ?_).bind (yields_operand _ _) fun left d => ?_
  · exact (hwords (.chain d .done)).shorter (by simp [Phrase.tokens])
  · refine ih.tail l left _ fun tail => ?_
    exact (hwords (.chain d tail)).shorter (by simp [Phrase.tokens])

theorem tail_succ (ih : SticksAt ts fuel) (l : Level) (left : Expr) :
    Derives ts (Tail.tokens (l := l)) (chainTail (fuel + 1) l left) := by
  intro words hwords
  refine .accept (.pure _) fun t => ?_
  refine (ih.operand l _ fun d => ?_).bind (yields_operand _ _) fun right d => ?_
  · exact (hwords (.more t d .done)).shorter (by simp [Tail.tokens])
  · refine ih.tail l _ _ fun tail => ?_
    exact (hwords (.more t d tail)).shorter (by simp [Tail.tokens])

theorem conditional_succ (ih : SticksAt ts fuel) :
    Derives ts (Phrase.tokens (r := .conditional)) (Parse.conditional (fuel + 1)) := by
  intro words hwords
  refine (ih.read (.chain .disjunction) words fun d => hwords (.simple d)).bind (yields_read _ _)
    fun condition c => .acceptKind (.pure _) fun t => ?_
  refine (ih.read (.assignment .full)).expect (yields_read _ _) (fun w => ?_)
    fun whenTrue w colon => (ih.read .conditional _ fun f => ?_).map _
  · exact (hwords (.ternary c t w default default)).shorter (by simp [Phrase.tokens])
  · exact (hwords (.ternary c t w colon f)).shorter (by simp [Phrase.tokens])

theorem unary_succ (ih : SticksAt ts fuel) :
    Derives ts (Phrase.tokens (r := .unary)) (Parse.unary (fuel + 1)) := by
  intro words hwords
  refine .accept (ih.read .call words fun d => hwords (.unsigned d)) fun t =>
    (ih.read .unary _ fun d => ?_).map _
  exact (hwords (.signed t d)).shorter (by simp [Phrase.tokens])

theorem suffixes_succ (ih : SticksAt ts fuel) (callee : Expr) :
    Derives ts Suffixes.tokens (callTail (fuel + 1) callee) := by
  intro words hwords
  refine .acceptKind (.pure _) fun t => .check ?_ fun closing => ?_
  · refine (ih.arguments 0).expect (yields_arguments _ _) (fun args => ?_)
      fun _ args closing => ih.suffixes _ _ fun rest => ?_
    · exact (hwords (.applied t args default .done)).shorter (by simp [Suffixes.tokens])
    · exact (hwords (.applied t args closing rest)).shorter (by simp [Suffixes.tokens])
  · refine .expect ?_ fun closing => ih.suffixes _ _ fun rest => ?_
    · exact (hwords (.empty t closing .done)).shorter (by simp [Suffixes.tokens])
    · exact (hwords (.empty t closing rest)).shorter (by simp [Suffixes.tokens])

theorem arguments_succ (ih : SticksAt ts fuel) (count : Nat) :
    Derives ts Arguments.tokens (Parse.arguments (fuel + 1) count) := by
  intro words hwords
  refine .reportIf rfl ((ih.read (.assignment .argument) words fun d => hwords (.one d)).bind
    (yields_read _ _) fun first d => .acceptKind (.pure _) fun t =>
      (ih.arguments _ _ fun rest => ?_).map _)
  exact (hwords (.more d t rest)).shorter (by simp [Arguments.tokens])

theorem primary_succ (ih : SticksAt ts fuel) :
    Derives ts (Phrase.tokens (r := .primary)) (Parse.primary (fuel + 1)) := by
  intro words hwords
  have hviable : Viable words := (hwords default).shorter (by simp)
  refine .peek (.fail hviable) fun t => ?_
  dsimp only
  split
  · rename_i hk
    refine .skip ((ih.read (.assignment .full)).expect (yields_read _ _) (fun d => ?_)
      fun _ _ _ => .pure _)
    exact (hwords (.group ⟨t, hk⟩ d default)).shorter (by simp [Phrase.tokens])
  · split
    · exact .fail hviable
    · exact .skip (.pure _)

theorem succ (ih : SticksAt ts fuel) : SticksAt ts (fuel + 1) where
  read r := by
    cases r with
    | assignment e => exact ih.assignment_succ e
    | chain l => exact ih.chain_succ l
    | conditional => exact ih.conditional_succ
    | unary => exact ih.unary_succ
    | call =>
      intro words hwords
      refine (ih.primary_succ words fun d => ?_).bind (yields_read .primary (fuel + 1))
        fun callee d => ih.suffixes_succ callee _ fun rest => ?_
      · exact (hwords (.call d .done)).shorter (by simp [Phrase.tokens])
      · exact (hwords (.call d rest)).shorter (by simp [Phrase.tokens])
    | primary => exact ih.primary_succ
  operand l := by
    rw [read_operand]
    exact ih.read _
  tail := ih.tail_succ
  suffixes := ih.suffixes_succ
  arguments := ih.arguments_succ

theorem all : ∀ fuel, SticksAt ts fuel
  | 0 => zero
  | fuel + 1 => (all fuel).succ

end SticksAt

/-! ## Clauses -/

section Clauses

variable (fuel : Nat)

theorem sticks_expression : Derives ts (Phrase.tokens (r := .assignment .full)) (expression fuel) :=
  (SticksAt.all fuel).read (.assignment .full)

theorem yields_expression : Yields (Phrase.tokens (r := .assignment .full)) (expression fuel) :=
  yields_read (.assignment .full) fuel

theorem sticks_parameters : ∀ fuel count,
    Derives ts Parameters.tokens (parameters fuel count)
  | 0, _ => fun _ _ => .outOfFuel
  | fuel + 1, count => by
    intro words hwords
    refine .reportIf rfl (.expect ?_ fun name => .acceptKind (.pure _) fun t =>
      (sticks_parameters fuel _ _ fun rest => ?_).map _)
    · exact (hwords default).shorter (by simp)
    · exact (hwords (.more name t rest)).shorter (by simp [Parameters.tokens])

theorem yields_parameters (count : Nat) : Yields Parameters.tokens (parameters fuel count) := by
  intro s a s' h _
  obtain ⟨d, -, hd⟩ := parameters_sound h
  exact ⟨d, _, hd⟩

theorem sticks_expressionUnless (k : Kind) : Derives ts optional (expressionUnless fuel k) := by
  intro words hwords
  exact .check ((sticks_expression fuel words fun d => hwords (some d)).map _) fun _ => .pure _

theorem yields_expressionUnless (k : Kind) : Yields optional (expressionUnless fuel k) := by
  intro s a s' h _
  obtain ⟨d, -, hd⟩ := expressionUnless_sound h
  exact ⟨d, _, hd⟩

theorem sticks_expressionStatement : Derives ts ExprClause.tokens (expressionStatement fuel) := by
  intro words hwords
  refine (sticks_expression fuel).expect (yields_expression fuel) (fun d => ?_)
    fun _ _ _ => .pure _
  exact (hwords ⟨d, default⟩).shorter (by simp [ExprClause.tokens])

/-- What follows `var`. -/
theorem sticks_varDeclaration {words : List Token} (t : Tok .varKw)
    (hwords : ∀ d : VarClause, Viable (words ++ d.tokens)) :
    Sticks ts (words ++ [t.1]) Anything (varDeclaration fuel) := by
  refine .expect ?_ fun name => .acceptKind ?_ fun equals => ?_
  · exact (hwords ⟨t, default, none, default⟩).shorter (by simp [VarClause.tokens])
  · refine .expect ?_ fun _ => .pure _
    exact (hwords ⟨t, name, none, default⟩).shorter (by simp [VarClause.tokens])
  · refine (sticks_expression fuel).expect (yields_expression fuel) (fun d => ?_)
      fun _ _ _ => .pure _
    exact (hwords ⟨t, name, some (equals, d), default⟩).shorter
      (by simp [VarClause.tokens, initialTokens])

theorem sticks_firstClause : Derives ts FirstClause.tokens (firstClause fuel) := by
  intro words hwords
  refine .accept ((sticks_expressionStatement fuel words fun d => hwords (.expr d)).map _)
    fun t => ?_
  dsimp only
  split
  · exact .pure _
  · rename_i hk
    have hvar : t.1.kind = .varKw := by simpa [hk] using t.2
    exact (sticks_varDeclaration fuel ⟨t.1, hvar⟩ fun d => hwords (.var d)).map _

theorem yields_firstClause : Yields FirstClause.tokens (firstClause fuel) := by
  intro s a s' h _
  obtain ⟨d, -, hd⟩ := firstClause_sound h
  exact ⟨d, _, hd⟩

end Clauses

/-! ## Statements -/

/-- With this much fuel, all readers of statements give up after viable words. What follows a
keyword is read after the keyword. -/
structure SticksStatementsAt (ts : List Token) (fuel : Nat) : Prop where
  declaration : Derives ts Decl.tokens (Parse.declaration fuel)
  declarations : ∀ inBlock, Derives ts Decls.tokens (Parse.declarations fuel inBlock)
  block : ∀ words, (∀ d : Decls, Viable (words ++ d.tokens)) →
    Sticks ts words Anything (Parse.block fuel)
  function : ∀ words (t : Tok .funKw), (∀ d : Decl, Viable (words ++ d.tokens)) →
    Sticks ts (words ++ [t.1]) Anything (functionDeclaration fuel)
  statement : Derives ts Statement.tokens (Parse.statement fuel)
  forLoop : ∀ words (t : Tok .forKw), (∀ d : Statement, Viable (words ++ d.tokens)) →
    Sticks ts (words ++ [t.1]) Anything (forStatement fuel)
  ifThen : ∀ words (t : Tok .ifKw), (∀ d : Statement, Viable (words ++ d.tokens)) →
    Sticks ts (words ++ [t.1]) Anything (ifStatement fuel)
  whileLoop : ∀ words (t : Tok .whileKw), (∀ d : Statement, Viable (words ++ d.tokens)) →
    Sticks ts (words ++ [t.1]) Anything (whileStatement fuel)

theorem yields_statement (fuel : Nat) : Yields Statement.tokens (statement fuel) := by
  intro s a s' h hs'
  obtain ⟨d, -, hd, -⟩ := (SoundStatementsAt.all fuel).statement s a s' h hs'
  exact ⟨d, _, hd⟩

theorem yields_declaration (fuel : Nat) : Yields Decl.tokens (declaration fuel) := by
  intro s a s' h hs'
  cases a with
  | none => exact absurd hs' (declaration_none h)
  | some r =>
    obtain ⟨d, -, hd, -⟩ := (SoundStatementsAt.all fuel).declaration s r s' h hs'
    exact ⟨d, _, hd⟩

theorem yields_declarations (fuel : Nat) (inBlock : Bool) :
    Yields Decls.tokens (declarations fuel inBlock) := by
  intro s a s' h hs'
  obtain ⟨d, -, hd, -⟩ := declarations_sound h hs'
  exact ⟨d, _, hd⟩

namespace SticksStatementsAt

variable {fuel : Nat} {words : List Token}

theorem zero : SticksStatementsAt ts 0 where
  declaration _ _ := .outOfFuel
  declarations _ _ _ := .outOfFuel
  block _ _ := .outOfFuel
  function _ _ _ := .outOfFuel
  statement _ _ := .outOfFuel
  forLoop _ _ _ := .outOfFuel
  ifThen _ _ _ := .outOfFuel
  whileLoop _ _ _ := .outOfFuel

theorem declaration_succ (ih : SticksStatementsAt ts fuel) :
    Derives ts Decl.tokens (Parse.declaration (fuel + 1)) := by
  intro words hwords
  refine .recovering (.accept (ih.statement words fun d => hwords (.statement d)) fun t => ?_)
  dsimp only
  split
  · rename_i hk
    exact ih.function words ⟨t.1, hk⟩ hwords
  · rename_i hk
    have hvar : t.1.kind = .varKw := by simpa [hk] using t.2
    exact sticks_varDeclaration fuel ⟨t.1, hvar⟩ fun d => hwords (.var d)

theorem declarations_succ (ih : SticksStatementsAt ts fuel) (inBlock : Bool) :
    Derives ts Decls.tokens (Parse.declarations (fuel + 1) inBlock) := by
  intro words hwords
  refine .peek (.pure _) fun t => ?_
  dsimp only
  split
  · exact .pure _
  · refine ((ih.declaration words fun d => ?_).weaken fun _ _ => trivial).bind
      (yields_declaration fuel) fun _ d => (ih.declarations inBlock _ fun others => ?_).map _
    · exact (hwords (.cons d .nil)).shorter (by simp [Decls.tokens])
    · exact (hwords (.cons d others)).shorter (by simp [Decls.tokens])

theorem block_succ (ih : SticksStatementsAt ts fuel)
    (hwords : ∀ d : Decls, Viable (words ++ d.tokens)) :
    Sticks ts words Anything (Parse.block (fuel + 1)) :=
  (ih.declarations true).expect (yields_declarations fuel true) hwords fun _ _ _ => .pure _

/-- The parameters' closing parenthesis and the body. -/
theorem body_succ (ih : SticksStatementsAt ts fuel) {t : Tok .funKw}
    (hwords : ∀ d : Decl, Viable (words ++ d.tokens)) (name : Tok .identifier)
    (opening : Tok .leftParen) (params : Option Parameters) (names : List Token) :
    Sticks ts (words ++ [t.1] ++ [name.1] ++ [opening.1] ++ parameterTokens params) Anything (do
      let _ ← Parse.expect .parenAfterParameters
      let _ ← Parse.expect .braceBeforeBody
      let body ← Parse.enterFunction (Parse.block fuel)
      return .function name.1 names body : Parse Stmt) := by
  refine .expect ?_ fun closing => .expect ?_ fun before =>
    (Sticks.enterFunction (ih.block _ fun d => ?_)).map _
  · exact (hwords (.function t name opening params default default .nil default)).shorter
      (by simp [Decl.tokens])
  · exact (hwords (.function t name opening params closing default .nil default)).shorter
      (by simp [Decl.tokens])
  · exact (hwords (.function t name opening params closing before d default)).shorter
      (by simp [Decl.tokens])

theorem function_succ (ih : SticksStatementsAt ts fuel) (t : Tok .funKw)
    (hwords : ∀ d : Decl, Viable (words ++ d.tokens)) :
    Sticks ts (words ++ [t.1]) Anything (functionDeclaration (fuel + 1)) := by
  refine .expect ?_ fun name => .expect ?_ fun opening => .check ?_ fun _ => ?_
  · exact (hwords (.function t default default none default default .nil default)).shorter
      (by simp [Decl.tokens])
  · exact (hwords (.function t name default none default default .nil default)).shorter
      (by simp [Decl.tokens])
  · refine (sticks_parameters fuel 0 _ fun ps => ?_).bind (yields_parameters fuel 0)
      fun names ps => ih.body_succ hwords name opening (some ps) names
    exact (hwords (.function t name opening (some ps) default default .nil default)).shorter
      (by simp [Decl.tokens, parameterTokens])
  · have hbody := ih.body_succ (t := t) hwords name opening none []
    rw [show parameterTokens none = [] from rfl, List.append_nil] at hbody
    exact hbody.weaken fun _ _ => trivial

theorem forLoop_succ (ih : SticksStatementsAt ts fuel) (t : Tok .forKw)
    (hwords : ∀ d : Statement, Viable (words ++ d.tokens)) :
    Sticks ts (words ++ [t.1]) Anything (forStatement (fuel + 1)) := by
  refine .expect ?_ fun opening => (sticks_firstClause fuel _ fun first => ?_).bind
    (yields_firstClause fuel) fun _ first =>
    (sticks_expressionUnless fuel _).expect (yields_expressionUnless fuel _) (fun condition => ?_)
    fun _ condition semicolon =>
    (sticks_expressionUnless fuel _).expect (yields_expressionUnless fuel _) (fun last => ?_)
    fun _ last closing => (ih.statement _ fun body => ?_).map _
  · exact (hwords (.forLoop t default default none default none default default)).shorter
      (by simp [Statement.tokens])
  · exact (hwords (.forLoop t opening first none default none default default)).shorter
      (by simp [Statement.tokens])
  · exact (hwords (.forLoop t opening first condition default none default default)).shorter
      (by simp [Statement.tokens])
  · exact (hwords (.forLoop t opening first condition semicolon last default default)).shorter
      (by simp [Statement.tokens])
  · exact (hwords (.forLoop t opening first condition semicolon last closing body)).shorter
      (by simp [Statement.tokens])

theorem ifThen_succ (ih : SticksStatementsAt ts fuel) (t : Tok .ifKw)
    (hwords : ∀ d : Statement, Viable (words ++ d.tokens)) :
    Sticks ts (words ++ [t.1]) Anything (ifStatement (fuel + 1)) := by
  refine .expect ?_ fun opening =>
    (sticks_expression fuel).expect (yields_expression fuel) (fun c => ?_) fun _ c closing =>
    (ih.statement _ fun whenTrue => ?_).bind (yields_statement fuel) fun _ whenTrue =>
    .acceptKind (.pure _) fun otherwise => (ih.statement _ fun whenFalse => ?_).map _
  · exact (hwords (.ifThen t default default default default)).shorter
      (by simp [Statement.tokens])
  · exact (hwords (.ifThen t opening c default default)).shorter (by simp [Statement.tokens])
  · exact (hwords (.ifThen t opening c closing whenTrue)).shorter (by simp [Statement.tokens])
  · exact (hwords (.ifElse t opening c closing whenTrue otherwise whenFalse)).shorter
      (by simp [Statement.tokens])

theorem whileLoop_succ (ih : SticksStatementsAt ts fuel) (t : Tok .whileKw)
    (hwords : ∀ d : Statement, Viable (words ++ d.tokens)) :
    Sticks ts (words ++ [t.1]) Anything (whileStatement (fuel + 1)) := by
  refine .expect ?_ fun opening =>
    (sticks_expression fuel).expect (yields_expression fuel) (fun c => ?_) fun _ c closing =>
    (ih.statement _ fun body => ?_).map _
  · exact (hwords (.whileLoop t default default default default)).shorter
      (by simp [Statement.tokens])
  · exact (hwords (.whileLoop t opening c default default)).shorter (by simp [Statement.tokens])
  · exact (hwords (.whileLoop t opening c closing body)).shorter (by simp [Statement.tokens])

theorem statement_succ (ih : SticksStatementsAt ts fuel) :
    Derives ts Statement.tokens (Parse.statement (fuel + 1)) := by
  intro words hwords
  have hexpr : Sticks ts words Anything (expressionStatement fuel) :=
    sticks_expressionStatement fuel words fun d => hwords (.expr d)
  refine .peek hexpr fun t => ?_
  dsimp only
  split
  · rename_i hk
    exact .skip (ih.forLoop words ⟨t, hk⟩ hwords)
  · rename_i hk
    exact .skip (ih.ifThen words ⟨t, hk⟩ hwords)
  · rename_i hk
    refine .skip ((sticks_expression fuel).expect (yields_expression fuel) (fun d => ?_)
      fun _ _ _ => .pure _)
    exact (hwords (.print ⟨t, hk⟩ d default)).shorter (by simp [Statement.tokens])
  · rename_i hk
    refine .inFunction fun _ => .reportIf rfl (.skip
      ((sticks_expressionUnless fuel _).expect (yields_expressionUnless fuel _) (fun d => ?_)
        fun _ _ _ => .pure _))
    exact (hwords (.ret ⟨t, hk⟩ d default)).shorter (by simp [Statement.tokens])
  · rename_i hk
    exact .skip (ih.whileLoop words ⟨t, hk⟩ hwords)
  · rename_i hk
    refine .skip ((ih.block _ fun d => ?_).map _)
    exact (hwords (.block ⟨t, hk⟩ d default)).shorter (by simp [Statement.tokens])
  · exact hexpr.weaken fun _ _ => trivial

theorem succ (ih : SticksStatementsAt ts fuel) : SticksStatementsAt ts (fuel + 1) where
  declaration := ih.declaration_succ
  declarations := ih.declarations_succ
  block _ := ih.block_succ
  function _ := ih.function_succ
  statement := ih.statement_succ
  forLoop _ := ih.forLoop_succ
  ifThen _ := ih.ifThen_succ
  whileLoop _ := ih.whileLoop_succ

theorem all : ∀ fuel, SticksStatementsAt ts fuel
  | 0 => zero
  | fuel + 1 => (all fuel).succ

end SticksStatementsAt

end Readers

end Treewalk
