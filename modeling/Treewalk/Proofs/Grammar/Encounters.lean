import Treewalk.Proofs.Grammar.Discipline

/-!
# Coming to a `return`

Reading enters and leaves function bodies, skips malformed statements and begins to read
`return`s. `Encounters.declaration` and so on list the `return`s that begin while
`Parse.declaration` and so on read, first one first, each with the functions whose bodies are
being read at that moment. These are told by where a reader is called, not by the number that
the state keeps.

Results:

* `Accounts`: what a state has recorded of the `return`s that reading has come to, kept by every
  move.
* `ComesTo`: a reader accounts for the listed `return`s, with a rule for each way to compose
  readers.
* `plain_comesToNone`: readers of expressions and clauses come to no `return`.
-/
namespace Treewalk

open Grammar Parse

/-! ## The `return`s of a tree -/

/-- Where a `return` stands. -/
structure ReturnPlace where
  keyword : Token
  /-- The names of the functions around it, the outermost first. -/
  around : List Token

/-- The place, seen from outside of a function. -/
def ReturnPlace.within (p : ReturnPlace) (name : Token) : ReturnPlace :=
  { p with around := name :: p.around }

mutual

/-- The `return`s in a statement, function bodies included. -/
def Stmt.returns : Stmt → List ReturnPlace
  | .ret keyword _ => [⟨keyword, []⟩]
  | .block body => Stmt.returnsAll body
  | .ifThen _ whenTrue => whenTrue.returns
  | .ifElse _ whenTrue whenFalse => whenTrue.returns ++ whenFalse.returns
  | .whileLoop _ body => body.returns
  | .function name _ body => (Stmt.returnsAll body).map (·.within name)
  | .expr _ | .print _ | .var _ _ => []

def Stmt.returnsAll : List Stmt → List ReturnPlace
  | [] => []
  | s :: ss => s.returns ++ Stmt.returnsAll ss

end

theorem Stmt.returnsAll_append (ss ts : List Stmt) :
    Stmt.returnsAll (ss ++ ts) = Stmt.returnsAll ss ++ Stmt.returnsAll ts := by
  induction ss with
  | nil => rfl
  | cons s ss ih => rw [List.cons_append, Stmt.returnsAll, ih, Stmt.returnsAll, List.append_assoc]

/-- A `for` loop has the `return`s of its first clause and of its body. -/
theorem Stmt.returns_forLoop (first : Option Stmt) (condition last : Option Expr) (body : Stmt) :
    (Stmt.forLoop first condition last body).returns =
      Stmt.returnsAll first.toList ++ body.returns := by
  cases first <;> cases last <;> simp [Stmt.forLoop, Stmt.returns, Stmt.returnsAll]

/-! ## The `return`s of a reading -/

/-- A `return` as it begins to be read, with the functions whose bodies are being read. -/
structure Encounter extends ReturnPlace where
  state : ParseState

/-- The same `return`, seen from outside of a function. -/
def Encounter.within (z : Encounter) (name : Token) : Encounter :=
  { z with around := name :: z.around }

/-- The `return`s that begin during a reading that starts in the given state. -/
abbrev Encounters := ParseState → List Encounter

namespace Encounters

variable {α : Type}

def empty : Encounters := fun _ => []

/-- A `return` that begins at once. -/
def one (keyword : Token) : Encounters := fun s => [⟨⟨keyword, []⟩, s⟩]

/-- What comes after `x` if that succeeds. -/
def following (x : Parse α) (u : α → Encounters) : Encounters := fun s =>
  match x s with
  | .ok a s' => u a s'
  | .error _ _ => []

/-- The `return`s `t` of `x` and those of what comes after it. -/
def next (t : Encounters) (x : Parse α) (u : α → Encounters) : Encounters := fun s =>
  t s ++ following x u s

/-- The `return`s in the body of a function. -/
def inBody (name : Token) (t : Encounters) : Encounters := fun s =>
  (t { s with functions := s.functions + 1 }).map (·.within name)

theorem next_empty (t : Encounters) (x : Parse α) : t.next x (fun _ => empty) = t := by
  funext s
  unfold next following
  cases x s <;> exact List.append_nil _

mutual

def declaration : Nat → Encounters
  | 0 => empty
  | fuel + 1 => following (accept? fun k => k = .funKw || k = .varKw) fun
    | none => statement fuel
    | some t => if t.kind = .funKw then functionDeclaration fuel else empty

def declarations : Nat → Bool → Encounters
  | 0, _ => empty
  | fuel + 1, inBlock => following peek? fun
    | none => empty
    | some t =>
      if inBlock && t.kind = .rightBrace then empty
      else (declaration fuel).next (Parse.declaration fuel) fun _ => declarations fuel inBlock

def block : Nat → Encounters
  | 0 => empty
  | fuel + 1 => declarations fuel true

def functionDeclaration : Nat → Encounters
  | 0 => empty
  | fuel + 1 =>
    following (expect .functionName) fun name =>
    following (expect .parenAfterFunctionName) fun _ =>
    following (check .rightParen) fun closed =>
    following (if closed then pure [] else parameters fuel 0) fun _ =>
    following (expect .parenAfterParameters) fun _ =>
    following (expect .braceBeforeBody) fun _ => inBody name (block fuel)

def statement : Nat → Encounters
  | 0 => empty
  | fuel + 1 => following peek? fun
    | none => empty
    | some t =>
      match t.kind with
      | .forKw => following skip fun _ => forStatement fuel
      | .ifKw => following skip fun _ => ifStatement fuel
      | .returnKw => one t
      | .whileKw => following skip fun _ => whileStatement fuel
      | .leftBrace => following skip fun _ => block fuel
      | _ => empty

def forStatement : Nat → Encounters
  | 0 => empty
  | fuel + 1 =>
    following (expect .parenAfterFor) fun _ =>
    following (firstClause fuel) fun _ =>
    following (expressionUnless fuel .semicolon) fun _ =>
    following (expect .semicolonAfterLoopCondition) fun _ =>
    following (expressionUnless fuel .rightParen) fun _ =>
    following (expect .parenAfterClauses) fun _ => statement fuel

def ifStatement : Nat → Encounters
  | 0 => empty
  | fuel + 1 =>
    following (expect .parenAfterIf) fun _ =>
    following (expression fuel) fun _ =>
    following (expect .parenAfterIfCondition) fun _ =>
    (statement fuel).next (Parse.statement fuel) fun _ =>
    following (accept? (· = .elseKw)) fun
      | none => empty
      | some _ => statement fuel

def whileStatement : Nat → Encounters
  | 0 => empty
  | fuel + 1 =>
    following (expect .parenAfterWhile) fun _ =>
    following (expression fuel) fun _ =>
    following (expect .parenAfterCondition) fun _ => statement fuel

end

end Encounters

/-! ## What is reported -/

/-- The problem of a `return` that is outside of all functions. -/
def Encounter.blame (z : Encounter) : Blame := ⟨.topLevelReturn, z.state.position, some z.keyword⟩

/-- The recorded problems of `return`s. -/
def ParseState.topLevelReturns (s : ParseState) : List Blame :=
  s.problems.toList.filter (·.problem = .topLevelReturn)

theorem ParseState.topLevelReturns_advance (s : ParseState) :
    s.advance.topLevelReturns = s.topLevelReturns := by
  unfold ParseState.advance
  split <;> rfl

/-- The `return` begins between the two states, where the state counts the function bodies that
were being read at the start and those of the functions around it. -/
structure Encounter.Between (z : Encounter) (s s' : ParseState) : Prop where
  before : Forward s z.state
  after : Forward z.state s'
  taken : z.state.position < s'.position
  token : z.state.rest.head? = some z.keyword
  kind : z.keyword.kind = .returnKw
  functions : z.state.functions = s.functions + z.around.length

/-- Reading has come to these `return`s, one after the other, and has reported those that began
outside of all function bodies. -/
structure Accounts (zs : List Encounter) (s s' : ParseState) : Prop extends Disciplined s s' where
  between : ∀ z ∈ zs, z.Between s s'
  ordered : zs.Pairwise fun z z' => z.state.position < z'.state.position
  reported : s'.topLevelReturns =
    s.topLevelReturns ++ (zs.filter (·.state.functions = 0)).map Encounter.blame

section States

variable {s s' s'' : ParseState} {z : Encounter} {zs zs' : List Encounter}

theorem Encounter.Between.later (h : z.Between s s') (h' : Forward s' s'') : z.Between s s'' where
  before := h.before
  after := h.after.trans h'
  taken := Nat.lt_of_lt_of_le h.taken h'.position_le
  token := h.token
  kind := h.kind
  functions := h.functions

theorem Encounter.Between.earlier (h : Disciplined s s') (h' : z.Between s' s'') :
    z.Between s s'' where
  before := h.toForward.trans h'.before
  after := h'.after
  taken := h'.taken
  token := h'.token
  kind := h'.kind
  functions := by rw [h'.functions, h.functions]

/-- In the body of a function the state counts one more. -/
theorem Encounter.Between.leave {name : Token}
    (h : z.Between { s with functions := s.functions + 1 } s') (n : Nat) :
    (z.within name).Between s { s' with functions := n } where
  before := ⟨h.before.cursor, h.before.problems⟩
  after := ⟨h.after.cursor, h.after.problems⟩
  taken := h.taken
  token := h.token
  kind := h.kind
  functions := by
    have hfunctions : z.state.functions = s.functions + 1 + z.around.length := h.functions
    show z.state.functions = s.functions + (z.around.length + 1)
    omega

namespace Accounts

theorem quiet (h : Disciplined s s') (hsame : s'.topLevelReturns = s.topLevelReturns) :
    Accounts [] s s' where
  toDisciplined := h
  between := List.forall_mem_nil _
  ordered := .nil
  reported := by rw [hsame]; exact (List.append_nil _).symm

theorem refl (s : ParseState) : Accounts [] s s := quiet (disciplined_moves.refl s) rfl

theorem advance (s : ParseState) : Accounts [] s s.advance :=
  quiet (disciplined_moves.advance s) s.topLevelReturns_advance

theorem record (s : ParseState) {b : Blame} (hb : b.problem ≠ .topLevelReturn) :
    Accounts [] s (s.record b) := by
  refine quiet (disciplined_moves.record s b) ?_
  simp [ParseState.topLevelReturns, ParseState.record, hb]

theorem append (h : Accounts zs s s') (h' : Accounts zs' s' s'') :
    Accounts (zs ++ zs') s s'' where
  toDisciplined := disciplined_moves.trans h.toDisciplined h'.toDisciplined
  between := List.forall_mem_append.mpr
    ⟨fun z hz => (h.between z hz).later h'.toForward,
      fun z hz => (h'.between z hz).earlier h.toDisciplined⟩
  ordered := by
    refine List.pairwise_append.mpr ⟨h.ordered, h'.ordered, fun z hz z' hz' => ?_⟩
    exact Nat.lt_of_lt_of_le (h.between z hz).taken (h'.between z' hz').before.position_le
  reported := by
    rw [h'.reported, h.reported, List.filter_append, List.map_append, List.append_assoc]

theorem leave {name : Token} (h : Accounts zs { s with functions := s.functions + 1 } s') :
    Accounts (zs.map (·.within name)) s { s' with functions := s'.functions - 1 } where
  toDisciplined := disciplined_moves.function s s' h.toDisciplined
  between := List.forall_mem_map.mpr fun z hz => (h.between z hz).leave _
  ordered := List.pairwise_map.mpr h.ordered
  reported := by
    rw [List.filter_map, List.map_map]
    exact h.reported

/-- A `return` is checked and its keyword is taken. -/
theorem one {keyword : Token} (hhead : s.rest.head? = some keyword)
    (hkind : keyword.kind = .returnKw) :
    Accounts (Encounters.one keyword s) s
      (s.noted (returnViolations s.functions s.position keyword)).advance := by
  have hnoted : Disciplined s (s.noted (returnViolations s.functions s.position keyword)) :=
    ⟨⟨⟨[], rfl, rfl⟩, by simp [ParseState.noted]⟩, rfl⟩
  have hstart := disciplined_moves.trans hnoted (disciplined_moves.advance _)
  have htakes := (ParseState.takes_iff.mpr
    ⟨show (s.noted (returnViolations s.functions s.position keyword)).rest.head? = _ from hhead,
      rfl⟩).reads
  refine ⟨hstart, ?_, List.pairwise_singleton _ _, ?_⟩
  · intro z hz
    obtain rfl := List.mem_singleton.mp hz
    refine ⟨.refl s, hstart.toForward, ?_, hhead, hkind, rfl⟩
    rw [htakes.position]
    exact Nat.lt_succ_self _
  · rw [ParseState.topLevelReturns_advance]
    by_cases hz : s.functions = 0 <;>
      simp [ParseState.topLevelReturns, ParseState.noted, returnViolations, Encounters.one,
        Encounter.blame, hz]

/-- What is given up and skipped is no report of a `return`. -/
theorem resumed (h : Accounts zs s s') {b : Blame} (hb : b.problem.fatal = true) :
    Accounts zs s (s'.record b).resynced := by
  have hrecord : Accounts [] s' (s'.record b) := record s' fun hreturn => by
    rw [hreturn] at hb
    cases hb
  have hskip : Accounts [] (s'.record b) (s'.record b).resynced :=
    quiet (disciplined_moves.resynced _) rfl
  simpa using h.append (hrecord.append hskip)

end Accounts

end States

/-! ## Readers -/

section Readers

variable {α β : Type} {post : α → List ReturnPlace → Prop} {post' : β → List ReturnPlace → Prop}
  {x : Parse α} {f : α → Parse β} {t : Encounters} {u : α → Encounters} {s : ParseState}

/-- The reading has come to these `return`s, and something holds of its result and of where they
stand. -/
def Told (post : α → List ReturnPlace → Prop) (s : ParseState) (zs : List Encounter) :
    EStateM.Result Halt ParseState α → Prop
  | .ok a s' => Accounts zs s s' ∧ post a (zs.map (·.toReturnPlace))
  | .error h s' => Accounts zs s s' ∧ GivesUp h s'

/-- What has been read before counts as well. -/
theorem Accounts.told {s₁ : ParseState} {zs others : List Encounter}
    {r : EStateM.Result Halt ParseState α} (h : Accounts zs s s₁)
    (hr : Told (fun a places => post a (zs.map (·.toReturnPlace) ++ places)) s₁ others r) :
    Told post s (zs ++ others) r := by
  cases r with
  | ok a s₂ =>
    refine ⟨h.append hr.1, ?_⟩
    rw [List.map_append]
    exact hr.2
  | error e s₂ => exact ⟨h.append hr.1, hr.2⟩

/-- So it does, wherever it starts. -/
def ComesTo (x : Parse α) (t : Encounters) (post : α → List ReturnPlace → Prop) : Prop :=
  ∀ s, Told post s (t s) (x s)

/-- The reader comes to no `return`. -/
def ComesToNone (x : Parse α) : Prop := ComesTo x .empty fun _ places => places = []

theorem comesTo_pure {a : α} (h : post a []) : ComesTo (pure a) .empty post :=
  fun s => ⟨.refl s, h⟩

theorem comesTo_outOfFuel : ComesTo (Parse.outOfFuel : Parse α) .empty post :=
  fun s => ⟨.refl s, keeps_moves.outOfFuel s⟩

theorem comesTo_next (hx : ComesTo x t post)
    (hf : ∀ a places, post a places →
      ComesTo (f a) (u a) fun b others => post' b (places ++ others)) :
    ComesTo (x >>= f) (t.next x u) post' := by
  intro s
  have h := hx s
  unfold Encounters.next Encounters.following
  cases hs : x s with
  | ok a s₁ =>
    rw [hs] at h
    obtain ⟨haccounts, hpost⟩ := h
    rw [bind_of_ok hs]
    exact haccounts.told (hf a _ hpost s₁)
  | error e s₁ =>
    rw [hs] at h
    rw [bind_of_error hs, List.append_nil]
    exact h

/-- No `return` begins after `x`. -/
theorem comesTo_last (hx : ComesTo x t post)
    (hf : ∀ a places, post a places →
      ComesTo (f a) .empty fun b others => post' b (places ++ others)) :
    ComesTo (x >>= f) t post' := by
  rw [← Encounters.next_empty t x]
  exact comesTo_next hx hf

/-- What is known of the result counts as well. -/
theorem ComesTo.imp_of_ok {post' : α → List ReturnPlace → Prop} (hx : ComesTo x t post)
    (h : ∀ s a s' places, x s = .ok a s' → post a places → post' a places) :
    ComesTo x t post' := by
  intro s
  have hs := hx s
  cases hr : x s with
  | ok a s' =>
    rw [hr] at hs
    exact ⟨hs.1, h s a s' _ hr hs.2⟩
  | error e s' =>
    rw [hr] at hs
    exact hs

theorem ComesTo.imp {post' : α → List ReturnPlace → Prop} (hx : ComesTo x t post)
    (h : ∀ a places, post a places → post' a places) : ComesTo x t post' :=
  hx.imp_of_ok fun _ a _ places _ => h a places

theorem comesTo_none (hx : ComesToNone x) (h : ∀ s a s', x s = .ok a s' → post a []) :
    ComesTo x .empty post := by
  refine hx.imp_of_ok fun s a s' places hr hnone => ?_
  rw [hnone]
  exact h s a s' hr

/-- Only the result is put together after `x`. -/
theorem comesTo_finish {f : α → β} (hx : ComesTo x t fun a places => post' (f a) places) :
    ComesTo (do return f (← x)) t post' := by
  refine comesTo_last hx fun a places h => comesTo_pure ?_
  rw [List.append_nil]
  exact h

/-- No `return` begins in `x`, and something is known of its result. -/
theorem comesTo_following_of {P : α → Prop} (hx : ComesToNone x)
    (hP : ∀ s a s', x s = .ok a s' → P a) (hf : ∀ a, P a → ComesTo (f a) (u a) post') :
    ComesTo (x >>= f) (.following x u) post' := by
  have hnone : ComesTo x .empty fun a places => places = [] ∧ P a :=
    comesTo_none hx fun s a s' h => ⟨rfl, hP s a s' h⟩
  refine comesTo_next hnone fun a places h => ?_
  rw [h.1]
  exact hf a h.2

/-- No `return` begins in `x`. -/
theorem comesTo_following (hx : ComesToNone x) (hf : ∀ a, ComesTo (f a) (u a) post') :
    ComesTo (x >>= f) (.following x u) post' :=
  comesTo_following_of hx (fun _ _ _ _ => trivial) fun a _ => hf a

/-- No `return` begins at all. -/
theorem comesTo_then (hx : ComesToNone x) (hf : ∀ a, ComesTo (f a) .empty post') :
    ComesTo (x >>= f) .empty post' := by
  refine comesTo_last hx fun a places hnone => ?_
  rw [hnone]
  exact hf a

theorem comesTo_peek {f : Option Token → Parse β} {u : Option Token → Encounters}
    (h : ∀ s, Told post' s (u s.rest.head? s) (f s.rest.head? s)) :
    ComesTo (peek? >>= f) (.following peek? u) post' := h

theorem comesTo_enterFunction (name : Token)
    (hx : ComesTo x t fun a places => post a (places.map (·.within name))) :
    ComesTo (enterFunction x) (t.inBody name) post := by
  intro s
  have h := hx { s with functions := s.functions + 1 }
  unfold Encounters.inBody
  cases hs : x { s with functions := s.functions + 1 } with
  | ok a s₁ =>
    rw [hs] at h
    rw [enterFunction_of_ok hs]
    obtain ⟨haccounts, hpost⟩ := h
    refine ⟨haccounts.leave, ?_⟩
    simp only [List.map_map] at hpost ⊢
    exact hpost
  | error e s₁ =>
    rw [hs] at h
    rw [enterFunction_of_error hs]
    exact ⟨h.1.leave, h.2⟩

theorem comesTo_recovering {post' : Option α → List ReturnPlace → Prop} (hx : ComesTo x t post)
    (hsome : ∀ a places, post a places → post' (some a) places)
    (hnone : ∀ places, post' none places) : ComesTo (recovering x) t post' := by
  intro s
  have h := hx s
  cases hs : x s with
  | ok a s₁ =>
    rw [hs] at h
    rw [recovering_eq_some.mpr hs]
    exact ⟨h.1, hsome a _ h.2⟩
  | error e s₁ =>
    rw [hs] at h
    cases e with
    | outOfFuel =>
      rw [recovering_of_outOfFuel hs]
      exact h
    | fatal b =>
      rw [recovering_eq_none.mpr ⟨b, s₁, hs, rfl⟩]
      exact ⟨h.1.resumed (h.2 b rfl).1, hnone _⟩

theorem comesToNone_accept (p : Kind → Bool) : ComesToNone (accept? p) := by
  intro s
  rw [accept?_apply]
  split
  · exact ⟨.refl s, rfl⟩
  · split
    · exact ⟨.advance s, rfl⟩
    · exact ⟨.refl s, rfl⟩

theorem comesToNone_expect (what : Missing) : ComesToNone (expect what) := by
  intro s
  rw [expect_apply]
  split
  · exact ⟨.refl s, keeps_moves.fatal s _ rfl⟩
  · split
    · exact ⟨.advance s, rfl⟩
    · exact ⟨.refl s, keeps_moves.fatal s _ rfl⟩

theorem comesToNone_reportIf (c : Bool) {p : Problem} (hp : p ≠ .topLevelReturn) :
    ComesToNone (reportIf c p) := by
  intro s
  cases c with
  | false => exact ⟨.refl s, rfl⟩
  | true => exact ⟨.record s hp, rfl⟩

/-- Expressions and clauses come to no `return`. -/
theorem plain_comesToNone : Plain (Single ComesToNone) where
  pure _ := comesTo_pure rfl
  bind := comesTo_then
  outOfFuel := comesTo_outOfFuel
  fail hp s := ⟨.refl s, keeps_moves.fatal s _ hp⟩
  peek s := ⟨.refl s, rfl⟩
  check _ s := ⟨.refl s, rfl⟩
  skip s := ⟨.advance s, rfl⟩
  accept := comesToNone_accept
  expect := comesToNone_expect
  reportIf c _ _ hp := comesToNone_reportIf c hp
  blame hf s := hf _ rfl s
  record hb s := ⟨.record s (by rw [hb]; nofun), rfl⟩

end Readers

end Treewalk
