import Treewalk.Proofs.Loops.Simulation
import Treewalk.Proofs.Store.Sharing

/-!
# Who adds names to a scope

Functions that are called declare their locals, blocks and loops open scopes over and over,
and all of this can happen inside a single expression. None of it adds a name to a scope that
was there before: what a run declares on the way lands in scopes that it has opened itself.
Only a declaration adds a name, its own, to the scope that code runs in.

`Stmt.exposed` are the names that a statement may add to the scope it runs in; the branches of
an `if` and the body of a loop run in the same scope. No such part of a parsed program is a
declaration, so nothing but a declaration itself exposes a name there.

Results:

* `AddsAt.all`: expressions add no names, statements only those that they expose.
* `exposed_of_regular`: the statements of parsed programs expose what they declare themselves.
* `only_declarations_add_names`: the names of all scopes after any run.
-/
namespace Treewalk

open Scoping

/-! ## Names stay bound -/

/-- The scope binds the name. -/
def Store.Binds (s : Store) (id : ScopeId) (name : String) : Prop :=
  (s.bound? id name).isSome = true

namespace Store

variable {s : Store} {id d outer : ScopeId} {name other : String} {value : Value}

/-- A definition binds its own name in its own scope, if that exists, and leaves all other
names as they are. -/
theorem binds_define : (s.define id name value).Binds d other ↔
    s.Binds d other ∨ (d = id ∧ other = name) ∧ id < s.scopes.size := by
  unfold Binds
  by_cases hid : id < s.scopes.size
  · rw [bound?_define _ _ _ _ _ _ hid]
    by_cases hsame : d = id ∧ other = name
    · simp [hsame, hid]
    · simp [hsame]
  · by_cases hd : d = id
    · subst hd
      simp [bound?, Store.define, hid]
    · simp [bound?, Store.define, Array.getElem?_modify, hid, Ne.symm hd]

theorem binds_enclose : (s.enclose outer).2.Binds d other ↔ s.Binds d other := by
  unfold Binds
  rw [bound?_enclose]

/-- Definitions in one scope add names to no other one. -/
theorem binds_defineAll_of_ne (bs : List (String × Value)) (hd : d ≠ id)
    (h : (s.defineAll id bs).Binds d other) : s.Binds d other := by
  induction bs generalizing s with
  | nil => exact h
  | cons b bs ih =>
    rcases binds_define.mp (ih h) with hold | ⟨⟨rfl, -⟩, -⟩
    · exact hold
    · exact absurd rfl hd

end Store

/-- What the first machine binds, the second one binds. -/
def NamesKept (m m' : Machine) : Prop :=
  ∀ id name, m.store.Binds id name → m'.store.Binds id name

theorem namesKept_moves : MachineMoves NamesKept where
  refl _ _ _ h := h
  trans h h' id name hb := h' id name (h id name hb)
  print _ _ _ _ h := h
  define _ _ _ _ _ _ h := Store.binds_define.mpr (.inl h)
  create _ _ _ h := h
  clock _ _ _ h := h
  enclose _ _ _ _ h := Store.binds_enclose.mpr h
  inScope _ _ _ h := h
  activate _ _ h := h

/-! ## Names that are added -/

/-- Of the scopes that were there, only the one that code runs in has got new names, and only
such as `N` says. -/
structure Added (N : String → Prop) (m m' : Machine) : Prop where
  grown : Grown m m'
  only : ∀ id < m.store.scopes.size, ∀ name, m'.store.Binds id name →
    m.store.Binds id name ∨ id = m.scope ∧ N name

/-- However the computation ends, it has added no other names. -/
def Adds {α : Type} (N : String → Prop) (x : Eval α) : Prop := ∀ m, Added N m (after (x m))

/-- No name at all. -/
def noName (_ : String) : Prop := False

section Rules

variable {α β : Type} {N N' : String → Prop} {m m₁ m₂ : Machine}

theorem Added.refl (m : Machine) : Added N m m := ⟨.refl m, fun _ _ _ h => .inl h⟩

theorem Added.trans (h : Added N m m₁) (h' : Added N m₁ m₂) : Added N m m₂ := by
  refine ⟨h.grown.trans h'.grown, fun id hid name hb => ?_⟩
  rcases h'.only id (Nat.lt_of_lt_of_le hid h.grown.size) name hb with hb | ⟨hscope, hname⟩
  · exact h.only id hid name hb
  · exact .inr ⟨hscope.trans h.grown.scope, hname⟩

theorem Adds.mono {x : Eval α} (h : Adds N x) (hN : ∀ name, N name → N' name) : Adds N' x := by
  intro m
  refine ⟨(h m).grown, fun id hid name hb => ?_⟩
  rcases (h m).only id hid name hb with hb | ⟨hscope, hname⟩
  · exact .inl hb
  · exact .inr ⟨hscope, hN name hname⟩

theorem adds_bind {x : Eval α} {k : α → Eval β} (hx : Adds N x) (hk : ∀ a, Adds N (k a)) :
    Adds N (x >>= k) := by
  intro m
  have h := hx m
  cases hm : x m with
  | ok a m₁ =>
    rw [hm] at h
    rw [bind_of_ok hm]
    exact h.trans (hk a m₁)
  | error e m₁ =>
    rw [hm] at h
    rw [bind_of_error hm]
    exact h

/-- A computation that leaves the store and the scope alone adds no name. -/
theorem adds_still {x : Eval α}
    (hx : ∀ m, (after (x m)).store = m.store ∧ (after (x m)).scope = m.scope) : Adds N x := by
  intro m
  obtain ⟨hstore, hscope⟩ := hx m
  refine ⟨⟨by rw [hstore], fun _ _ => by rw [hstore], hscope⟩, fun id _ name hb => ?_⟩
  rw [hstore] at hb
  exact .inl hb

theorem adds_pure (a : α) : Adds N (pure a) := adds_still fun _ => ⟨rfl, rfl⟩

theorem adds_outOfFuel : Adds N (Eval.outOfFuel : Eval α) := adds_still fun _ => ⟨rfl, rfl⟩

theorem adds_fault (t : Token) (f : Fault) : Adds N (Eval.fault t f : Eval α) :=
  adds_still fun _ => ⟨rfl, rfl⟩

theorem adds_ofExcept (r : Except Stop α) : Adds N (Eval.ofExcept r) := by
  cases r <;> exact adds_still fun _ => ⟨rfl, rfl⟩

theorem adds_get (t : Token) : Adds N (Eval.get t) := by
  apply adds_still
  intro m
  unfold Eval.get
  split <;> exact ⟨rfl, rfl⟩

/-- An assignment goes to a scope that binds the name already. -/
theorem adds_assign (t : Token) (v : Value) : Adds N (Eval.assign t v) := by
  intro m
  unfold Eval.assign
  cases ho : m.store.owner? m.scope t.lexeme with
  | none => exact .refl m
  | some owner =>
    refine ⟨grown_moves.define m owner t.lexeme v, fun id _ name hb => ?_⟩
    rcases Store.binds_define.mp hb with hb | ⟨⟨rfl, rfl⟩, -⟩
    · exact .inl hb
    · obtain ⟨w, hw⟩ := Store.bound_of_owner ho
      exact .inl (by simp [Store.Binds, hw])

theorem adds_define (name : String) (v : Value) (hname : N name) :
    Adds N (Eval.define name v) := by
  intro m
  refine ⟨grown_moves.define m m.scope name v, fun id _ other hb => ?_⟩
  rcases Store.binds_define.mp hb with hb | ⟨⟨rfl, rfl⟩, -⟩
  · exact .inl hb
  · exact .inr ⟨rfl, hname⟩

theorem adds_activate (limit : Option Nat) (paren : Token) {x : Eval α} (hx : Adds N x) :
    Adds N (Eval.activate limit paren x) := by
  intro m
  obtain h | h := activate_cases limit paren x m
  · rw [h]
    exact .refl m
  · have hbody := hx m.enter
    rw [h, after_leaving]
    exact ⟨⟨hbody.grown.size, hbody.grown.chain, hbody.grown.scope⟩, hbody.only⟩

/-- What a body declares lands in the new scope that it runs in. -/
theorem adds_body (outer : ScopeId) (bs : List (String × Value)) {x : Eval α} (hx : Adds N x) :
    Adds N' (Eval.enclose outer bs >>= fun id => Eval.inScope id x) := by
  intro m
  have h := hx (m.within outer bs)
  rw [enclose_inScope, after_leaving]
  have hsize : m.store.scopes.size ≤ (m.within outer bs).store.scopes.size := by simp
  refine ⟨h.grown.leave, fun id hid name hb => ?_⟩
  have hne : id ≠ m.store.scopes.size := Nat.ne_of_lt hid
  rcases h.only id (Nat.lt_of_lt_of_le hid hsize) name hb with hb | ⟨hscope, -⟩
  · exact .inl (Store.binds_enclose.mp (Store.binds_defineAll_of_ne bs hne hb))
  · exact absurd hscope hne

end Rules

/-! ## Names that a statement exposes -/

/-- A statement may add the name to the scope that it runs in. -/
def Stmt.Exposes : Stmt → String → Prop
  | .var x _, name | .function x _ _, name => name = x.lexeme
  | .ifThen _ whenTrue, name => whenTrue.Exposes name
  | .ifElse _ whenTrue whenFalse, name => whenTrue.Exposes name ∨ whenFalse.Exposes name
  | .whileLoop _ body, name => body.Exposes name
  | _, _ => False

/-- With this much fuel, code adds only names that it exposes. -/
structure AddsAt (cfg : Setting) (fuel : Nat) : Prop where
  evaluate : ∀ e, Adds noName (evaluate cfg fuel e)
  evaluateAll : ∀ es, Adds noName (evaluateAll cfg fuel es)
  call : ∀ c paren args, Adds noName (call cfg fuel c paren args)
  execute : ∀ s, Adds s.Exposes (execute cfg fuel s)
  executeAll : ∀ ss, Adds (fun name => ∃ s ∈ ss, s.Exposes name) (executeAll cfg fuel ss)

namespace AddsAt

variable {cfg : Setting} {fuel : Nat}

theorem zero : AddsAt cfg 0 where
  evaluate _ := adds_outOfFuel
  evaluateAll _ := adds_outOfFuel
  call _ _ _ := adds_outOfFuel
  execute _ := adds_outOfFuel
  executeAll _ := adds_outOfFuel

theorem evaluate_succ (ih : AddsAt cfg fuel) (e : Expr) :
    Adds noName (Treewalk.evaluate cfg (fuel + 1) e) := by
  cases e with
  | literal l => exact adds_pure _
  | grouping inner => exact ih.evaluate inner
  | unary op right => exact adds_bind (ih.evaluate right) fun _ => adds_ofExcept _
  | binary left op right =>
    exact adds_bind (ih.evaluate left) fun _ => adds_bind (ih.evaluate right) fun _ =>
      adds_ofExcept _
  | logical left op right =>
    refine adds_bind (ih.evaluate left) fun v => ?_
    split
    · exact adds_pure _
    · exact ih.evaluate right
  | ternary op c t e =>
    refine adds_bind (ih.evaluate c) fun v => ?_
    split
    · exact adds_bind (ih.evaluate t) fun _ => adds_bind (ih.evaluate e) fun _ => adds_pure _
    · split
      · exact ih.evaluate t
      · exact ih.evaluate e
  | name t => exact adds_get t
  | assign t value =>
    exact adds_bind (ih.evaluate value) fun v => adds_bind (adds_assign t v) fun _ => adds_pure _
  | call callee paren args =>
    refine adds_bind (ih.evaluate callee) fun v => adds_bind (ih.evaluateAll args) fun vs => ?_
    cases v with
    | callable id c => exact ih.call c paren vs
    | _ => exact adds_fault _ _

theorem evaluateAll_succ (ih : AddsAt cfg fuel) (es : List Expr) :
    Adds noName (Treewalk.evaluateAll cfg (fuel + 1) es) := by
  cases es with
  | nil => exact adds_pure _
  | cons e es =>
    exact adds_bind (ih.evaluate e) fun _ => adds_bind (ih.evaluateAll es) fun _ => adds_pure _

theorem call_succ (ih : AddsAt cfg fuel) (c : Callable) (paren : Token) (args : List Value) :
    Adds noName (Treewalk.call cfg (fuel + 1) c paren args) := by
  unfold Treewalk.call
  split
  · exact adds_fault _ _
  · apply adds_activate
    cases c with
    | clock => exact adds_still fun _ => ⟨rfl, rfl⟩
    | function d closure =>
      simp only [← bind_assoc]
      refine adds_bind (adds_body closure _ (ih.executeAll d.body)) fun r => ?_
      cases r <;> exact adds_pure _

theorem execute_succ (ih : AddsAt cfg fuel) (s : Stmt) :
    Adds s.Exposes (Treewalk.execute cfg (fuel + 1) s) := by
  have hexpr : ∀ e, Adds s.Exposes (Treewalk.evaluate cfg fuel e) := fun e =>
    (ih.evaluate e).mono fun _ h => h.elim
  cases s with
  | expr e => exact adds_bind (hexpr e) fun _ => adds_pure _
  | print e =>
    refine adds_bind (hexpr e) fun v => adds_bind ?_ fun _ => adds_pure _
    exact adds_still fun _ => ⟨rfl, rfl⟩
  | var name initial =>
    cases initial with
    | none => exact adds_bind (adds_define _ _ rfl) fun _ => adds_pure _
    | some e =>
      exact adds_bind (hexpr e) fun v => adds_bind (adds_define _ v rfl) fun _ => adds_pure _
  | block body =>
    exact adds_bind (adds_still fun _ => ⟨rfl, rfl⟩) fun outer =>
      adds_body outer [] (ih.executeAll body)
  | ifThen c t =>
    refine adds_bind (hexpr c) fun v => ?_
    split
    · exact ih.execute t
    · exact adds_pure _
  | ifElse c t e =>
    refine adds_bind (hexpr c) fun v => ?_
    split
    · exact (ih.execute t).mono fun _ => .inl
    · exact (ih.execute e).mono fun _ => .inr
  | whileLoop c body =>
    refine adds_bind (hexpr c) fun v => ?_
    split
    · refine adds_bind (ih.execute body) fun r => ?_
      cases r with
      | returned v => exact adds_pure _
      | normal => exact ih.execute (.whileLoop c body)
    · exact adds_pure _
  | function name params body =>
    refine adds_bind ?_ fun f => adds_bind (adds_define _ f rfl) fun _ => adds_pure _
    exact adds_still fun _ => ⟨rfl, rfl⟩
  | ret keyword value =>
    cases value with
    | none => exact adds_pure _
    | some e => exact adds_bind (hexpr e) fun _ => adds_pure _

theorem executeAll_succ (ih : AddsAt cfg fuel) (ss : List Stmt) :
    Adds (fun name => ∃ s ∈ ss, s.Exposes name) (Treewalk.executeAll cfg (fuel + 1) ss) := by
  cases ss with
  | nil => exact adds_pure _
  | cons s ss =>
    refine adds_bind ((ih.execute s).mono fun _ h => ⟨s, .head _, h⟩) fun r => ?_
    cases r with
    | returned v => exact adds_pure _
    | normal => exact (ih.executeAll ss).mono fun _ ⟨t, ht, h⟩ => ⟨t, .tail _ ht, h⟩

theorem all : ∀ fuel, AddsAt cfg fuel
  | 0 => zero
  | fuel + 1 =>
    let ih := all fuel
    ⟨ih.evaluate_succ, ih.evaluateAll_succ, ih.call_succ, ih.execute_succ, ih.executeAll_succ⟩

end AddsAt

/-! ## Parsed programs -/

/-- The branches and loop bodies of a parsed program are no declarations. -/
theorem not_exposes_of_regular {s : Stmt} {inFunction : Bool} (h : s.Regular inFunction)
    (hs : s.isDeclaration = false) (name : String) : ¬ s.Exposes name := by
  fun_induction Stmt.Exposes s name with
  | case1 | case2 => cases hs
  | case3 name c t ih => exact ih h.2 h.1
  | case4 name c t e iht ihe => exact fun hor => hor.elim (iht h.1.2 h.1.1) (ihe h.2.2 h.2.1)
  | case5 name c body ih => exact ih h.2 h.1
  | case6 => exact id

theorem isDeclaration_of_not_declares {s : Stmt} (h : declares s = none) :
    s.isDeclaration = false := by
  cases s with
  | var x e | function f params body => cases h
  | _ => rfl

/-- A declaration that fails has added nothing; one that succeeds binds its name last of all. -/
theorem execute_declaration {cfg : Setting} {fuel : Nat} {s : Stmt} {name : String}
    (hs : declares s = some name) (m : Machine) :
    (∃ e m', execute cfg fuel s m = .error e m' ∧ Added noName m m') ∨
      ∃ v m₁, Added noName m m₁ ∧ execute cfg fuel s m =
        .ok .normal { m₁ with store := m₁.store.define m₁.scope name v } := by
  cases fuel with
  | zero => exact .inl ⟨_, m, rfl, .refl m⟩
  | succ fuel =>
    cases s with
    | var x initial =>
      cases hs
      cases initial with
      | none => exact .inr ⟨.nil, m, .refl m, rfl⟩
      | some e =>
        have hat : AddsAt cfg fuel := .all fuel
        have hadded := hat.evaluate e m
        cases hm : evaluate cfg fuel e m with
        | error stop m' =>
          rw [hm] at hadded
          exact .inl ⟨stop, m', bind_of_error hm, hadded⟩
        | ok v m₁ =>
          rw [hm] at hadded
          exact .inr ⟨v, m₁, hadded, bind_of_ok hm⟩
    | function x params body =>
      cases hs
      exact .inr ⟨_, { m with created := m.created + 1 },
        ⟨grown_moves.create m, fun _ _ _ hb => .inl hb⟩, rfl⟩
    | _ => cases hs

/-! ## All scopes after a run -/

/-- The scopes that the first machine has bind the same names in both. -/
def SameNames (m m' : Machine) : Prop :=
  ∀ id < m.store.scopes.size, ∀ name, m'.store.Binds id name ↔ m.store.Binds id name

/-- The scopes that the first machine has are in the same ones, and bind at least the names
that they did. -/
structure Intact (m m' : Machine) : Prop where
  names : NamesKept m m'
  outer : ∀ id < m.store.scopes.size, m'.store.outer? id = m.store.outer? id

theorem Store.outer?_eq_chain (s : Store) (id : ScopeId) : s.outer? id = (s.chain id)[1]? := by
  unfold Store.outer? Store.chain
  cases s.scopes[id]? with
  | none => rfl
  | some scope => exact (List.head?_eq_getElem? ..)

/-- However code ends, it leaves the scopes that were there intact. -/
theorem intact_of_moves {α : Type} {x : Eval α} (hnames : Preserves NamesKept x)
    (hgrown : Preserves Grown x) (m : Machine) : Intact m (after (x m)) := by
  refine ⟨hnames m, fun id hid => ?_⟩
  rw [Store.outer?_eq_chain, Store.outer?_eq_chain, (hgrown m).chain id hid]

theorem Added.sameNames {N : String → Prop} {m m' : Machine} (h : Added N m m')
    (hN : ∀ name, ¬ N name) (hkept : NamesKept m m') : SameNames m m' := by
  refine fun id hid name => ⟨fun hb => ?_, hkept id name⟩
  rcases h.only id hid name hb with hb | ⟨-, hname⟩
  · exact hb
  · exact absurd hname (hN name)

/-- Expressions, and the statements of parsed programs that are no declarations, leave the
names of all scopes as they are. A declaration adds its own name to the scope that it runs
in, and nothing if it fails. Whatever is run, no name is ever unbound and every scope stays
in the one that it is in. -/
theorem only_declarations_add_names (cfg : Setting) (fuel : Nat) (m : Machine) :
    (∀ e, SameNames m (after (evaluate cfg fuel e m))) ∧
    (∀ tokens p place s, parse tokens = .ok p →
      (Node.program p).part? place = some (.stmt s) →
      (declares s = none → SameNames m (after (execute cfg fuel s m))) ∧
      ∀ name, declares s = some name →
        (∀ r m', execute cfg fuel s m = .ok r m' →
          ∀ id < m.store.scopes.size, ∀ other, m'.store.Binds id other ↔
            m.store.Binds id other ∨ id = m.scope ∧ other = name) ∧
        ∀ e m', execute cfg fuel s m = .error e m' → SameNames m m') ∧
    (∀ e, Intact m (after (evaluate cfg fuel e m))) ∧
    (∀ s, Intact m (after (execute cfg fuel s m))) ∧
    ∀ p, Intact m (after (interpret cfg fuel p m)) := by
  have hadds : AddsAt cfg fuel := .all fuel
  have hnames : PreservesAt NamesKept cfg fuel := .all namesKept_moves fuel
  have hgrown : PreservesAt Grown cfg fuel := .all grown_moves fuel
  refine ⟨fun e => ?_, fun tokens p place s hp hs => ⟨fun hnot => ?_, fun name hname => ?_⟩,
    fun e => intact_of_moves (hnames.evaluate e) (hgrown.evaluate e) m,
    fun s => intact_of_moves (hnames.execute s) (hgrown.execute s) m,
    fun p => intact_of_moves (preserves_interpret namesKept_moves cfg fuel p)
      (preserves_interpret grown_moves cfg fuel p) m⟩
  · exact (hadds.evaluate e m).sameNames (fun _ => id) (hnames.evaluate e m)
  · have hroot : (Node.program p).Regular := parse_regular hp
    obtain ⟨b, hregular⟩ := hroot.part hs
    have hexposes := not_exposes_of_regular hregular (isDeclaration_of_not_declares hnot)
    exact (hadds.execute s m).sameNames hexposes (hnames.execute s m)
  · have hkept := hnames.execute s m
    obtain ⟨e, m₁, hrun, hadded⟩ | ⟨v, m₁, hadded, hrun⟩ := execute_declaration hname m
    · rw [hrun] at hkept ⊢
      refine ⟨fun r m' hok => (by cases hok), fun e' m' herror => ?_⟩
      cases herror
      exact hadded.sameNames (fun _ => id) hkept
    · rw [hrun] at hkept ⊢
      refine ⟨fun r m' hok id hid other => ?_, fun e' m' herror => (by cases herror)⟩
      cases hok
      have hscope : m₁.scope = m.scope := hadded.grown.scope
      refine ⟨fun hb => ?_, fun hb => ?_⟩
      · rcases Store.binds_define.mp hb with hb | ⟨⟨rfl, rfl⟩, -⟩
        · exact .inl ((hadded.only id hid other hb).resolve_right fun h => h.2)
        · exact .inr ⟨hscope, rfl⟩
      · rcases hb with hb | ⟨rfl, rfl⟩
        · exact hkept id other hb
        · refine Store.binds_define.mpr (.inr ⟨⟨hscope.symm, rfl⟩, ?_⟩)
          rw [hscope]
          exact Nat.lt_of_lt_of_le hid hadded.grown.size

/-- A branch that declares in a block and calls a function with a local variable, and then a
declaration. -/
theorem only_declarations_add_names_branch :
    let cfg : Setting := { clock := fun _ => 0 }
    let source := "fun f(a) { var y = a; return y; } " ++
      "if (f(true)) { var x = f(nil); } var z = f(f);"
    ∃ p s t, parse (scan source).tokens = .ok p ∧ p[1]? = some s ∧ p[2]? = some t ∧
      let m := after (interpret cfg 20 (p.take 1) Machine.initial)
      SameNames m (after (execute cfg 20 s m)) ∧
      ∃ m', execute cfg 20 t m = .ok .normal m' ∧
        ∀ other, m'.store.Binds Machine.globals other ↔
          m.store.Binds Machine.globals other ∨ other = "z" := by
  intro cfg source
  have hparsed : ((parse (scan source).tokens).toOption.map fun p =>
      let m := after (interpret cfg 20 (p.take 1) Machine.initial)
      (p[1]?.map declares, p[2]?.map declares, p[2]?.any fun t =>
        match execute cfg 20 t m with
        | .ok .normal _ => true
        | _ => false)) = some (some none, some (some "z"), true) := by decide +kernel
  cases hp : parse (scan source).tokens with
  | error es =>
    rw [hp] at hparsed
    cases hparsed
  | ok p =>
    rw [hp] at hparsed
    simp only [Except.toOption, Option.map_some, Option.some.injEq, Prod.mk.injEq,
      Option.map_eq_some_iff, Option.any_eq_true] at hparsed
    obtain ⟨⟨s, hs, hbranch⟩, ⟨t, ht, hz⟩, t', ht', hran⟩ := hparsed
    obtain rfl : t' = t := Option.some.inj (ht'.symm.trans ht)
    refine ⟨p, s, t', rfl, hs, ht, ?_⟩
    intro m
    have hgrown : Grown Machine.initial m := preserves_interpret grown_moves cfg 20 _ _
    obtain ⟨-, hstmts, -⟩ := only_declarations_add_names cfg 20 m
    have hplace : ∀ i u, p[i]? = some u → (Node.program p).part? [i] = some (.stmt u) := by
      intro i u hu
      simp [Node.part?, Node.parts, hu]
    refine ⟨(hstmts _ p [1] s hp (hplace 1 s hs)).1 hbranch, ?_⟩
    split at hran
    · rename_i m' hrun
      have hadded := ((hstmts _ p [2] t' hp (hplace 2 t' ht)).2 "z" hz).1 .normal m' hrun
      refine ⟨m', hrun, fun other => ?_⟩
      rw [hadded Machine.globals hgrown.size other]
      simp [show m.scope = Machine.globals from hgrown.scope]
    · cases hran

end Treewalk
