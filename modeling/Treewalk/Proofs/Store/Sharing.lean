import Treewalk.Machine.Basic
import Treewalk.Proofs.Scoping.Mirror

/-!
# Scopes under sharing

Several scopes may have the same scope around them, so a binding is seen from many
scopes and hidden from others. In a store that is built by opening scopes, defining
and assigning, each scope knows the one directly around it, and what is seen from a
scope is found on the way outward: a name belongs to its owner, the first scope on
that way that binds it.

Results:

* `Built.nested`: the scopes around a scope are those on the way outward from it.
* `owner?_eq_some_iff`: the owner of a name is the first scope on that way that binds it.
* `lookup_assign`, `lookup_define_of_precedes`: from which scopes a change is seen.
* `scopes_share_bindings`: how the operations on a store behave, taken together.
-/
namespace Treewalk

namespace Store

/-! ## The way outward -/

/-- The scope directly around a scope. -/
def outer? (s : Store) (id : ScopeId) : Option ScopeId :=
  s.scopes[id]?.bind fun scope => scope.enclosing.head?

/-- The scopes on the way outward from a scope, itself first. -/
inductive Outward (s : Store) : ScopeId → List ScopeId → Prop where
  | last {id : ScopeId} (outermost : s.outer? id = none) : Outward s id [id]
  | step {id outer : ScopeId} {ids : List ScopeId} (around : s.outer? id = some outer)
      (rest : Outward s outer ids) : Outward s id (id :: ids)

/-- The first scope on the way outward that binds a name. -/
inductive Owner (s : Store) (name : String) : ScopeId → ScopeId → Prop where
  | here {id : ScopeId} {v : Value} (binds : s.bound? id name = some v) : Owner s name id id
  | outward {id outer owner : ScopeId} (passes : s.bound? id name = none)
      (around : s.outer? id = some outer) (found : Owner s name outer owner) :
      Owner s name id owner

/-- Scopes are inside older ones, and share the way outward with them. -/
def Nested (s : Store) : Prop :=
  ∀ id outer, s.outer? id = some outer → outer < id ∧ s.chain id = id :: s.chain outer

section Nested

variable {s : Store} {id outer owner : ScopeId} {name : String}

theorem chain_of_outermost (h : s.outer? id = none) : s.chain id = [id] := by
  unfold chain
  cases hid : s.scopes[id]? with
  | none => rfl
  | some scope =>
    unfold outer? at h
    rw [hid, Option.bind_some, List.head?_eq_none_iff] at h
    simp [h]

theorem Nested.outward (h : s.Nested) (id : ScopeId) : s.Outward id (s.chain id) := by
  induction id using Nat.strongRecOn with
  | ind id ih =>
    cases ho : s.outer? id with
    | none =>
      rw [chain_of_outermost ho]
      exact .last ho
    | some outer =>
      obtain ⟨hlt, hchain⟩ := h id outer ho
      rw [hchain]
      exact .step ho (ih outer hlt)

theorem owner?_of_bound {v : Value} (h : s.bound? id name = some v) :
    s.owner? id name = some id := by
  simp [owner?, chain, h]

/-- A name that a scope does not bind has the owner that it has one scope further out. -/
theorem Nested.owner?_of_not_bound (h : s.Nested) (hb : s.bound? id name = none) :
    s.owner? id name = (s.outer? id).bind fun outer => s.owner? outer name := by
  unfold owner?
  cases ho : s.outer? id with
  | none => simp [chain_of_outermost ho, hb]
  | some outer => simp [(h id outer ho).2, hb]

/-- The owner of a name is the first scope on the way outward that binds it. -/
theorem Nested.owner?_eq_some_iff (h : s.Nested) :
    s.owner? id name = some owner ↔ s.Owner name id owner := by
  constructor
  · intro howner
    induction id using Nat.strongRecOn with
    | ind id ih =>
      cases hb : s.bound? id name with
      | some v =>
        rw [owner?_of_bound hb] at howner
        cases howner
        exact .here hb
      | none =>
        rw [h.owner?_of_not_bound hb] at howner
        cases ho : s.outer? id with
        | none => simp [ho] at howner
        | some outer =>
          rw [ho, Option.bind_some] at howner
          exact .outward hb ho (ih outer (h id outer ho).1 howner)
  · intro howner
    induction howner with
    | here hb => exact owner?_of_bound hb
    | outward hb ho _ ih => rw [h.owner?_of_not_bound hb, ho, Option.bind_some, ih]

end Nested

/-! ## Building a store -/

/-- What can be done to a store. -/
inductive Change where
  /-- Open a scope with none around it. -/
  | root
  | enclose (outer : ScopeId)
  | define (id : ScopeId) (name : String) (value : Value)
  | assign (id : ScopeId) (name : Token) (value : Value)

/-- The scope that a change is about exists. -/
def Change.Known (s : Store) : Change → Prop
  | .root => True
  | .enclose id | .define id _ _ | .assign id _ _ => id < s.scopes.size

/-- The store after a change. An assignment that fails changes nothing. -/
def apply (s : Store) : Change → Store
  | .root => s.root.2
  | .enclose outer => (s.enclose outer).2
  | .define id name value => s.define id name value
  | .assign id name value =>
    match s.assign id name value with
    | .ok s' => s'
    | .error _ => s

/-- A store after any changes to scopes that exist. -/
inductive Built : Store → Prop where
  | empty : Built Store.empty
  | apply {s : Store} (before : Built s) (c : Change) (known : c.Known s) : Built (s.apply c)

section Changes

variable {s : Store} {id outer owner : ScopeId} {name : String}

theorem outer?_define (s : Store) (id d : ScopeId) (name : String) (value : Value) :
    (s.define id name value).outer? d = s.outer? d := by
  simp only [outer?, define, Array.getElem?_modify]
  split
  · cases s.scopes[d]? <;> rfl
  · rfl

theorem outer?_push_of_lt (s : Store) (ids : List ScopeId) (h : id < s.scopes.size) :
    (s.push ids).2.outer? id = s.outer? id := by
  simp [outer?, push, Array.getElem?_push, Nat.ne_of_lt h]

theorem chain_push_of_lt (s : Store) (ids : List ScopeId) (h : id < s.scopes.size) :
    (s.push ids).2.chain id = s.chain id := by
  simp [chain, push, Array.getElem?_push, Nat.ne_of_lt h]

theorem lt_of_outer? (h : s.outer? id = some outer) : id < s.scopes.size := by
  unfold outer? at h
  by_cases hid : id < s.scopes.size
  · exact hid
  · simp [Array.getElem?_eq_none (Nat.le_of_not_lt hid)] at h

theorem Nested.define (h : s.Nested) (id : ScopeId) (name : String) (value : Value) :
    (s.define id name value).Nested := by
  intro d outer ho
  rw [outer?_define] at ho
  simpa only [chain_define] using h d outer ho

/-- A new scope is inside the first of the scopes given, which share the way outward. -/
theorem Nested.push (h : s.Nested) {ids : List ScopeId}
    (hids : ∀ outer ∈ ids.head?, outer < s.scopes.size ∧ ids = s.chain outer) :
    (s.push ids).2.Nested := by
  intro d outer ho
  have hd := lt_of_outer? ho
  simp only [Store.push, Array.size_push] at hd
  by_cases hnew : d = s.scopes.size
  · subst hnew
    have hhead : ids.head? = some outer := by
      simpa [outer?, Store.push] using ho
    obtain ⟨hlt, hchain⟩ := hids outer hhead
    refine ⟨hlt, ?_⟩
    rw [chain_push_of_lt s ids hlt, ← hchain]
    simp [chain, Store.push]
  · have hold : d < s.scopes.size := Nat.lt_of_le_of_ne (Nat.lt_succ_iff.mp hd) hnew
    rw [outer?_push_of_lt s ids hold] at ho
    obtain ⟨hlt, hchain⟩ := h d outer ho
    rw [chain_push_of_lt s ids hold, chain_push_of_lt s ids (Nat.lt_trans hlt hold)]
    exact ⟨hlt, hchain⟩

/-- One change keeps the scopes nested. -/
theorem Nested.apply (h : s.Nested) {c : Change} (hc : c.Known s) : (s.apply c).Nested := by
  cases c with
  | root => exact h.push (by simp)
  | enclose outer =>
    refine h.push fun o ho => ?_
    have heq : outer = o := by simpa [chain] using ho
    subst heq
    exact ⟨hc, rfl⟩
  | define id name value => exact h.define id name value
  | assign id name value =>
    unfold Store.apply Store.assign
    dsimp only
    cases s.owner? id name.lexeme with
    | none => exact h
    | some owner => exact h.define owner name.lexeme value

/-- The scopes of a store are nested, however it was built. -/
theorem Built.nested (h : Built s) : s.Nested := by
  induction h with
  | empty =>
    intro id outer ho
    simp [outer?, Store.empty] at ho
  | apply _ c hc ih => exact ih.apply hc

end Changes

/-! ## What is seen from each scope -/

section Seen

variable {s : Store} {id d owner : ScopeId} {name other : String} {value : Value}

theorem bound_of_owner (h : s.owner? id name = some owner) :
    ∃ v, s.bound? owner name = some v := by
  unfold owner? at h
  have hsome := List.find?_some h
  exact Option.isSome_iff_exists.mp hsome

theorem lookup_eq_none_iff : s.lookup id name = none ↔ s.owner? id name = none := by
  rw [lookup_eq_owner]
  cases h : s.owner? id name with
  | none => simp
  | some owner =>
    obtain ⟨v, hv⟩ := bound_of_owner h
    simp [hv]

/-- A new value for a name that a scope binds already leaves all owners as they are. -/
theorem owner?_define_of_bound (h : ∃ v, s.bound? id name = some v) (d : ScopeId)
    (other : String) (value : Value) :
    (s.define id name value).owner? d other = s.owner? d other := by
  obtain ⟨v, hv⟩ := h
  unfold owner?
  rw [chain_define]
  congr 1
  funext i
  rw [bound?_define _ _ _ _ _ _ (s.lt_of_bound? id name hv)]
  split
  · next heq => simp [heq, hv]
  · rfl

/-- An assignment is seen from the scopes for which the name has the same owner, and not from
any other one. -/
theorem lookup_assign (h : s.owner? id name = some owner) :
    (s.define owner name value).lookup d other =
      if other = name ∧ s.owner? d name = s.owner? id name then some value
      else s.lookup d other := by
  obtain ⟨v, hv⟩ := bound_of_owner h
  have hlt := s.lt_of_bound? owner name hv
  rw [lookup_eq_owner, owner?_define_of_bound ⟨v, hv⟩, lookup_eq_owner, h]
  cases hd : s.owner? d other with
  | none =>
    have : ¬ (other = name ∧ s.owner? d name = some owner) := by
      rintro ⟨rfl, hsame⟩
      rw [hd] at hsame
      cases hsame
    simp [this]
  | some o =>
    simp only [Option.bind_some, bound?_define _ _ _ _ _ _ hlt]
    by_cases hname : other = name
    · subst hname
      simp [hd]
    · simp [hname]

/-- Whether the scope `id` stands in a list of scopes no farther back than the first one that
binds the name, or anywhere if none does. -/
def Precedes (s : Store) (name : String) (id : ScopeId) (ids : List ScopeId) : Prop :=
  ∃ k : Nat, ids[k]? = some id ∧
    ∀ owner, (ids.find? fun i => (s.bound? i name).isSome) = some owner →
      ∀ j : Nat, ids[j]? = some owner → k ≤ j

theorem precedes_head (ids : List ScopeId) : s.Precedes name id (id :: ids) :=
  ⟨0, rfl, fun _ _ _ _ => Nat.zero_le _⟩

theorem not_precedes_of_bound {i : ScopeId} {v : Value} (hi : i ≠ id)
    (hb : s.bound? i name = some v) (ids : List ScopeId) : ¬ s.Precedes name id (i :: ids) := by
  rintro ⟨k, hk, hfirst⟩
  have hzero := hfirst i (by simp [hb]) 0 rfl
  obtain rfl : k = 0 := Nat.le_zero.mp hzero
  exact hi (Option.some.inj hk)

/-- Scopes that do not bind the name make no difference. -/
theorem precedes_cons {i : ScopeId} (hi : i ≠ id) (hb : s.bound? i name = none)
    (ids : List ScopeId) : s.Precedes name id (i :: ids) ↔ s.Precedes name id ids := by
  have hfind : (i :: ids).find? (fun i => (s.bound? i name).isSome) =
      ids.find? fun i => (s.bound? i name).isSome := by simp [hb]
  unfold Precedes
  rw [hfind]
  constructor
  · rintro ⟨k, hk, hfirst⟩
    cases k with
    | zero => exact absurd (Option.some.inj hk) hi
    | succ k =>
      refine ⟨k, hk, fun owner howner j hj => ?_⟩
      have := hfirst owner howner (j + 1) hj
      omega
  · rintro ⟨k, hk, hfirst⟩
    refine ⟨k + 1, hk, fun owner howner j hj => ?_⟩
    cases j with
    | zero =>
      -- The owner binds the name, and `i` does not.
      obtain rfl : i = owner := Option.some.inj hj
      have hsome := List.find?_some howner
      simp [hb] at hsome
    | succ j =>
      have := hfirst owner howner j hj
      omega

/-- What is found first in a list of scopes after one scope was made to bind a name. -/
theorem findSome?_define (hid : id < s.scopes.size) (ids : List ScopeId) :
    (s.Precedes name id ids →
      (ids.findSome? fun i => (s.define id name value).bound? i name) = some value) ∧
    (¬ s.Precedes name id ids →
      (ids.findSome? fun i => (s.define id name value).bound? i name) =
        ids.findSome? fun i => s.bound? i name) := by
  induction ids with
  | nil => simp [Precedes]
  | cons i is ih =>
    rw [List.findSome?_cons, List.findSome?_cons, bound?_define _ _ _ _ _ _ hid]
    by_cases hi : i = id
    · subst hi
      simp [precedes_head]
    · simp only [hi, false_and, if_false]
      cases hb : s.bound? i name with
      | some v => simp [not_precedes_of_bound hi hb]
      | none => simpa [precedes_cons hi hb] using ih

/-- A definition is seen from the scopes that have its scope on their way outward, no farther
out than the old owner of the name. -/
theorem lookup_define_of_precedes (hid : id < s.scopes.size)
    (h : s.Precedes name id (s.chain d)) :
    (s.define id name value).lookup d name = some value := by
  unfold lookup
  rw [chain_define]
  exact (findSome?_define hid (s.chain d)).1 h

/-- It is not seen from any other scope, and no other name is touched. -/
theorem lookup_define_of_not_precedes (hid : id < s.scopes.size)
    (h : ¬ (other = name ∧ s.Precedes name id (s.chain d))) :
    (s.define id name value).lookup d other = s.lookup d other := by
  unfold lookup
  rw [chain_define]
  by_cases hname : other = name
  · subst hname
    exact (findSome?_define hid (s.chain d)).2 fun hp => h ⟨rfl, hp⟩
  · simp [hname, bound?_define _ _ _ _ _ _ hid]

theorem get_eq_ok_iff {t : Token} {v : Value} :
    s.get id t = .ok v ↔ s.lookup id t.lexeme = some v := by
  unfold get
  cases s.lookup id t.lexeme <;> simp

theorem get_eq_error_iff {t : Token} {e : RuntimeError} :
    s.get id t = .error e ↔ s.owner? id t.lexeme = none ∧ e = .undefined t := by
  rw [← lookup_eq_none_iff]
  unfold get
  cases s.lookup id t.lexeme <;> simp [eq_comm]

theorem assign_of_owner {t : Token} (h : s.owner? id t.lexeme = some owner) (v : Value) :
    s.assign id t v = .ok (s.define owner t.lexeme v) := by
  simp [assign, h]

theorem assign_of_none {t : Token} (h : s.owner? id t.lexeme = none) (v : Value) :
    s.assign id t v = .error (.undefined t) := by
  simp [assign, h]

end Seen

/-! ## The operations together -/

/-- What is found from a scope is what the owner of the name binds, the first scope on the way
outward that binds it. An assignment fails, and changes nothing, exactly if there is no owner;
otherwise it changes what is seen from the scopes with the same owner, and no owner. A
definition changes what is seen from the scopes that have its scope on their way outward, no
farther out than the owner of the name. Nothing else changes. -/
theorem scopes_share_bindings {s : Store} (h : Built s) {e : ScopeId} (he : e < s.scopes.size) :
    (∀ d, s.Outward d (s.chain d)) ∧
    (∀ d n o, s.owner? d n = some o ↔ s.Owner n d o) ∧
    (∀ n o, s.owner? e n = some o → ∃ v, s.bound? o n = some v ∧ s.lookup e n = some v) ∧
    (∀ n, s.lookup e n = none ↔ s.owner? e n = none) ∧
    (∀ t v, s.get e t = .ok v ↔ s.lookup e t.lexeme = some v) ∧
    (∀ t err, s.get e t = .error err ↔
      s.owner? e t.lexeme = none ∧ err = ⟨t, .undefinedVariable t.lexeme⟩) ∧
    (∀ t v, s.owner? e t.lexeme = none →
      s.assign e t v = .error ⟨t, .undefinedVariable t.lexeme⟩ ∧
      ∀ m : Machine, m.store = s → m.scope = e →
        Eval.assign t v m = .error (.error ⟨t, .undefinedVariable t.lexeme⟩) m) ∧
    (∀ t v o, s.owner? e t.lexeme = some o → ∃ s', s.assign e t v = .ok s' ∧
      (∀ d n, s'.owner? d n = s.owner? d n) ∧
      (∀ d, s.owner? d t.lexeme = some o → s'.lookup d t.lexeme = some v) ∧
      ∀ d n, ¬ (n = t.lexeme ∧ s.owner? d t.lexeme = some o) → s'.lookup d n = s.lookup d n) ∧
    ∀ n v,
      (∀ d, s.Precedes n e (s.chain d) → (s.define e n v).lookup d n = some v) ∧
      ∀ d m, ¬ (m = n ∧ s.Precedes n e (s.chain d)) →
        (s.define e n v).lookup d m = s.lookup d m := by
  have hnested := h.nested
  refine ⟨hnested.outward, fun d n o => hnested.owner?_eq_some_iff, fun n o ho => ?_,
    fun n => lookup_eq_none_iff, fun t v => get_eq_ok_iff, fun t err => get_eq_error_iff,
    fun t v hnone => ⟨assign_of_none hnone v, ?_⟩, fun t v o ho => ?_, fun n v => ⟨?_, ?_⟩⟩
  · obtain ⟨v, hv⟩ := bound_of_owner ho
    exact ⟨v, hv, by rw [lookup_eq_owner, ho, Option.bind_some, hv]⟩
  · rintro m rfl rfl
    rw [Eval.assign_eq, assign_of_none hnone]
    rfl
  · refine ⟨_, assign_of_owner ho v, fun d n => ?_, ?_, ?_⟩
    · exact owner?_define_of_bound (bound_of_owner ho) d n v
    · intro d hd
      rw [lookup_assign ho, if_pos ⟨rfl, hd.trans ho.symm⟩]
    · intro d n hne
      rw [lookup_assign ho, if_neg]
      rwa [ho]
  · intro d hd
    exact lookup_define_of_precedes he hd
  · intro d m hne
    exact lookup_define_of_not_precedes he hne

/-- Two scopes inside one that binds `x`. -/
def siblings : Store :=
  (((Store.empty.apply .root).apply (.enclose 0)).apply (.enclose 0)).apply
    (.define 0 "x" .nil)

/-- An assignment in one of them is seen from the other one, a definition is not. -/
theorem scopes_share_bindings_siblings :
    siblings.Built ∧
    (∃ s', siblings.assign 1 ⟨.identifier, "x", none, 1⟩ (.bool true) = .ok s' ∧
      s'.lookup 2 "x" = some (.bool true)) ∧
    (siblings.define 1 "x" (.bool true)).lookup 2 "x" = some .nil := by
  have hbuilt : siblings.Built :=
    (((Built.empty.apply .root trivial).apply (.enclose 0) Nat.one_pos).apply (.enclose 0)
      (Nat.succ_pos 1)).apply (.define 0 "x" .nil) (Nat.succ_pos 2)
  obtain ⟨-, -, -, -, -, -, -, hassign, hdefine⟩ :=
    scopes_share_bindings hbuilt (e := 1) (by decide)
  refine ⟨hbuilt, ?_, ?_⟩
  · obtain ⟨s', hs', -, hseen, -⟩ := hassign ⟨.identifier, "x", none, 1⟩ (.bool true) 0 (by rfl)
    exact ⟨s', hs', hseen 2 (by rfl)⟩
  · refine ((hdefine "x" (.bool true)).2 2 "x" ?_).trans (by rfl)
    rintro ⟨-, k, hk, -⟩
    have hchain : siblings.chain 2 = [2, 0] := by rfl
    have hmem := List.mem_of_getElem? hk
    rw [hchain] at hmem
    exact absurd hmem (by decide)

end Store

end Treewalk
