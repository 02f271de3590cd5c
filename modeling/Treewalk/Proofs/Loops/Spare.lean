import Mathlib.Data.List.Find
import Treewalk.Proofs.Scoping.Mirror

/-!
# Spare scopes

Two stores may differ in scopes that bind nothing: the first one has some of these to
spare, and the others are numbered without them in the second one. A name that is looked
up through spare scopes is found where it is found without them.

Results:

* `SlimStore.owner`: both stores bind a name in the same scope.
* `SlimStore.define`, `SlimStore.enclose`: they stay alike when both bind a name or open a
  scope.
* `SlimStore.insert`: they stay alike when the first one opens a scope to spare.
-/
namespace Treewalk

/-- The number of a scope when those to spare are not counted. -/
def rank (spare : ScopeId → Bool) : Nat → Nat
  | 0 => 0
  | i + 1 => if spare i then rank spare i else rank spare i + 1

/-- The scopes of a chain that are not to spare, by their new numbers. -/
def slimChain (spare : ScopeId → Bool) (chain : List ScopeId) : List ScopeId :=
  (chain.filter fun i => !spare i).map (rank spare)

def Callable.slim (spare : ScopeId → Bool) : Callable → Callable
  | .clock => .clock
  | .function d closure => .function d (rank spare closure)

/-- The value with the scope that it closes over by its new number. -/
def Value.slim (spare : ScopeId → Bool) : Value → Value
  | .callable id c => .callable id (c.slim spare)
  | v => v

/-- A function closes over one of the given number of scopes, and not over one to spare. -/
def Value.Fits (spare : ScopeId → Bool) (size : Nat) : Value → Prop
  | .callable _ (.function _ closure) => closure < size ∧ spare closure = false
  | _ => True

/-- One more scope to spare. -/
def mark (spare : ScopeId → Bool) (id : ScopeId) : ScopeId → Bool := fun i => i = id || spare i

theorem mark_of_lt {spare : ScopeId → Bool} {id i : Nat} (h : i < id) :
    mark spare id i = spare i := by
  have hne : i ≠ id := by omega
  simp [mark, hne]

section Rank

variable {spare spare' : ScopeId → Bool} {i j : Nat}

theorem rank_succ (h : spare i = false) : rank spare (i + 1) = rank spare i + 1 := by
  simp [rank, h]

theorem rank_le (h : i ≤ j) : rank spare i ≤ rank spare j := by
  induction h with
  | refl => exact Nat.le_refl _
  | @step k _ ih =>
    have hstep : rank spare k ≤ rank spare (k + 1) := by
      rw [rank]
      split <;> omega
    exact Nat.le_trans ih hstep

theorem rank_lt (h : i < j) (hi : spare i = false) : rank spare i < rank spare j := by
  have hsucc := rank_succ hi
  have hle : rank spare (i + 1) ≤ rank spare j := rank_le h
  omega

theorem rank_inj (hi : spare i = false) (hj : spare j = false) :
    rank spare i = rank spare j ↔ i = j := by
  constructor
  · intro h
    rcases Nat.lt_trichotomy i j with hlt | heq | hgt
    · have := rank_lt hlt hi
      omega
    · exact heq
    · have := rank_lt hgt hj
      omega
  · rintro rfl
    rfl

/-- The number of a scope depends on the scopes before it only. -/
theorem rank_congr (h : ∀ k : Nat, k < i → spare' k = spare k) : rank spare' i = rank spare i := by
  induction i with
  | zero => rfl
  | succ i ih =>
    have hi := ih fun k hk => h k (by omega)
    have hspare := h i (by omega)
    simp [rank, hi, hspare]

/-- Without scopes to spare all keep their numbers. -/
theorem rank_eq_self (h : ∀ k : Nat, k < i → spare k = false) : rank spare i = i := by
  induction i with
  | zero => rfl
  | succ i ih =>
    have hi := ih fun k hk => h k (by omega)
    simp [rank, hi, h i (by omega)]

theorem slimChain_congr {chain : List ScopeId} {size : Nat}
    (h : ∀ k : Nat, k < size → spare' k = spare k) (hchain : ∀ i ∈ chain, i < size) :
    slimChain spare' chain = slimChain spare chain := by
  have hfilter : (chain.filter fun i => !spare' i) = chain.filter fun i => !spare i :=
    List.filter_congr fun i hi => by rw [h i (hchain i hi)]
  unfold slimChain
  rw [hfilter]
  refine List.map_congr_left fun i hi => rank_congr fun k hk => h k ?_
  exact Nat.lt_trans hk (hchain i (List.mem_filter.mp hi).1)

theorem slimChain_cons (i : ScopeId) (chain : List ScopeId) :
    slimChain spare (i :: chain) =
      if spare i then slimChain spare chain else rank spare i :: slimChain spare chain := by
  unfold slimChain
  by_cases hi : spare i = true <;> simp [hi]

end Rank

namespace Value

variable {spare spare' : ScopeId → Bool} {size size' : Nat} {v : Value}

theorem Fits.mono (h : v.Fits spare size) (hsize : size ≤ size') : v.Fits spare size' := by
  cases v with
  | callable id c =>
    cases c with
    | clock => trivial
    | function d closure => exact ⟨Nat.lt_of_lt_of_le h.1 hsize, h.2⟩
  | _ => trivial

theorem Fits.congr (h : v.Fits spare size) (hspare : ∀ k : Nat, k < size → spare' k = spare k) :
    v.Fits spare' size := by
  cases v with
  | callable id c =>
    cases c with
    | clock => trivial
    | function d closure => exact ⟨h.1, (hspare closure h.1).trans h.2⟩
  | _ => trivial

theorem Fits.slim_congr (h : v.Fits spare size)
    (hspare : ∀ k : Nat, k < size → spare' k = spare k) : v.slim spare' = v.slim spare := by
  cases v with
  | callable id c =>
    cases c with
    | clock => rfl
    | function d closure =>
      have hrank : rank spare' closure = rank spare closure :=
        rank_congr fun k hk => hspare k (Nat.lt_trans hk h.1)
      simp [Value.slim, Callable.slim, hrank]
  | _ => rfl

end Value

/-! ## Stores -/

@[simp]
theorem Store.size_defineAll (s : Store) (id : ScopeId) (bs : List (String × Value)) :
    (s.defineAll id bs).scopes.size = s.scopes.size := by
  induction bs generalizing s with
  | nil => rfl
  | cons b bs ih => exact (ih _).trans (s.size_define id b.1 b.2)

/-- The scopes around a scope exist. -/
def Store.Closed (s : Store) : Prop :=
  ∀ i < s.scopes.size, ∀ o ∈ s.chain i, o < s.scopes.size

theorem Store.Closed.enclose {s : Store} (h : s.Closed) {outer : ScopeId}
    (houter : outer < s.scopes.size) : (s.enclose outer).2.Closed := by
  intro i hi o ho
  rw [Store.size_enclose] at hi ⊢
  rcases Nat.lt_succ_iff_lt_or_eq.mp hi with hi | rfl
  · rw [s.chain_enclose_of_lt i outer hi] at ho
    exact Nat.lt_succ_of_lt (h i hi o ho)
  · rw [show (s.enclose outer).2.chain s.scopes.size = s.scopes.size :: s.chain outer from
      s.chain_enclose outer, List.mem_cons] at ho
    rcases ho with rfl | ho
    · exact Nat.lt_succ_self _
    · exact Nat.lt_succ_of_lt (h outer houter o ho)

/-- The second store is the first one without the scopes to spare, which bind nothing. -/
structure SlimStore (spare : ScopeId → Bool) (s s' : Store) : Prop where
  spare_lt : ∀ i, spare i = true → i < s.scopes.size
  size : s'.scopes.size = rank spare s.scopes.size
  inside : s.Closed
  chain : ∀ i < s.scopes.size, spare i = false →
    s'.chain (rank spare i) = slimChain spare (s.chain i)
  empty : ∀ i name, spare i = true → s.bound? i name = none
  bound : ∀ i < s.scopes.size, spare i = false → ∀ name,
    s'.bound? (rank spare i) name = (s.bound? i name).map (Value.slim spare)
  fits : ∀ i name v, s.bound? i name = some v → v.Fits spare s.scopes.size

/-- The same scopes are visible from a scope of the first store and from one of the second,
those to spare apart. -/
structure Sees (spare : ScopeId → Bool) (s s' : Store) (i i' : ScopeId) : Prop where
  lt : i < s.scopes.size
  chain : s'.chain i' = slimChain spare (s.chain i)

theorem Store.chain_head (s : Store) (i : ScopeId) : (s.chain i).head? = some i := rfl

section Stores

variable {spare : ScopeId → Bool} {s s' : Store} {i i' outer outer' : ScopeId} {name : String}
  {v : Value}

theorem Sees.rank_eq (h : Sees spare s s' i i') (hi : spare i = false) : i' = rank spare i := by
  have hhead := congrArg List.head? h.chain
  rw [s'.chain_head, Store.chain, slimChain_cons, hi] at hhead
  exact Option.some.inj hhead

namespace SlimStore

/-- A scope that is not to spare and its namesake see the same. -/
theorem sees (h : SlimStore spare s s') (hlt : i < s.scopes.size) (hi : spare i = false) :
    Sees spare s s' i (rank spare i) :=
  ⟨hlt, h.chain i hlt hi⟩

/-- The second scope exists as well. -/
theorem lt_of_sees (h : SlimStore spare s s') (hs : Sees spare s s' i i') :
    i' < s'.scopes.size := by
  have hmem : i' ∈ s'.chain i' := List.mem_of_head? (s'.chain_head i')
  rw [hs.chain, slimChain, List.mem_map] at hmem
  obtain ⟨o, ho, rfl⟩ := hmem
  obtain ⟨hchain, hspare⟩ := List.mem_filter.mp ho
  rw [h.size]
  exact rank_lt (h.inside i hs.lt o hchain) (by simpa using hspare)

/-- A name is bound in the same scope of both stores. -/
theorem owner (h : SlimStore spare s s') (hs : Sees spare s s' i i') (name : String) :
    s'.owner? i' name = (s.owner? i name).map (rank spare) := by
  -- A scope to spare binds nothing, so it does not matter that it is passed over.
  have hbinds : ∀ o ∈ s.chain i, decide ((!spare o) = true ∧
      (s'.bound? (rank spare o) name).isSome = true) = (s.bound? o name).isSome := by
    intro o ho
    cases hspare : spare o with
    | true => simp [h.empty o name hspare]
    | false => simp [h.bound o (h.inside i hs.lt o ho) hspare name]
  unfold Store.owner?
  rw [hs.chain, slimChain, List.find?_map, List.find?_filter]
  congr 1
  exact List.find?_congr hbinds

/-- The owner of a name is none of the scopes to spare. -/
theorem owner_not_spare (h : SlimStore spare s s') {o : ScopeId}
    (ho : s.owner? i name = some o) : o < s.scopes.size ∧ spare o = false := by
  have hbound := List.find?_some ho
  obtain ⟨v, hv⟩ := Option.isSome_iff_exists.mp hbound
  refine ⟨s.lt_of_bound? o name hv, ?_⟩
  cases hspare : spare o with
  | false => rfl
  | true =>
    rw [h.empty o name hspare] at hv
    cases hv

theorem lookup (h : SlimStore spare s s') (hs : Sees spare s s' i i') (name : String) :
    s'.lookup i' name = (s.lookup i name).map (Value.slim spare) := by
  rw [Store.lookup_eq_owner, Store.lookup_eq_owner, h.owner hs]
  cases ho : s.owner? i name with
  | none => rfl
  | some o =>
    obtain ⟨hlt, hspare⟩ := h.owner_not_spare ho
    exact h.bound o hlt hspare name

theorem fits_lookup (h : SlimStore spare s s') (hv : s.lookup i name = some v) :
    v.Fits spare s.scopes.size := by
  rw [Store.lookup_eq_owner, Option.bind_eq_some_iff] at hv
  obtain ⟨o, -, hv⟩ := hv
  exact h.fits o name v hv

/-! ## Changes -/

theorem define (h : SlimStore spare s s') (hlt : i < s.scopes.size) (hi : spare i = false)
    (hv : v.Fits spare s.scopes.size) :
    SlimStore spare (s.define i name v) (s'.define (rank spare i) name (v.slim spare)) := by
  have hlt' : rank spare i < s'.scopes.size := by
    rw [h.size]
    exact rank_lt hlt hi
  refine ⟨?_, ?_, ?_, ?_, ?_, ?_, ?_⟩
  · simpa using h.spare_lt
  · simpa using h.size
  · simpa [Store.Closed] using h.inside
  · simpa using h.chain
  · intro j other hj
    have hne : ¬ (j = i ∧ other = name) := by
      rintro ⟨rfl, -⟩
      rw [hi] at hj
      cases hj
    rw [Store.bound?_define _ _ _ _ _ _ hlt, if_neg hne, h.empty j other hj]
  · intro j hj hspare other
    rw [Store.size_define] at hj
    simp only [Store.bound?_define _ _ _ _ _ _ hlt, Store.bound?_define _ _ _ _ _ _ hlt',
      rank_inj hspare hi, h.bound j hj hspare other]
    split <;> rfl
  · intro j other w hw
    rw [Store.bound?_define _ _ _ _ _ _ hlt] at hw
    rw [Store.size_define]
    split at hw
    · cases hw
      exact hv
    · exact h.fits j other w hw

/-- The next scope to be opened is none of those to spare. -/
theorem size_not_spare (h : SlimStore spare s s') : spare s.scopes.size = false := by
  cases hspare : spare s.scopes.size with
  | false => rfl
  | true => exact absurd (h.spare_lt _ hspare) (Nat.lt_irrefl _)

/-- A new scope binds nothing, so all bindings are those of old scopes. -/
theorem bound_enclose (h : SlimStore spare s s') (outer outer' : ScopeId) {j : ScopeId}
    (hj : j < s.scopes.size + 1) (hspare : spare j = false) (name : String) :
    (s'.enclose outer').2.bound? (rank spare j) name =
      ((s.enclose outer).2.bound? j name).map (Value.slim spare) := by
  rw [Store.bound?_enclose, Store.bound?_enclose]
  rcases Nat.lt_succ_iff_lt_or_eq.mp hj with hj | rfl
  · exact h.bound j hj hspare name
  · have hnone : ∀ t : Store, t.bound? t.scopes.size name = none := by
      intro t
      simp [Store.bound?]
    rw [← h.size, hnone, hnone]
    rfl

theorem enclose (h : SlimStore spare s s') (hs : Sees spare s s' outer outer') :
    SlimStore spare (s.enclose outer).2 (s'.enclose outer').2 := by
  have hnew := h.size_not_spare
  have hchain : ∀ j < s.scopes.size, (s.enclose outer).2.chain j = s.chain j :=
    fun j hj => s.chain_enclose_of_lt j outer hj
  have hchainNew : (s.enclose outer).2.chain s.scopes.size = s.scopes.size :: s.chain outer :=
    s.chain_enclose outer
  refine ⟨?_, ?_, ?_, ?_, ?_, ?_, ?_⟩
  · intro j hj
    rw [Store.size_enclose]
    exact Nat.lt_succ_of_lt (h.spare_lt j hj)
  · rw [Store.size_enclose, Store.size_enclose, rank_succ hnew, h.size]
  · exact h.inside.enclose hs.lt
  · intro j hj hspare
    rw [Store.size_enclose] at hj
    rcases Nat.lt_succ_iff_lt_or_eq.mp hj with hj | rfl
    · have hlt' : rank spare j < s'.scopes.size := by
        rw [h.size]
        exact rank_lt hj hspare
      rw [hchain j hj, s'.chain_enclose_of_lt _ _ hlt', h.chain j hj hspare]
    · have hchain' : (s'.enclose outer').2.chain s'.scopes.size =
          s'.scopes.size :: s'.chain outer' := s'.chain_enclose outer'
      rw [hchainNew, slimChain_cons, hnew, ← h.size, hchain', hs.chain]
      rfl
  · intro j name hj
    rw [Store.bound?_enclose]
    exact h.empty j name hj
  · intro j hj hspare name
    rw [Store.size_enclose] at hj
    exact h.bound_enclose outer outer' hj hspare name
  · intro j name v hv
    rw [Store.bound?_enclose] at hv
    rw [Store.size_enclose]
    exact (h.fits j name v hv).mono (Nat.le_succ _)

/-- The first store opens a scope to spare. -/
theorem insert (h : SlimStore spare s s') (houter : outer < s.scopes.size) :
    SlimStore (mark spare s.scopes.size) (s.enclose outer).2 s' := by
  have hold : ∀ k : Nat, k < s.scopes.size → mark spare s.scopes.size k = spare k :=
    fun _ => mark_of_lt
  have hnew : mark spare s.scopes.size s.scopes.size = true := by simp [mark]
  have hkept : ∀ k : Nat, k < s.scopes.size + 1 → mark spare s.scopes.size k = false →
      k < s.scopes.size ∧ spare k = false := by
    intro k hk hspare
    rcases Nat.lt_succ_iff_lt_or_eq.mp hk with hk | rfl
    · exact ⟨hk, (hold k hk).symm.trans hspare⟩
    · rw [hnew] at hspare
      cases hspare
  have hrank : ∀ k : Nat, k ≤ s.scopes.size →
      rank (mark spare s.scopes.size) k = rank spare k :=
    fun k hk => rank_congr fun j hj => hold j (by omega)
  have hchain : ∀ j : Nat, j < s.scopes.size → (s.enclose outer).2.chain j = s.chain j :=
    fun j hj => s.chain_enclose_of_lt j outer hj
  refine ⟨?_, ?_, ?_, ?_, ?_, ?_, ?_⟩
  · intro j hj
    rw [Store.size_enclose]
    simp only [mark, Bool.or_eq_true, decide_eq_true_eq] at hj
    rcases hj with rfl | hj
    · exact Nat.lt_succ_self _
    · exact Nat.lt_succ_of_lt (h.spare_lt j hj)
  · rw [Store.size_enclose, rank, hnew, if_pos rfl, hrank _ (Nat.le_refl _), h.size]
  · exact h.inside.enclose houter
  · intro j hj hspare
    rw [Store.size_enclose] at hj
    obtain ⟨hj, hspare⟩ := hkept j hj hspare
    rw [hrank j (Nat.le_of_lt hj), hchain j hj, h.chain j hj hspare,
      slimChain_congr hold (h.inside j hj)]
  · intro j name hj
    rw [Store.bound?_enclose]
    simp only [mark, Bool.or_eq_true, decide_eq_true_eq] at hj
    rcases hj with rfl | hj
    · simp [Store.bound?]
    · exact h.empty j name hj
  · intro j hj hspare name
    rw [Store.size_enclose] at hj
    obtain ⟨hj, hspare⟩ := hkept j hj hspare
    rw [hrank j (Nat.le_of_lt hj), Store.bound?_enclose, h.bound j hj hspare name]
    cases hv : s.bound? j name with
    | none => rfl
    | some v => simp [(h.fits j name v hv).slim_congr hold]
  · intro j name v hv
    rw [Store.bound?_enclose] at hv
    rw [Store.size_enclose]
    exact ((h.fits j name v hv).congr hold).mono (Nat.le_succ _)

end SlimStore

end Stores

end Treewalk
