import Treewalk.Proofs.Scoping.Watch

/-!
# Scopes that mirror the source

A picture of a running session mirrors its source if the scopes around each scope
are those that enclose its block or function body in the source, if a scope binds
only names that are declared in it, and if each function closes over the scope that
its declaration stands in. Every move of the machine keeps this.

Results:

* `Mirrors.define`: binding a declared name keeps it.
* `Mirrors.enclose`: opening a scope for a block or function body inside the scope that
  encloses it keeps it.
* `Mirrors.mono`: what does not touch the store keeps it.
-/
namespace Treewalk

/-! ## The store -/

namespace Store

variable (s : Store) (id outer : ScopeId) (name : String) (value : Value)

@[simp]
theorem size_define : (s.define id name value).scopes.size = s.scopes.size := by
  simp [define]

@[simp]
theorem size_enclose : (s.enclose outer).2.scopes.size = s.scopes.size + 1 := by
  simp [enclose, push]

theorem chain_enclose_of_lt (h : id < s.scopes.size) :
    (s.enclose outer).2.chain id = s.chain id := by
  simp [enclose, push, chain, Array.getElem?_push, Nat.ne_of_lt h]

/-- A new scope binds nothing. -/
theorem bound?_enclose : (s.enclose outer).2.bound? id name = s.bound? id name := by
  simp only [enclose, push, bound?, Array.getElem?_push]
  split
  · rename_i h
    simp [h, Scope.get?]
  · rfl

theorem lt_of_bound? {v : Value} (h : s.bound? id name = some v) : id < s.scopes.size := by
  unfold bound? at h
  by_cases hid : id < s.scopes.size
  · exact hid
  · rw [Array.getElem?_eq_none (Nat.le_of_not_lt hid)] at h
    cases h

end Store

namespace Scoping

variable {root : Node} {p p' : Picture} {v : Value}

/-- How many scopes were opened. -/
abbrev Picture.scopes (p : Picture) : Nat := p.machine.store.scopes.size

/-- A function closes over the innermost scope around its declaration. -/
def Closes (root : Node) (p : Picture) : Value → Prop
  | .callable id (.function d closure) =>
    (id < p.machine.created ∧ closure < p.scopes) ∧
      root.part? (p.origin id) = some (.stmt (.function d.name d.params d.body)) ∧
      root.innermost (p.origin id) = some (p.label closure)
  | _ => True

/-- The scopes of the machine mirror those of the source. -/
structure Mirrors (root : Node) (p : Picture) : Prop where
  /-- The whole session has the globals, and nothing else has. -/
  globals : Machine.globals < p.scopes ∧ ∀ id < p.scopes, p.label id = [] ↔ id = Machine.globals
  /-- Other scopes belong to blocks and function bodies. -/
  opens : ∀ id < p.scopes, root.opensAt (p.label id) = true
  /-- The scopes around a scope exist. -/
  inside : ∀ id < p.scopes, ∀ outer ∈ p.machine.store.chain id, outer < p.scopes
  /-- The scopes around a scope are those that enclose it in the source. -/
  chain : ∀ id < p.scopes,
    (p.machine.store.chain id).map p.label = p.label id :: root.enclosing (p.label id)
  /-- A scope other than the globals binds only names that are declared in it. -/
  bound : ∀ id name v, p.machine.store.bound? id name = some v → id ≠ Machine.globals →
    name ∈ root.declaredAt (p.label id)
  /-- All functions that can be found close over the right scope. -/
  closes : ∀ id name v, p.machine.store.bound? id name = some v → Closes root p v

/-- The second picture has all scopes and callables of the first one, with their notes. -/
structure Grows (p p' : Picture) : Prop where
  scopes : p.scopes ≤ p'.scopes
  created : p.machine.created ≤ p'.machine.created
  label : ∀ id < p.scopes, p'.label id = p.label id
  origin : ∀ id < p.machine.created, p'.origin id = p.origin id

theorem Grows.refl (p : Picture) : Grows p p :=
  ⟨Nat.le_refl _, Nat.le_refl _, fun _ _ => rfl, fun _ _ => rfl⟩

theorem Grows.trans {p₁ p₂ p₃ : Picture} (h : Grows p₁ p₂) (h' : Grows p₂ p₃) : Grows p₁ p₃ where
  scopes := Nat.le_trans h.scopes h'.scopes
  created := Nat.le_trans h.created h'.created
  label id hid := by
    have hid' := Nat.lt_of_lt_of_le hid h.scopes
    rw [h'.label id hid', h.label id hid]
  origin id hid := by
    have hid' := Nat.lt_of_lt_of_le hid h.created
    rw [h'.origin id hid', h.origin id hid]

theorem Closes.mono (h : Closes root p v) (hg : Grows p p') : Closes root p' v := by
  cases v with
  | callable id c =>
    cases c with
    | clock => trivial
    | function d closure =>
      obtain ⟨⟨hid, hclosure⟩, hpart, hscope⟩ := h
      refine ⟨⟨Nat.lt_of_lt_of_le hid hg.created, Nat.lt_of_lt_of_le hclosure hg.scopes⟩, ?_, ?_⟩
      · rw [hg.origin id hid, hpart]
      · rw [hg.origin id hid, hg.label closure hclosure, hscope]
  | _ => trivial

/-- What does not touch the store keeps the mirror. -/
theorem Mirrors.mono (h : Mirrors root p) (hg : Grows p p')
    (hs : p'.machine.store = p.machine.store) : Mirrors root p' := by
  have hscopes : p'.scopes = p.scopes := by simp only [Picture.scopes, hs]
  refine ⟨?_, ?_, ?_, ?_, ?_, ?_⟩
  · rw [hscopes]
    refine ⟨h.globals.1, fun id hid => ?_⟩
    rw [hg.label id hid]
    exact h.globals.2 id hid
  · intro id hid
    rw [hscopes] at hid
    rw [hg.label id hid]
    exact h.opens id hid
  · rw [hs, hscopes]
    exact h.inside
  · intro id hid
    rw [hscopes] at hid
    rw [hs, hg.label id hid, ← h.chain id hid]
    apply List.map_congr_left
    intro outer houter
    exact hg.label outer (h.inside id hid outer houter)
  · intro id name v hv hid
    rw [hs] at hv
    rw [hg.label id (p.machine.store.lt_of_bound? id name hv)]
    exact h.bound id name v hv hid
  · intro id name v hv
    rw [hs] at hv
    exact (h.closes id name v hv).mono hg

/-! ## Binding a name -/

/-- The picture after a name was bound in a scope. -/
def Picture.define (p : Picture) (id : ScopeId) (name : String) (value : Value) : Picture :=
  { p with machine := { p.machine with store := p.machine.store.define id name value } }

theorem grows_define (p : Picture) (id : ScopeId) (name : String) (value : Value) :
    Grows p (p.define id name value) :=
  ⟨by simp [Picture.define, Picture.scopes], Nat.le_refl _, fun _ _ => rfl, fun _ _ => rfl⟩

theorem Mirrors.define (h : Mirrors root p) {id : ScopeId} {name : String}
    (hid : id < p.scopes) (hv : Closes root p v)
    (hname : id ≠ Machine.globals → name ∈ root.declaredAt (p.label id)) :
    Mirrors root (p.define id name v) := by
  have hscopes : (p.define id name v).scopes = p.scopes := by
    simp [Picture.define, Picture.scopes]
  refine ⟨?_, ?_, ?_, ?_, ?_, ?_⟩
  · rw [hscopes]
    exact h.globals
  · rw [hscopes]
    exact h.opens
  · rw [hscopes]
    simpa [Picture.define] using h.inside
  · rw [hscopes]
    simpa [Picture.define] using h.chain
  · intro d other w hw hd
    rw [Picture.define, Store.bound?_define _ _ _ _ _ _ hid] at hw
    split at hw
    · rename_i hboth
      obtain ⟨rfl, rfl⟩ := hboth
      exact hname hd
    · exact h.bound d other w hw hd
  · intro d other w hw
    rw [Picture.define, Store.bound?_define _ _ _ _ _ _ hid] at hw
    split at hw
    · cases hw
      exact hv.mono (grows_define p id name v)
    · exact (h.closes d other w hw).mono (grows_define p id name v)

/-! ## Opening a scope -/

/-- The picture after a scope was opened for the part at a place. -/
def Picture.enclose (p : Picture) (place : Place) (outer : ScopeId) : Picture :=
  { p with
    machine := { p.machine with store := (p.machine.store.enclose outer).2 }
    label := fun i => if i = p.scopes then place else p.label i }

variable {place : Place} {outer : ScopeId}

theorem grows_enclose (p : Picture) (place : Place) (outer : ScopeId) :
    Grows p (p.enclose place outer) where
  scopes := by simp [Picture.enclose, Picture.scopes]
  created := Nat.le_refl _
  label id hid := if_neg (Nat.ne_of_lt hid)
  origin _ _ := rfl

theorem scopes_enclose (p : Picture) (place : Place) (outer : ScopeId) :
    (p.enclose place outer).scopes = p.scopes + 1 := by
  simp [Picture.enclose, Picture.scopes]

theorem label_enclose (p : Picture) (place : Place) (outer : ScopeId) :
    (p.enclose place outer).label p.scopes = place := if_pos rfl

theorem Mirrors.enclose (h : Mirrors root p) (houter : outer < p.scopes) (hplace : place ≠ [])
    (hopens : root.opensAt place = true) (hscope : root.innermost place = some (p.label outer)) :
    Mirrors root (p.enclose place outer) := by
  have hg := grows_enclose p place outer
  have hscopes := scopes_enclose p place outer
  have hlabel := label_enclose p place outer
  -- A scope is an old one or the one just opened.
  have hold : ∀ id < (p.enclose place outer).scopes, id < p.scopes ∨ id = p.scopes := by
    intro id hid
    rw [hscopes] at hid
    exact Nat.lt_succ_iff_lt_or_eq.mp hid
  have hchain : ∀ id < p.scopes, (p.enclose place outer).machine.store.chain id =
      p.machine.store.chain id := fun id hid => Store.chain_enclose_of_lt _ id outer hid
  have hnew : (p.enclose place outer).machine.store.chain p.scopes =
      p.scopes :: p.machine.store.chain outer := Store.chain_enclose _ outer
  have hmap : ∀ id < p.scopes, (p.machine.store.chain id).map (p.enclose place outer).label =
      p.label id :: root.enclosing (p.label id) := by
    intro id hid
    rw [← h.chain id hid]
    apply List.map_congr_left
    intro o ho
    exact hg.label o (h.inside id hid o ho)
  have hbound : ∀ id name v, (p.enclose place outer).machine.store.bound? id name = some v →
      p.machine.store.bound? id name = some v := by
    intro id name v hv
    rwa [Picture.enclose, Store.bound?_enclose] at hv
  have hlt : ∀ {id}, id < p.scopes → id < (p.enclose place outer).scopes :=
    fun hid => Nat.lt_of_lt_of_le hid hg.scopes
  refine ⟨⟨hlt h.globals.1, ?_⟩, ?_, ?_, ?_, ?_, ?_⟩
  · intro id hid
    rcases hold id hid with hid | rfl
    · rw [hg.label id hid]
      exact h.globals.2 id hid
    · rw [hlabel]
      exact ⟨fun hp => absurd hp hplace, fun hp => absurd hp (Nat.ne_of_gt h.globals.1)⟩
  · intro id hid
    rcases hold id hid with hid | rfl
    · rw [hg.label id hid]
      exact h.opens id hid
    · rwa [hlabel]
  · intro id hid o ho
    rcases hold id hid with hid | rfl
    · rw [hchain id hid] at ho
      exact hlt (h.inside id hid o ho)
    · rw [hnew, List.mem_cons] at ho
      rcases ho with rfl | ho
      · exact hid
      · exact hlt (h.inside outer houter o ho)
  · intro id hid
    rcases hold id hid with hid | rfl
    · rw [hchain id hid, hg.label id hid]
      exact hmap id hid
    · rw [hnew, List.map_cons, hlabel, hmap outer houter, Node.enclosing_eq hscope]
  · intro id name v hv hid
    rw [hg.label id (Store.lt_of_bound? _ _ _ (hbound id name v hv))]
    exact h.bound id name v (hbound id name v hv) hid
  · intro id name v hv
    exact (h.closes id name v (hbound id name v hv)).mono hg

/-- Binding several declared names keeps the mirror. -/
theorem Mirrors.defineAll (h : Mirrors root p) {id : ScopeId} (bs : List (String × Value))
    (hid : id < p.scopes) (hbs : ∀ b ∈ bs, Closes root p b.2 ∧ b.1 ∈ root.declaredAt (p.label id)) :
    Mirrors root { p with machine :=
        { p.machine with store := p.machine.store.defineAll id bs } } ∧
      Grows p { p with machine :=
        { p.machine with store := p.machine.store.defineAll id bs } } := by
  induction bs generalizing p with
  | nil => exact ⟨h, .refl p⟩
  | cons b bs ih =>
    have hb := hbs b (.head _)
    have hg := grows_define p id b.1 b.2
    have hid' : id < (p.define id b.1 b.2).scopes := Nat.lt_of_lt_of_le hid hg.scopes
    have hbs' : ∀ c ∈ bs, Closes root (p.define id b.1 b.2) c.2 ∧
        c.1 ∈ root.declaredAt ((p.define id b.1 b.2).label id) := by
      intro c hc
      have hc' := hbs c (.tail _ hc)
      exact ⟨hc'.1.mono hg, hc'.2⟩
    obtain ⟨hm, hg'⟩ := ih (h.define hid hb.1 fun _ => hb.2) hid' hbs'
    exact ⟨hm, hg.trans hg'⟩

end Scoping

end Treewalk
