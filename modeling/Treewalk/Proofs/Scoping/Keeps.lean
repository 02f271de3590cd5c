import Treewalk.Proofs.Scoping.Mirror

/-!
# What a watched computation keeps

`Keeps root L vs x f` says what a watched computation does that starts in a scope of
`L` and knows the values `vs`: the scopes still mirror the source, in every sight and
at the end, it comes back to the scope it started in, and the values `f` of its result
close over the right scopes.

Results:

* `keeps_bind`: computations in sequence.
* `keeps_seen`: sights are taken in the innermost scope around their place.
* `keeps_body`: a block or function body is run in a scope of its own.
-/
namespace Treewalk

namespace Scoping

open Noting Watching

/-- What is seen when a part begins or ends: the scopes mirror the source, and the part
runs in the innermost scope around it. -/
structure Sight.Mirrors (root : Node) (s : Sight) : Prop where
  part : root.part? s.place = some s.part
  picture : Scoping.Mirrors root s.picture
  scope : s.picture.machine.scope < s.picture.scopes
  innermost : root.innermost s.place = some (s.picture.label s.picture.machine.scope)
  values : ∀ v ∈ s.values, Closes root s.picture v

/-- The scopes mirror the source and did so in all sights. -/
structure Good (root : Node) (w : Watch) : Prop where
  now : Mirrors root w.toPicture
  sights : ∀ s ∈ w.sights, s.Mirrors root

/-- Code runs in a scope of `L`. -/
def Here (L : Place) (p : Picture) : Prop :=
  p.machine.scope < p.scopes ∧ p.label p.machine.scope = L

/-- What a computation that started with `w` kept. -/
structure Kept {α : Type} (root : Node) (w : Watch) (f : α → List Value)
    (r : EStateM.Result Stop Watch α) : Prop where
  good : Good root (after r)
  grows : Grows w.toPicture (after r).toPicture
  scope : (after r).machine.scope = w.machine.scope
  values : ∀ a w', r = .ok a w' → ∀ v ∈ f a, Closes root w'.toPicture v

def Keeps {α : Type} (root : Node) (L : Place) (vs : List Value) (x : Watching α)
    (f : α → List Value) : Prop :=
  ∀ w, Good root w → Here L w.toPicture → (∀ v ∈ vs, Closes root w.toPicture v) →
    Kept root w f (x w)

variable {α β : Type} {root : Node} {L place : Place} {vs : List Value} {f : α → List Value}
  {g : β → List Value}

theorem Here.mono {p p' : Picture} (h : Here L p) (hg : Grows p p')
    (hs : p'.machine.scope = p.machine.scope) : Here L p' := by
  refine ⟨?_, ?_⟩
  · rw [hs]
    exact Nat.lt_of_lt_of_le h.1 hg.scopes
  · rw [hs, hg.label _ h.1]
    exact h.2

theorem Kept.refl {w : Watch} {r : EStateM.Result Stop Watch α} (hw : Good root w)
    (hr : after r = w) (hv : ∀ a w', r = .ok a w' → ∀ v ∈ f a, Closes root w.toPicture v) :
    Kept root w f r := by
  refine ⟨by rwa [hr], by rw [hr]; exact .refl _, by rw [hr], fun a w' h v hv' => ?_⟩
  have hw' : w' = w := by rw [← hr, h]; rfl
  rw [hw']
  exact hv a w' h v hv'

theorem keeps_bind {x : Watching α} {k : α → Watching β} (hx : Keeps root L vs x f)
    (hk : ∀ a, Keeps root L (f a ++ vs) (k a) g) : Keeps root L vs (x >>= k) g := by
  intro w hw hL hvs
  have h := hx w hw hL hvs
  cases hxw : x w with
  | ok a w₁ =>
    rw [hxw] at h
    rw [bind_of_ok hxw]
    have hvs₁ : ∀ v ∈ f a ++ vs, Closes root w₁.toPicture v := by
      intro v hv
      rcases List.mem_append.mp hv with hv | hv
      · exact h.values a w₁ rfl v hv
      · exact (hvs v hv).mono h.grows
    have h' := hk a w₁ h.good (hL.mono h.grows h.scope) hvs₁
    exact ⟨h'.good, h.grows.trans h'.grows, h'.scope.trans h.scope, h'.values⟩
  | error e w₁ =>
    rw [hxw] at h
    rw [bind_of_error hxw]
    exact ⟨h.good, h.grows, h.scope, nofun⟩

theorem keeps_pure {a : α} (h : ∀ v ∈ f a, v ∈ vs ∨ ∀ p, Closes root p v) :
    Keeps root L vs (pure a) f := by
  intro w hw _ hvs
  refine .refl hw rfl fun b w' hb v hv => ?_
  cases hb
  rcases h v hv with h | h
  · exact hvs v h
  · exact h _

/-! ## Computations that are not watched -/

/-- A computation that leaves the machine as it is. -/
theorem keeps_still {x : Eval α} (hx : ∀ m, after (x m) = m)
    (hv : ∀ p a m, Mirrors root p → (∀ v ∈ vs, Closes root p v) → Here L p →
      x p.machine = .ok a m → ∀ v ∈ f a, Closes root p v) :
    Keeps root L vs (plain x) f := by
  intro w hw hL hvs
  have hm := hx w.machine
  cases hxw : x w.machine with
  | ok a m =>
    rw [hxw] at hm
    obtain rfl : m = w.machine := hm
    have hplain : plain x w = .ok a w := plain_ok hxw
    rw [hplain]
    refine .refl hw rfl fun b w' hb => ?_
    cases hb
    exact hv w.toPicture a _ hw.now hvs hL hxw
  | error e m =>
    rw [hxw] at hm
    obtain rfl : m = w.machine := hm
    have hplain : plain x w = .error e w := plain_error hxw
    rw [hplain]
    exact .refl hw rfl nofun

theorem keeps_outOfFuel : Keeps root L vs (plain Eval.outOfFuel) f :=
  keeps_still (fun _ => rfl) fun _ _ _ _ _ _ h => nomatch h

theorem keeps_fault (t : Token) (p : Fault) : Keeps root L vs (plain (Eval.fault t p)) f :=
  keeps_still (fun _ => rfl) fun _ _ _ _ _ _ h => nomatch h

/-- The result of an operator is one of the values given to it or no callable. -/
theorem keeps_ofExcept {r : Except Stop Value}
    (h : ∀ v, r = .ok v → v ∈ vs ∨ ∀ p, Closes root p v) :
    Keeps root L vs (plain (Eval.ofExcept r)) (fun v => [v]) := by
  cases r with
  | error e => exact keeps_still (fun _ => rfl) fun _ _ _ _ _ _ h => nomatch h
  | ok v =>
    refine keeps_still (fun _ => rfl) fun p a m _ hvs _ ha u hu => ?_
    cases ha
    obtain rfl := List.mem_singleton.mp hu
    rcases h u rfl with h | h
    · exact hvs u h
    · exact h p

theorem keeps_get (t : Token) : Keeps root L vs (plain (Eval.get t)) (fun v => [v]) := by
  refine keeps_still ?_ fun p a m hp _ _ ha u hu => ?_
  · intro m
    unfold Eval.get
    split <;> rfl
  · obtain rfl := List.mem_singleton.mp hu
    unfold Eval.get Store.get at ha
    rw [Store.lookup_eq_owner] at ha
    cases ho : p.machine.store.owner? p.machine.scope t.lexeme with
    | none => simp [ho] at ha
    | some owner =>
      cases hb : p.machine.store.bound? owner t.lexeme with
      | none => simp [ho, hb] at ha
      | some v =>
        simp only [ho, hb, Option.bind_some, EStateM.Result.ok.injEq] at ha
        rw [← ha.1]
        exact hp.closes owner t.lexeme v hb

/-- A computation that changes the machine in a way that keeps the mirror. -/
theorem keeps_moved {x : Eval Unit} {m : Machine → Machine} (hx : ∀ m', x m' = .ok () (m m'))
    (hscope : ∀ m', (m m').scope = m'.scope)
    (h : ∀ p, Mirrors root p → Here L p → (∀ v ∈ vs, Closes root p v) →
      Mirrors root { p with machine := m p.machine } ∧
        Grows p { p with machine := m p.machine }) :
    Keeps root L vs (plain x) fun _ => [] := by
  intro w hw hL hvs
  obtain ⟨hm, hg⟩ := h w.toPicture hw.now hL hvs
  rw [plain_ok (hx w.machine)]
  exact ⟨⟨hm, hw.sights⟩, hg, hscope _, fun _ _ _ => List.forall_mem_nil _⟩

theorem keeps_printLine (line : String) :
    Keeps root L vs (plain (Eval.printLine line)) fun _ => [] := by
  refine keeps_moved (fun _ => rfl) (fun _ => rfl) fun p hp _ _ => ?_
  have hg : Grows p { p with machine :=
      { p.machine with printed := p.machine.printed.push line } } := by
    exact ⟨Nat.le_refl _, Nat.le_refl _, fun _ _ => rfl, fun _ _ => rfl⟩
  exact ⟨hp.mono hg rfl, hg⟩

theorem keeps_readClock (cfg : Setting) :
    Keeps root L vs (plain (Eval.readClock cfg)) (fun v => [v]) := by
  intro w hw _ _
  have hg : Grows w.toPicture { w.toPicture with machine :=
      { w.machine with readings := w.machine.readings + 1 } } :=
    ⟨Nat.le_refl _, Nat.le_refl _, fun _ _ => rfl, fun _ _ => rfl⟩
  refine ⟨⟨hw.now.mono hg rfl, hw.sights⟩, hg, rfl, fun a w' h v hv => ?_⟩
  cases h
  obtain rfl := List.mem_singleton.mp hv
  trivial

/-- A declaration binds its name in the scope that it stands in. -/
theorem keeps_define {name : String} {v : Value} (hv : v ∈ vs ∨ ∀ p, Closes root p v)
    (hname : L = [] ∨ name ∈ root.declaredAt L) :
    Keeps root L vs (plain (Eval.define name v)) fun _ => [] := by
  refine keeps_moved (fun _ => rfl) (fun _ => rfl) fun p hp hL hvs => ?_
  have hc : Closes root p v := by
    rcases hv with hv | hv
    · exact hvs v hv
    · exact hv p
  refine ⟨hp.define hL.1 hc fun hid => ?_, grows_define p _ name v⟩
  rw [hL.2]
  rcases hname with h | h
  · exact absurd ((hp.globals.2 _ hL.1).mp (hL.2.trans h)) hid
  · exact h

/-- An assignment goes to a scope that binds the name already. -/
theorem keeps_assign (t : Token) {v : Value} (hv : v ∈ vs) :
    Keeps root L vs (plain (Eval.assign t v)) fun _ => [] := by
  intro w hw hL hvs
  cases ho : w.machine.store.owner? w.machine.scope t.lexeme with
  | none =>
    have hx : Eval.assign t v w.machine = .error (.error (.undefined t)) w.machine := by
      unfold Eval.assign
      rw [ho]
    rw [plain_error hx]
    exact .refl hw rfl nofun
  | some owner =>
    have hx : Eval.assign t v w.machine = .ok () { w.machine with
        store := w.machine.store.define owner t.lexeme v } := by
      unfold Eval.assign
      rw [ho]
    rw [plain_ok hx]
    have hbound := List.find?_some ho
    obtain ⟨old, hold⟩ := Option.isSome_iff_exists.mp hbound
    have hid := w.machine.store.lt_of_bound? owner t.lexeme hold
    have hm := hw.now.define hid (hvs v hv) (hw.now.bound owner t.lexeme old hold)
    have hg := grows_define w.toPicture owner t.lexeme v
    exact ⟨⟨hm, hw.sights⟩, hg, rfl, fun _ _ _ => List.forall_mem_nil _⟩

/-! ## Watched computations -/

/-- A sight taken in the innermost scope around its place. -/
theorem Good.look {w : Watch} {part : Node} (values : List Value) (hw : Good root w)
    (hpart : root.part? place = some part) (hplace : root.innermost place = some L)
    (hL : Here L w.toPicture) (hv : ∀ v ∈ values, Closes root w.toPicture v) :
    Good root (Watch.look place part w values) := by
  refine ⟨hw.now, fun s hs => ?_⟩
  rcases List.mem_cons.mp hs with rfl | hs
  · exact ⟨hpart, hw.now, hL.1, hplace.trans (congrArg some hL.2.symm), hv⟩
  · exact hw.sights s hs

theorem keeps_seen {part : Node} {x : Watching α} (hpart : root.part? place = some part)
    (hplace : root.innermost place = some L) (hx : Keeps root L vs x f) :
    Keeps root L vs (seen (Watch.look place part) [] f x) f := by
  intro w hw hL hvs
  have h := hx _ (hw.look [] hpart hplace hL (List.forall_mem_nil _)) hL hvs
  unfold seen
  cases hxw : x (Watch.look place part w []) with
  | ok a w₁ =>
    rw [hxw] at h
    have hL₁ := hL.mono h.grows h.scope
    refine ⟨h.good.look (f a) hpart hplace hL₁ (h.values a w₁ rfl), h.grows, h.scope, ?_⟩
    intro b w' hb
    cases hb
    exact h.values a w₁ rfl
  | error e w₁ =>
    rw [hxw] at h
    have hL₁ := hL.mono h.grows h.scope
    exact ⟨h.good.look [] hpart hplace hL₁ (List.forall_mem_nil _), h.grows, h.scope, nofun⟩

/-- A function closes over the scope that its declaration stands in. -/
theorem keeps_close {d : Declaration}
    (hpart : root.part? place = some (.stmt (.function d.name d.params d.body)))
    (hplace : root.innermost place = some L) :
    Keeps root L vs (close place d) (fun v => [v]) := by
  intro w hw hL _
  have hg : Grows w.toPicture (after (close place d w)).toPicture :=
    ⟨Nat.le_refl _, Nat.le_succ _, fun _ _ => rfl, fun id hid => if_neg (Nat.ne_of_lt hid)⟩
  refine ⟨⟨hw.now.mono hg rfl, hw.sights⟩, hg, rfl, fun a w' h v hv => ?_⟩
  cases h
  obtain rfl := List.mem_singleton.mp hv
  refine ⟨⟨Nat.lt_succ_self _, hL.1⟩, ?_, ?_⟩
  · simpa using hpart
  · simp only [if_true]
    rw [hplace, hL.2]

/-- A computation that starts on another machine with the same store and callables, and
comes back in the same way. -/
theorem Kept.leave {w w₀ : Watch} {r : EStateM.Result Stop Watch α} {back : Machine → Machine}
    (h : Kept root w₀ f r) (hg : Grows w.toPicture w₀.toPicture)
    (hback : ∀ m, (back m).store = m.store ∧ (back m).created = m.created)
    (hscope : (back (after r).machine).scope = w.machine.scope) :
    Kept root w f (leaving (update back) r) := by
  have hg' : ∀ w' : Watch, Grows w'.toPicture { w'.toPicture with machine := back w'.machine } := by
    intro w'
    obtain ⟨hs, hc⟩ := hback w'.machine
    exact ⟨by simp [Picture.scopes, hs], by simp [hc], fun _ _ => rfl, fun _ _ => rfl⟩
  have hgood : ∀ w', Good root w' → Good root { w' with machine := back w'.machine } :=
    fun w' hw' => ⟨hw'.now.mono (hg' w') (hback w'.machine).1, hw'.sights⟩
  cases r with
  | ok a w₁ =>
    refine ⟨hgood w₁ h.good, (hg.trans h.grows).trans (hg' w₁), hscope, fun b w' hb v hv => ?_⟩
    cases hb
    exact (h.values a w₁ rfl v hv).mono (hg' w₁)
  | error e w₁ => exact ⟨hgood w₁ h.good, (hg.trans h.grows).trans (hg' w₁), hscope, nofun⟩

theorem keeps_activate (limit : Option Nat) (paren : Token) {x : Watching α}
    (hx : Keeps root L vs x f) : Keeps root L vs (activate limit paren x) f := by
  intro w hw hL hvs
  let w₀ : Watch := { w with machine := w.machine.enter }
  have hg : Grows w.toPicture w₀.toPicture :=
    ⟨Nat.le_refl _, Nat.le_refl _, fun _ _ => rfl, fun _ _ => rfl⟩
  have h := hx w₀ ⟨hw.now.mono hg rfl, hw.sights⟩ hL fun v hv => (hvs v hv).mono hg
  unfold activate
  split
  · exact .refl hw rfl nofun
  · exact h.leave hg (fun _ => ⟨rfl, rfl⟩) h.scope

/-! ## Blocks and function bodies -/

section Bodies

variable {x : Watching (Course Value)} {f : Course Value → List Value}

/-- A block or function body runs in a scope of its own, inside the innermost scope around
it. -/
theorem kept_body {w : Watch} {outer : ScopeId} {bs : List (String × Value)}
    (hw : Good root w) (houter : outer < w.scopes) (hplace : place ≠ [])
    (hopens : root.opensAt place = true) (hscope : root.innermost place = some (w.label outer))
    (hbs : ∀ b ∈ bs, Closes root w.toPicture b.2 ∧ b.1 ∈ root.declaredAt place)
    (hx : Keeps root place [] x f) :
    Kept root w f (watching.enclosed place outer bs x w) := by
  have hg := grows_enclose w.toPicture place outer
  have hlabel := label_enclose w.toPicture place outer
  have hm := hw.now.enclose houter hplace hopens hscope
  have hid : w.scopes < (w.toPicture.enclose place outer).scopes := by
    rw [scopes_enclose]
    exact Nat.lt_succ_self _
  obtain ⟨hm', hg'⟩ := hm.defineAll bs hid fun b hb => by
    rw [hlabel]
    exact ⟨(hbs b hb).1.mono hg, (hbs b hb).2⟩
  let w₁ : Watch := after (enclose place outer bs w)
  let w₂ : Watch := { w₁ with machine := { w₁.machine with scope := w.scopes } }
  have hg₂ : Grows w.toPicture w₂.toPicture :=
    (hg.trans hg').trans ⟨Nat.le_refl _, Nat.le_refl _, fun _ _ => rfl, fun _ _ => rfl⟩
  have hgood₂ : Good root w₂ := by
    refine ⟨hm'.mono ?_ rfl, hw.sights⟩
    exact ⟨Nat.le_refl _, Nat.le_refl _, fun _ _ => rfl, fun _ _ => rfl⟩
  have hhere : Here place w₂.toPicture := ⟨Nat.lt_of_lt_of_le hid hg'.scopes, hlabel⟩
  have h := hx w₂ hgood₂ hhere (List.forall_mem_nil _)
  show Kept root w f (leaving (update ({ · with scope := w.machine.scope })) (x w₂))
  exact h.leave hg₂ (fun _ => ⟨rfl, rfl⟩) rfl

theorem keeps_block (hplace : root.innermost place = some L)
    (hopens : root.opensAt place = true) (hx : Keeps root place [] x f) :
    Keeps root L vs (plain Eval.scope >>= fun outer => watching.enclosed place outer [] x) f := by
  intro w hw hL _
  refine kept_body hw hL.1 ?_ hopens ?_ (List.forall_mem_nil _) hx
  · rintro rfl
    cases hplace
  · exact hplace.trans (congrArg some hL.2.symm)

/-- A call runs the body of a function in a new scope inside its closure. -/
theorem keeps_apply {id : Nat} {d : Declaration} {closure : ScopeId} {args : List Value}
    {x : Place → Watching (Course Value)}
    (hf : .callable id (.function d closure) ∈ vs) (hargs : ∀ v ∈ args, v ∈ vs)
    (hx : ∀ place, root.part? place = some (.stmt (.function d.name d.params d.body)) →
      Keeps root place [] (x place) f) :
    Keeps root L vs (watching.applied id d closure args x) f := by
  intro w hw _ hvs
  obtain ⟨⟨-, hclosure⟩, hpart, hscope⟩ := hvs _ hf
  have hopens : root.opensAt (w.origin id) = true := by
    rw [Node.opensAt_eq hpart]
    rfl
  refine kept_body hw hclosure ?_ hopens hscope ?_ (hx _ hpart)
  · intro hnil
    rw [hnil] at hscope
    cases hscope
  · intro b hb
    refine ⟨hvs b.2 (hargs b.2 (List.of_mem_zip hb).2), ?_⟩
    simp only [Node.declaredAt, hpart, Option.map_some, Option.getD_some]
    exact List.mem_append_left _ (List.of_mem_zip hb).1

end Bodies

end Scoping

end Treewalk
