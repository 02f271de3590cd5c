import Treewalk.Proofs.Machine.Operator
import Treewalk.Proofs.Scoping.Keeps
import Treewalk.Proofs.Session.Reached

/-!
# Lexical scoping

In every state of every session of parsed programs the scopes of the machine mirror
the source: each statement and expression runs in the innermost scope around it,
whoever called the function it is in.

Results:

* `rules_watching`: every watched run keeps the mirror.
* `reached_watched`: the machine of a session is that of a watched one.
* `scopes_mirror_source`: all that is seen in a watched session mirrors its source.
-/
namespace Treewalk

namespace Scoping

variable {cfg : Setting} {ps : List Program}

/-! ## Runs -/

theorem closes_plain {v : Value} (h : v.Plain) (root : Node) (p : Picture) : Closes root p v := by
  cases v with
  | callable id c => exact h.elim
  | _ => trivial

/-- The node is at the place, and the innermost scope around it is that of `L`. -/
def PartIn (root : Node) (L place : Place) (node : Node) : Prop :=
  root.part? place = some node ∧ root.innermost place = some L

section Parts

variable {root node : Node} {L place : Place} {i : Nat}

/-- The parts of a part without a scope of its own have the same scope around them. -/
theorem PartIn.part {whole : Node} (h : PartIn root L place whole)
    (hopens : whole.opensScope = false) (hi : whole.parts[i]? = some node) :
    PartIn root L (i :: place) node := by
  constructor
  · rw [Node.part?_cons h.1, hi]
  · rw [Node.innermost_cons_of_not (by rw [Node.opensAt_eq h.1, hopens]), h.2]

/-- Those of a part with a scope have that one around them. -/
theorem partIn_body {whole : Node} (h : root.part? place = some whole)
    (hopens : whole.opensScope = true) {body : List Stmt} (hbody : whole.parts = body.map .stmt) :
    Instrument.Body (PartIn root) place place 0 body := by
  intro k s hk
  refine ⟨?_, Node.innermost_cons_of_opens (by rw [Node.opensAt_eq h, hopens])⟩
  rw [Node.part?_cons h, hbody]
  simp [hk]

end Parts

/-- The value of an operator is known, or it is no callable. -/
theorem keeps_operator {root : Node} {L : Place} {vs : List Value} {r : Except Stop Value}
    (h : ∀ v, r = .ok v → v ∈ vs ∨ v.Plain) :
    Keeps root L vs (watching.held (Eval.ofExcept r)) ([·]) := by
  refine keeps_bind (keeps_ofExcept fun v hv => ?_) fun v => keeps_pure fun u hu => .inl ?_
  · exact (h v hv).imp_right fun hplain => closes_plain hplain root
  · exact List.mem_append_left _ hu

theorem sequential_keeps (root : Node) :
    watching.Sequential (fun L vs _ _ f _ x _ => Keeps root L vs x f) where
  bind := keeps_bind
  pure h := keeps_pure fun v hv => (h v hv).imp_right fun hnil p => by subst hnil; trivial

/-- Whatever is run, in the innermost scope around it, keeps the mirror. -/
theorem rules_watching (hr : (Node.session ps).Regular) (cfg : Setting) :
    watching.Rules (PartIn (.session ps))
      (fun L vs _ _ f _ x _ => Keeps (.session ps) L vs x f) cfg cfg where
  exprPart h hi := h.part rfl (by simp [Node.parts, hi])
  stmtPart h hopens hi := h.part hopens hi
  toSequential := sequential_keeps _
  outOfFuel := keeps_outOfFuel
  atExpr h hx := keeps_seen h.1 h.2 hx
  atStmt h hx := keeps_seen h.1 h.2 hx
  atCall _ _ hx := hx
  literal {_ _ _ l} _ := keeps_pure fun v hv => .inr fun p => by
    obtain rfl := List.mem_singleton.mp hv
    cases l <;> trivial
  unary _ _ := keeps_operator fun v hv => .inr (unary_plain hv)
  binary _ _ hr := keeps_operator fun v hv => (binary_plain hv).imp_left fun h => by
    rw [h]
    exact hr
  ternary _ h h' := (sequential_keeps _).branches_alone _ _ _ _ h h'
  name _ := keeps_get _
  assign _ hv := keeps_assign _ hv
  notCallable _ := keeps_fault _ _
  badArity _ _ := keeps_fault _ _
  activate _ _ _ _ hx := keeps_activate _ _ hx
  clock := keeps_bind (keeps_readClock _) fun v => keeps_pure fun u hu =>
    .inl (List.mem_append_left _ hu)
  apply {_ vs v id d closure args _ _} hv hf hargs hx := by
    obtain rfl : v = .callable id (.function d closure) := hf
    exact keeps_apply hv hargs fun place h => hx place place (partIn_body h rfl rfl)
  print := keeps_printLine _
  define h hname hv := keeps_define
    (hv.imp_right fun hnil p => by subst hnil; trivial) (Node.declares_mem hr h.1 hname h.2)
  close h := keeps_close h.1 h.2
  block {_ _ place _ _ _} h hx := by
    have hopens : (Node.session ps).opensAt place = true := by
      rw [Node.opensAt_eq h.1]
      rfl
    exact keeps_block h.2 hopens (hx place (partIn_body h.1 rfl rfl))

theorem keeps_input (hr : (Node.session ps).Regular) {n : Nat} {input : Input}
    (h : ps[n]? = some input.program) :
    Keeps (.session ps) [] [] (input.runWith cfg watching n) fun _ => [] := by
  have hn : PartIn (.session ps) [] [n] (.program input.program) := by
    refine ⟨?_, rfl⟩
    show (ps.map Node.program)[n]? = _
    rw [List.getElem?_map, h]
    rfl
  refine rules_input (rules_watching hr cfg) fun k s hk => hn.part rfl ?_
  simp [Node.parts, hk]

/-! ## Sessions -/

theorem sessionSource_regular (inputs : List Input) : (sessionSource inputs).Regular := by
  intro p hp
  obtain ⟨input, -, rfl⟩ := List.mem_map.mp hp
  exact parse_regular input.parsed

/-- Before the first input there are only the globals, with the native function. -/
theorem good_initial : Good (.session ps) .initial := by
  let p : Picture := { Watch.initial.toPicture with
    machine := { Machine.initial with store := Store.empty.root.2 } }
  have hscopes : p.scopes = 1 := rfl
  have honly : ∀ id < p.scopes, id = Machine.globals := fun id hid => Nat.lt_one_iff.mp hid
  have hbound : ∀ id name v, p.machine.store.bound? id name ≠ some v := by
    intro id name v hv
    obtain rfl := honly id (p.machine.store.lt_of_bound? id name hv)
    cases hv
  have hempty : Mirrors (.session ps) p := by
    refine ⟨⟨Nat.one_pos, fun id hid => ?_⟩, fun id _ => rfl, ?_, ?_, ?_, ?_⟩
    · exact ⟨fun _ => honly id hid, fun _ => rfl⟩
    · intro id hid outer houter
      obtain rfl := honly id hid
      obtain rfl := List.mem_singleton.mp houter
      exact hid
    · intro id hid
      obtain rfl := honly id hid
      rfl
    · exact fun id name v hv => absurd hv (hbound id name v)
    · exact fun id name v hv => absurd hv (hbound id name v)
  exact ⟨hempty.define Nat.one_pos trivial fun h => absurd rfl h, List.forall_mem_nil _⟩

/-- Each input keeps the mirror, so all of them do. -/
theorem good_watchFrom (hr : (Node.session ps).Regular) {w : Watch} {i : Nat} {inputs : List Input}
    (h : Numbered (fun n input => ps[n]? = some input.program) i inputs)
    (hw : Good (.session ps) w) (hL : Here [] w.toPicture) :
    Good (.session ps) (watchFrom cfg w i inputs) := by
  induction inputs generalizing w i with
  | nil => exact hw
  | cons input inputs ih =>
    have hkept : Kept _ _ _ (input.runWith cfg watching i w) :=
      keeps_input hr h.head w hw hL (List.forall_mem_nil _)
    exact ih h.tail hkept.good (hL.mono hkept.grows hkept.scope)

theorem good_watchSession (cfg : Setting) (inputs : List Input) :
    Good (sessionSource inputs) (watchSession cfg inputs) := by
  refine good_watchFrom (sessionSource_regular inputs) (fun k input hk => ?_) good_initial
    ⟨Nat.one_pos, rfl⟩
  dsimp only
  rw [Nat.zero_add, List.getElem?_map, hk]
  rfl

/-- The machine of a session is that of a watched one. -/
theorem reached_watched {s : Session} (h : s.Reached cfg) :
    ∃ inputs, (watchSession cfg inputs).machine = s.machine := by
  -- A step adds its program to the inputs if it runs it.
  have hstep : ∀ {s t : Session} {r : Report} {source : String} {action : Program → Eval Unit}
      (input : ∀ p, parse (scan source).tokens = .ok p → Input),
      (∀ p hp, (input p hp).run cfg = action p) →
      (∃ inputs, (watchSession cfg inputs).machine = s.machine) →
      s.step action source = some (r, t) →
      ∃ inputs, (watchSession cfg inputs).machine = t.machine := by
    rintro s t r source action input hinput ⟨inputs, hs⟩ hrun
    rcases step_machine hrun with ht | ⟨p, hp, ht⟩
    · exact ⟨inputs, hs.trans ht.symm⟩
    · have hparsed := (analyze_eq.mp hp).2
      refine ⟨inputs ++ [input p hparsed], ?_⟩
      rw [watchSession, machine_watchFrom] at hs
      rw [watchSession, machine_watchFrom, List.foldl_append, hs, ht, List.foldl_cons,
        List.foldl_nil, hinput]
  induction h with
  | initial => exact ⟨[], rfl⟩
  | @run s t fuel source r _ hrun ih =>
    exact hstep (fun p hp => ⟨_, p, hp, false, fuel⟩) (fun _ _ => rfl) ih hrun
  | @runLine s t fuel source r _ hrun ih =>
    exact hstep (fun p hp => ⟨_, p, hp, true, fuel⟩) (fun _ _ => rfl) (s := s.reset) ih hrun

/-- All pictures of a watched session: those of its sights and the last one. -/
def Watch.pictures (w : Watch) : List Picture := w.toPicture :: w.sights.map Sight.picture

theorem Good.pictures {root : Node} {w : Watch} (h : Good root w) :
    ∀ p ∈ w.pictures, Mirrors root p := by
  intro p hp
  rcases List.mem_cons.mp hp with rfl | hp
  · exact h.now
  · obtain ⟨s, hs, rfl⟩ := List.mem_map.mp hp
    exact (h.sights s hs).picture

theorem Mirrors.depth {root : Node} {p : Picture} (h : Mirrors root p) {id : ScopeId}
    (hid : id < p.scopes) :
    p.machine.store.depth id = 1 + (root.enclosing (p.label id)).length := by
  have := congrArg List.length (h.chain id hid)
  rw [List.length_map, List.length_cons] at this
  rw [Store.depth]
  omega

/-- The scopes around every scope are labelled with the blocks and function bodies that
enclose its own label, out to the globals; a scope binds only names that its block or
function body declares directly; every function closes over the innermost scope around
its declaration; and whatever is run is run in the innermost scope around it. -/
theorem scopes_mirror_source (cfg : Setting) :
    (∀ s : Session, s.Reached cfg → ∃ inputs, (watchSession cfg inputs).machine = s.machine) ∧
    ∀ inputs : List Input,
      (watchSession cfg inputs).machine =
        inputs.foldl (fun m input => after (input.run cfg m)) Machine.initial ∧
      (∀ p ∈ (watchSession cfg inputs).pictures,
        (∀ id < p.scopes,
          ((p.label id = [] ↔ id = Machine.globals) ∧
            (sessionSource inputs).opensAt (p.label id) = true) ∧
          (p.machine.store.chain id).map p.label =
            p.label id :: (sessionSource inputs).enclosing (p.label id) ∧
          ((p.machine.store.chain id).map p.label).getLast? = some [] ∧
          p.machine.store.depth id =
            1 + ((sessionSource inputs).enclosing (p.label id)).length ∧
          (id ≠ Machine.globals → ∀ name v, p.machine.store.bound? id name = some v →
            name ∈ (sessionSource inputs).declaredAt (p.label id))) ∧
        ∀ id name v, p.machine.store.bound? id name = some v →
          Closes (sessionSource inputs) p v) ∧
      ∀ s ∈ (watchSession cfg inputs).sights,
        (sessionSource inputs).part? s.place = some s.part ∧
        (sessionSource inputs).innermost s.place =
          some (s.picture.label s.picture.machine.scope) ∧
        ∀ v ∈ s.values, Closes (sessionSource inputs) s.picture v := by
  refine ⟨fun s => reached_watched, fun inputs => ⟨machine_watchFrom cfg _ 0 inputs, ?_, ?_⟩⟩
  · intro p hp
    have hm := (good_watchSession cfg inputs).pictures p hp
    refine ⟨fun id hid => ⟨⟨hm.globals.2 id hid, hm.opens id hid⟩, hm.chain id hid, ?_,
      hm.depth hid, fun hne name v hv => hm.bound id name v hv hne⟩, hm.closes⟩
    rw [hm.chain id hid]
    exact Node.getLast_enclosing _
  · intro s hs
    have hm := (good_watchSession cfg inputs).sights s hs
    exact ⟨hm.part, hm.innermost, hm.values⟩

end Scoping

end Treewalk
