import Treewalk.Proofs.Identity.Trace
import Treewalk.Proofs.Machine.Operator

/-!
# Identity of callables

Every callable that code holds is the one that its origin made: the native function, or the
callable that the execution of a function declaration made when it happened. Each execution
makes a callable with a number of its own, so callables are equal exactly if they stem from
the same execution, however often they were copied since.

Results:

* `rules_tracing`: traced runs keep every value explained by its origin.
* `callables_equal_iff_same_origin`: equality of callables in all states of all sessions.
-/
namespace Treewalk

theorem Store.bound?_define_eq_some {s : Store} {id d : ScopeId} {name other : String}
    {v w : Value} (h : (s.define id name v).bound? d other = some w) :
    (d = id ∧ other = name) ∧ w = v ∨ ¬ (d = id ∧ other = name) ∧ s.bound? d other = some w := by
  have hsize := Store.lt_of_bound? _ d other h
  rw [Store.size_define] at hsize
  by_cases hsame : d = id ∧ other = name
  · rw [hsame.1] at hsize
    rw [Store.bound?_define _ _ _ _ _ _ hsize, if_pos hsame] at h
    exact .inl ⟨hsame, (Option.some.inj h).symm⟩
  · refine .inr ⟨hsame, ?_⟩
    by_cases hid : id < s.scopes.size
    · rwa [Store.bound?_define _ _ _ _ _ _ hid, if_neg hsame] at h
    · -- A scope that does not exist binds nothing.
      have hne : id ≠ d := fun e => hid (e ▸ hsize)
      rw [← h]
      simp [Store.bound?, Store.define, Array.getElem?_modify, hne]

namespace Identity

open Noting Tracing Scoping

/-! ## What an origin makes -/

/-- The number of the callable that stems from an origin. -/
def Origin.number : Origin → Nat
  | .clock => 0
  | .execution n => n + 1

theorem Origin.number_inj {o o' : Origin} (h : o.number = o'.number) : o = o' := by
  cases o <;> cases o' <;> simp_all [Origin.number]

namespace Snapshot

/-- The callable that stems from an origin. -/
def made (p : Snapshot) : Origin → Option Value
  | .clock => some (.callable 0 .clock)
  | .execution n => p.executions[n]?.map fun x => .callable (n + 1) (.function x.1 x.2)

/-- A callable is the one that its origin has made; other values have no origin. -/
def Explains (p : Snapshot) (h : Held) : Prop :=
  match h.origin with
  | some o => p.made o = some h.value
  | none => h.value.Plain

/-- Callables are numbered as they are made, and the variables hold what they should. -/
structure Sound (p : Snapshot) : Prop where
  created : p.machine.created = p.executions.length + 1
  bindings : ∀ id name v, p.machine.store.bound? id name = some v →
    p.Explains ⟨v, p.origins id name⟩

variable {p p' : Snapshot} {h : Held} {o : Origin} {v : Value}

theorem made_mono (hp : p.executions <+: p'.executions) (hv : p.made o = some v) :
    p'.made o = some v := by
  cases o with
  | clock => exact hv
  | execution n =>
    obtain ⟨x, hx, rfl⟩ := Option.map_eq_some_iff.mp hv
    have hlt : n < p.executions.length := (List.getElem?_eq_some_iff.mp hx).1
    obtain ⟨more, hmore⟩ := hp
    simp [made, ← hmore, List.getElem?_append_left hlt, hx]

theorem Explains.mono (hh : p.Explains h) (hp : p.executions <+: p'.executions) :
    p'.Explains h := by
  unfold Explains at hh ⊢
  split at hh
  · exact made_mono hp hh
  · exact hh

theorem made_callable (hv : p.made o = some v) : ∃ c, v = .callable o.number c := by
  cases o with
  | clock => exact ⟨.clock, (Option.some.inj hv).symm⟩
  | execution n =>
    obtain ⟨x, -, rfl⟩ := Option.map_eq_some_iff.mp hv
    exact ⟨_, rfl⟩

/-- What different origins make is different. -/
theorem made_beq {o' : Origin} {w : Value} (hv : p.made o = some v) (hw : p.made o' = some w) :
    (v == w) = true ↔ o = o' := by
  obtain ⟨c, rfl⟩ := made_callable hv
  obtain ⟨d, rfl⟩ := made_callable hw
  have hbeq : (Value.callable o.number c == .callable o'.number d) = (o.number == o'.number) := rfl
  rw [hbeq, beq_iff_eq]
  exact ⟨Origin.number_inj, fun h => congrArg _ h⟩

/-- A callable has an origin that made it. -/
theorem Explains.callable (hh : p.Explains h) {id : Nat} {c : Callable}
    (hc : h.value = .callable id c) : ∃ o, h.origin = some o ∧ p.made o = some h.value := by
  unfold Explains at hh
  split at hh
  · exact ⟨_, ‹_›, hh⟩
  · rw [hc] at hh
    exact hh.elim

theorem Explains.made (hh : p.Explains h) (ho : h.origin = some o) : p.made o = some h.value := by
  simpa [Explains, ho] using hh

/-- Code keeps all explanations when only executions are added and no variable changes. -/
theorem Sound.mono (hp : p.Sound) (hgrows : p.executions <+: p'.executions)
    (hcreated : p'.machine.created = p'.executions.length + 1)
    (hbound : ∀ id name, p'.machine.store.bound? id name = p.machine.store.bound? id name)
    (horigins : p'.origins = p.origins) : p'.Sound := by
  refine ⟨hcreated, fun id name v hv => ?_⟩
  rw [hbound] at hv
  rw [horigins]
  exact (hp.bindings id name v hv).mono hgrows

end Snapshot

/-- At every sight each value was explained by its origin, and no execution is ever forgotten. -/
structure Trace.Sound (w : Trace) : Prop where
  now : w.toSnapshot.Sound
  sights : ∀ s ∈ w.sights, s.toSnapshot.Sound ∧ s.executions <+: w.executions ∧
    ∀ h ∈ s.values, s.Explains h

namespace Trace.Sound

variable {w : Trace}

theorem look (hw : w.Sound) {values : List Held} (hvs : ∀ h ∈ values, w.Explains h) :
    (w.look values).Sound := by
  refine ⟨hw.now, fun s hs => ?_⟩
  rcases List.mem_cons.mp hs with rfl | hs
  · exact ⟨hw.now, List.prefix_refl _, hvs⟩
  · exact hw.sights s hs

theorem define (hw : w.Sound) (id : ScopeId) (name : String) {h : Held} (hh : w.Explains h) :
    (w.define id name h).Sound := by
  refine ⟨⟨hw.now.created, fun d other v hv => ?_⟩, hw.sights⟩
  have hgrows : w.executions <+: (w.define id name h).executions := List.prefix_refl _
  rcases Store.bound?_define_eq_some hv with ⟨hsame, rfl⟩ | ⟨hother, hv⟩
  · simp only [Trace.define, hsame.1, hsame.2, and_self, if_true]
    exact hh.mono hgrows
  · simp only [Trace.define, hother, if_false]
    exact (hw.now.bindings d other v hv).mono hgrows

theorem defineAll (hw : w.Sound) (id : ScopeId) {bs : List (String × Held)}
    (hbs : ∀ b ∈ bs, w.Explains b.2) :
    (w.defineAll id bs).Sound ∧ w.executions <+: (w.defineAll id bs).executions := by
  induction bs generalizing w with
  | nil => exact ⟨hw, List.prefix_refl _⟩
  | cons b bs ih =>
    obtain ⟨hb, hbs⟩ := List.forall_mem_cons.mp hbs
    exact ih (hw.define id b.1 hb) fun c hc => (hbs c hc).mono (List.prefix_refl _)

/-- Parts of the machine that hold no value may change. -/
theorem mono (hw : w.Sound) {m : Machine} (hcreated : m.created = w.machine.created)
    (hbound : ∀ id name, m.store.bound? id name = w.machine.store.bound? id name) :
    ({ w with machine := m } : Trace).Sound :=
  ⟨hw.now.mono (List.prefix_refl _) (hcreated.trans hw.now.created) hbound rfl, hw.sights⟩

end Trace.Sound

/-! ## Rules for computations -/

/-- What a computation that started with `w` kept; `f` are the values in its result. -/
structure Kept {α : Type} (w : Trace) (f : α → List Held) (r : EStateM.Result Stop Trace α) :
    Prop where
  sound : (after r).Sound
  grows : w.executions <+: (after r).executions
  values : ∀ a w', r = .ok a w' → ∀ h ∈ f a, w'.Explains h

/-- Started with the values `hs` explained, the computation keeps all values explained. -/
def Keeps {α : Type} (hs : List Held) (x : Tracing α) (f : α → List Held) : Prop :=
  ∀ w : Trace, w.Sound → (∀ h ∈ hs, w.Explains h) → Kept w f (x w)

section Rules

variable {α β : Type} {hs : List Held} {f : α → List Held} {g : β → List Held}

/-- A computation that stops has no values in its result. -/
theorem Kept.stopped {w w₁ : Trace} {e : Stop} (hsound : w₁.Sound)
    (hgrows : w.executions <+: w₁.executions) : Kept w f (.error e w₁) :=
  ⟨hsound, hgrows, fun _ _ h => nomatch h⟩

theorem keeps_bind {x : Tracing α} {k : α → Tracing β} (hx : Keeps hs x f)
    (hk : ∀ a, Keeps (f a ++ hs) (k a) g) : Keeps hs (x >>= k) g := by
  intro w hw hhs
  have h := hx w hw hhs
  cases hxw : x w with
  | ok a w₁ =>
    rw [hxw] at h
    rw [bind_of_ok hxw]
    have hknown : ∀ v ∈ f a ++ hs, w₁.Explains v := by
      intro v hv
      rcases List.mem_append.mp hv with hv | hv
      · exact h.values a w₁ rfl v hv
      · exact (hhs v hv).mono h.grows
    have h' := hk a w₁ h.sound hknown
    exact ⟨h'.sound, h.grows.trans h'.grows, h'.values⟩
  | error e w₁ =>
    rw [hxw] at h
    rw [bind_of_error hxw]
    exact .stopped h.sound h.grows

/-- A value that is known already, or that is no callable. -/
def Known (hs : List Held) (h : Held) : Prop := h ∈ hs ∨ h.origin = none ∧ h.value.Plain

theorem Known.explains {h : Held} (hh : Known hs h) {w : Trace} (hhs : ∀ h ∈ hs, w.Explains h) :
    w.Explains h := by
  rcases hh with hh | ⟨hnone, hplain⟩
  · exact hhs h hh
  · simp only [Snapshot.Explains, hnone]
    exact hplain

theorem keeps_pure {a : α} (h : ∀ v ∈ f a, Known hs v) : Keeps hs (pure a) f := by
  intro w hw hhs
  refine ⟨hw, List.prefix_refl _, fun b w' hb v hv => ?_⟩
  cases hb
  exact (h v hv).explains hhs

/-- A computation that makes no callable and changes no variable. -/
theorem keeps_plain {x : Eval α}
    (hx : ∀ m, (after (x m)).store = m.store ∧ (after (x m)).created = m.created) :
    Keeps hs (plain x) fun _ => [] := by
  intro w hw _
  obtain ⟨hstore, hcreated⟩ := hx w.machine
  have hkept : ∀ m, m.store = w.machine.store → m.created = w.machine.created →
      ({ w with machine := m } : Trace).Sound := fun m hstore hcreated =>
    hw.mono hcreated fun id name => by rw [hstore]
  cases hr : x w.machine with
  | ok a m =>
    rw [hr] at hstore hcreated
    rw [plain_ok hr]
    exact ⟨hkept m hstore hcreated, List.prefix_refl _, fun _ _ _ => List.forall_mem_nil _⟩
  | error e m =>
    rw [hr] at hstore hcreated
    rw [plain_error hr]
    exact .stopped (hkept m hstore hcreated) (List.prefix_refl _)

/-- A plain computation whose result becomes a value that is held. -/
theorem keeps_held {x : Eval Value} {k : Value → Held}
    (hx : ∀ m, (after (x m)).store = m.store ∧ (after (x m)).created = m.created)
    (hk : ∀ m v m', x m = .ok v m' → Known hs (k v)) :
    Keeps hs (plain x >>= fun v => pure (k v)) fun h => [h] := by
  intro w hw hhs
  have h : Kept w (fun _ => []) (plain x w) := keeps_plain hx w hw hhs
  cases hr : x w.machine with
  | ok v m =>
    have hplain : plain x w = .ok v { w with machine := m } := plain_ok hr
    rw [hplain] at h
    rw [bind_of_ok hplain]
    refine ⟨h.sound, h.grows, fun a w' ha u hu => ?_⟩
    cases ha
    obtain rfl := List.mem_singleton.mp hu
    exact ((hk _ v m hr).explains hhs).mono h.grows
  | error e m =>
    have hplain : plain x w = .error e { w with machine := m } := plain_error hr
    rw [hplain] at h
    rw [bind_of_error hplain]
    exact .stopped h.sound h.grows

theorem keeps_stop {x : Eval α} (hx : ∀ m, ∃ e, x m = .error e m) : Keeps hs (plain x) f := by
  intro w hw _
  obtain ⟨e, he⟩ := hx w.machine
  rw [plain_error he]
  exact .stopped hw (List.prefix_refl _)

theorem keeps_seen {held : List Held} {x : Tracing α} (hheld : ∀ h ∈ held, h ∈ hs)
    (hx : Keeps hs x f) : Keeps hs (seen Trace.look held f x) f := by
  intro w hw hhs
  have h := hx (w.look held) (hw.look fun v hv => hhs v (hheld v hv)) hhs
  unfold seen
  cases hr : x (w.look held) with
  | ok a w₁ =>
    rw [hr] at h
    refine ⟨h.sound.look (h.values a w₁ rfl), h.grows, fun b w' hb => ?_⟩
    cases hb
    exact h.values a w₁ rfl
  | error e w₁ =>
    rw [hr] at h
    exact .stopped (h.sound.look (List.forall_mem_nil _)) h.grows

theorem keeps_get (t : Token) : Keeps hs (get t) fun h => [h] := by
  intro w hw _
  unfold Tracing.get Store.get
  rw [Store.lookup_eq_owner]
  cases ho : w.machine.store.owner? w.machine.scope t.lexeme with
  | none => exact .stopped hw (List.prefix_refl _)
  | some owner =>
    cases hb : w.machine.store.bound? owner t.lexeme with
    | none => simpa [hb] using .stopped hw (List.prefix_refl _)
    | some v =>
      simp only [Option.bind_some, hb]
      refine ⟨hw, List.prefix_refl _, fun a w' ha u hu => ?_⟩
      cases ha
      obtain rfl := List.mem_singleton.mp hu
      exact hw.now.bindings owner t.lexeme v hb

theorem keeps_assign (t : Token) {h : Held} (hh : Known hs h) :
    Keeps hs (assign t h) fun _ => [] := by
  intro w hw hhs
  unfold Tracing.assign
  cases w.machine.store.owner? w.machine.scope t.lexeme with
  | none => exact .stopped hw (List.prefix_refl _)
  | some owner =>
    exact ⟨hw.define owner t.lexeme (hh.explains hhs), List.prefix_refl _,
      fun _ _ _ => List.forall_mem_nil _⟩

theorem keeps_define (name : String) {h : Held} (hh : Known hs h) :
    Keeps hs (define name h) fun _ => [] := fun w hw hhs =>
  ⟨hw.define w.machine.scope name (hh.explains hhs), List.prefix_refl _,
    fun _ _ _ => List.forall_mem_nil _⟩

/-- The new callable gets the number that comes after those of all older ones. -/
theorem keeps_close (d : Declaration) : Keeps hs (close d) fun h => [h] := by
  intro w hw _
  have hgrows : w.executions <+: w.executions ++ [(d, w.machine.scope)] :=
    List.prefix_append _ _
  refine ⟨⟨hw.now.mono hgrows ?_ (fun _ _ => rfl) rfl, fun s hs => ?_⟩, hgrows, ?_⟩
  · simp [close, after, hw.now.created]
  · obtain ⟨hsound, hold, hvalues⟩ := hw.sights s hs
    exact ⟨hsound, hold.trans hgrows, hvalues⟩
  · intro h w' hok u hu
    cases hok
    obtain rfl := List.mem_singleton.mp hu
    simp [Snapshot.Explains, Snapshot.made, hw.now.created]

/-- A computation that starts on a machine with the same variables, and comes back to one. -/
theorem Kept.leave {w w₀ : Trace} {r : EStateM.Result Stop Trace α} {back : Machine → Machine}
    (h : Kept w₀ f r) (hgrows : w.executions <+: w₀.executions)
    (hback : ∀ m, (back m).store = m.store ∧ (back m).created = m.created) :
    Kept w f (leaving (update back) r) := by
  have hsound : ∀ w' : Trace, w'.Sound → ({ w' with machine := back w'.machine } : Trace).Sound :=
    fun w' hw' => hw'.mono (hback _).2 fun id name => by rw [(hback _).1]
  cases r with
  | ok a w₁ =>
    refine ⟨hsound w₁ h.sound, hgrows.trans h.grows, fun b w' hb => ?_⟩
    cases hb
    exact fun v hv => (h.values a w₁ rfl v hv).mono (List.prefix_refl _)
  | error e w₁ => exact .stopped (hsound w₁ h.sound) (hgrows.trans h.grows)

theorem keeps_activate (limit : Option Nat) (paren : Token) {x : Tracing α} (hx : Keeps hs x f) :
    Keeps hs (activate limit paren x) f := by
  intro w hw hhs
  let w₀ : Trace := { w with machine := w.machine.enter }
  have hw₀ : w₀.Sound := hw.mono rfl fun _ _ => rfl
  have h := hx w₀ hw₀ fun v hv => (hhs v hv).mono (List.prefix_refl _)
  unfold activate
  split
  · exact .stopped hw (List.prefix_refl _)
  · exact h.leave (List.prefix_refl _) fun _ => ⟨rfl, rfl⟩

/-- A body runs in a new scope that holds what it is given. -/
theorem keeps_body (place : Place) (outer : ScopeId) {bs : List (String × Held)}
    {x : Tracing (Course Held)} {f : Course Held → List Held} (hbs : ∀ b ∈ bs, b.2 ∈ hs)
    (hx : Keeps [] x f) : Keeps hs (tracing.enclosed place outer bs x) f := by
  intro w hw hhs
  let size := w.machine.store.scopes.size
  let w₁ : Trace :=
    { w with machine := { w.machine with store := (w.machine.store.enclose outer).2 } }
  let w₂ : Trace := w₁.defineAll size bs
  let w₃ : Trace := { w₂ with machine := { w₂.machine with scope := size } }
  have hw₁ : w₁.Sound := hw.mono rfl fun id name => Store.bound?_enclose ..
  have hknown : ∀ b ∈ bs, w₁.Explains b.2 := fun b hb =>
    (hhs b.2 (hbs b hb)).mono (List.prefix_refl _)
  obtain ⟨hw₂, hgrows⟩ := hw₁.defineAll size hknown
  have hw₃ : w₃.Sound := hw₂.mono rfl fun _ _ => rfl
  have h := hx w₃ hw₃ (List.forall_mem_nil _)
  show Kept w f (leaving (update ({ · with scope := w₂.machine.scope })) (x w₃))
  exact h.leave hgrows fun _ => ⟨rfl, rfl⟩

end Rules

/-! ## Runs -/

theorem keeps_outOfFuel {α : Type} {hs : List Held} {f : α → List Held} :
    Keeps hs (plain Eval.outOfFuel) f := keeps_stop fun _ => ⟨_, rfl⟩

theorem keeps_fault {α : Type} {hs : List Held} {f : α → List Held} (t : Token) (p : Fault) :
    Keeps hs (plain (Eval.fault t p)) f := keeps_stop fun _ => ⟨_, rfl⟩

theorem ofExcept_still (r : Except Stop Value) (m : Machine) :
    (after (Eval.ofExcept r m)).store = m.store ∧
      (after (Eval.ofExcept r m)).created = m.created := by
  cases r <;> exact ⟨rfl, rfl⟩

theorem ofExcept_eq_ok {r : Except Stop Value} {m m' : Machine} {v : Value}
    (h : Eval.ofExcept r m = .ok v m') : r = .ok v := by
  cases r <;> cases h
  rfl

/-- Of the operators only the comma passes a callable on. -/
theorem known_binary {hs : List Held} {op : Token} {l v : Value} {r : Held} (hr : r ∈ hs)
    (h : Value.binary op l r.value = .ok v) :
    Known hs ⟨v, if op.kind = .comma then r.origin else none⟩ := by
  split
  · rename_i hcomma
    rw [binary_comma hcomma h]
    exact .inl hr
  · rename_i hcomma
    exact .inr ⟨rfl, binary_plain_of_ne_comma hcomma h⟩

theorem known_of_held {hs : List Held} {h : Held} (hh : tracing.Known hs h) : Known hs h :=
  hh.imp_right fun hnil => by
    rw [hnil]
    exact ⟨rfl, trivial⟩

theorem sequential_keeps :
    tracing.Sequential (fun (_ : Unit) hs _ _ f _ x _ => Keeps hs x f) where
  bind := keeps_bind
  pure h := keeps_pure fun v hv => known_of_held (h v hv)

/-- Every run keeps all values explained. -/
theorem rules_tracing (cfg : Setting) :
    tracing.Rules Instrument.Anywhere (fun _ hs _ _ f _ x _ => Keeps hs x f) cfg cfg where
  exprPart _ _ := trivial
  stmtPart _ _ _ := trivial
  toSequential := sequential_keeps
  outOfFuel := keeps_outOfFuel
  atExpr _ hx := keeps_seen (List.forall_mem_nil _) hx
  atStmt _ hx := keeps_seen (List.forall_mem_nil _) hx
  atCall hf hargs hx := keeps_seen (List.forall_mem_cons.mpr ⟨hf, hargs⟩) hx
  literal {_ _ _ l} _ := by
    refine keeps_pure (List.forall_mem_singleton.mpr (.inr ⟨rfl, ?_⟩))
    cases l <;> trivial
  unary _ _ := keeps_held (ofExcept_still _) fun m v m' hv =>
    .inr ⟨rfl, unary_plain (ofExcept_eq_ok hv)⟩
  binary _ _ hr := keeps_held (ofExcept_still _) fun m v m' hv =>
    known_binary hr (ofExcept_eq_ok hv)
  ternary _ hx hy := sequential_keeps.branches_alone _ _ () _ hx hy
  name _ := keeps_get _
  assign _ hh := keeps_assign _ (.inl hh)
  notCallable _ := keeps_fault _ _
  badArity _ _ := keeps_fault _ _
  activate _ _ _ _ hx := keeps_activate _ _ hx
  clock := by
    refine keeps_held (x := Eval.readClock cfg) (fun _ => ⟨rfl, rfl⟩) fun m v m' hv => .inr ⟨rfl, ?_⟩
    cases hv
    trivial
  apply {_ _ _ id d closure args _ _} _ _ hargs hx := keeps_body [] closure
    (fun b hb => hargs b.2 (List.of_mem_zip hb).2) (hx () [] (Instrument.body_anywhere [] 0 d.body))
  print := keeps_plain (x := Eval.printLine _) fun _ => ⟨rfl, rfl⟩
  define _ _ hh := keeps_define _ (known_of_held hh)
  close _ := keeps_close _
  block {_ _ place body _ _} _ hx := by
    exact keeps_bind (keeps_plain (x := Eval.scope) fun _ => ⟨rfl, rfl⟩) fun outer =>
      keeps_body place outer (List.forall_mem_nil _)
        (hx () (Instrument.body_anywhere place 0 body))

/-! ## Sessions -/

theorem keeps_input (cfg : Setting) (input : Input) :
    Keeps [] (input.runWith cfg tracing 0) fun _ => [] :=
  rules_input (rules_tracing cfg) (Instrument.body_anywhere [0] 0 input.program)

/-- Before the first input only `clock` is bound. -/
theorem sound_initial : Trace.initial.Sound := by
  let w : Trace := { Trace.initial with
    machine := { Machine.initial with store := Store.empty.root.2 }
    origins := fun _ _ => none }
  have hw : w.Sound := by
    refine ⟨⟨rfl, fun id name v hv => ?_⟩, List.forall_mem_nil _⟩
    have hid : id < 1 := Store.lt_of_bound? _ id name hv
    obtain rfl := Nat.lt_one_iff.mp hid
    cases hv
  have hclock : w.Explains ⟨.callable 0 .clock, some .clock⟩ := rfl
  exact hw.define Machine.globals Callable.clock.name hclock

theorem sound_traceSession (cfg : Setting) (inputs : List Input) :
    (traceSession cfg inputs).Sound := by
  suffices h : ∀ w : Trace, w.Sound →
      (inputs.foldl (fun w input => after (input.runWith cfg tracing 0 w)) w).Sound from
    h .initial sound_initial
  induction inputs with
  | nil => exact fun w hw => hw
  | cons input inputs ih =>
    intro w hw
    have hkept : Kept w (fun _ => []) (input.runWith cfg tracing 0 w) :=
      keeps_input cfg input w hw (List.forall_mem_nil _)
    exact ih _ hkept.sound

namespace Trace

/-- All that was looked at in a session, and how it ended. -/
def snapshots (w : Trace) : List Snapshot := w.toSnapshot :: w.sights.map Sight.toSnapshot

/-- Code held the value at some moment of the session: in a variable, or as an argument or a
result. -/
def Holds (w : Trace) (h : Held) : Prop :=
  (∃ p ∈ w.snapshots, ∃ id name, p.machine.store.bound? id name = some h.value ∧
    p.origins id name = h.origin) ∨ ∃ s ∈ w.sights, h ∈ s.values

theorem Sound.explains {w : Trace} (hw : w.Sound) {h : Held} (hh : w.Holds h) : w.Explains h := by
  have hvariable : ∀ {p : Snapshot} {id name}, p.Sound → p.executions <+: w.executions →
      p.machine.store.bound? id name = some h.value → p.origins id name = h.origin →
      w.Explains h := by
    intro p id name hp hgrows hbound horigin
    have hexplains := (hp.bindings id name h.value hbound).mono hgrows
    rwa [horigin] at hexplains
  rcases hh with ⟨p, hp, id, name, hbound, horigin⟩ | ⟨s, hs, hmem⟩
  · rcases List.mem_cons.mp hp with rfl | hp
    · exact hvariable hw.now (List.prefix_refl _) hbound horigin
    · obtain ⟨s, hs, rfl⟩ := List.mem_map.mp hp
      obtain ⟨hsound, hgrows, -⟩ := hw.sights s hs
      exact hvariable hsound hgrows hbound horigin
  · obtain ⟨-, hgrows, hvalues⟩ := hw.sights s hs
    exact (hvalues h hmem).mono hgrows

end Trace

/-- In all states of all sessions callables are equal exactly if they have the same origin: the
native function, or one execution of a function declaration. So two executions of the same
declaration never make equal callables, equal callables have the same declaration and the
same closure, and a callable that is passed on is still the same value. -/
theorem callables_equal_iff_same_origin (cfg : Setting) :
    (∀ s : Session, s.Reached cfg → ∃ inputs, (traceSession cfg inputs).machine = s.machine) ∧
    ∀ inputs : List Input,
      (traceSession cfg inputs).machine =
        inputs.foldl (fun m input => after (input.run cfg m)) Machine.initial ∧
      ∀ a, (traceSession cfg inputs).Holds a →
        ((∃ id c, a.value = .callable id c) ↔ ∃ o, a.origin = some o) ∧
        (a.origin = some .clock → ∃ id, a.value = .callable id .clock) ∧
        (∀ n, a.origin = some (.execution n) → ∃ d closure id,
          (traceSession cfg inputs).executions[n]? = some (d, closure) ∧
          a.value = .callable id (.function d closure)) ∧
        ∀ b, (traceSession cfg inputs).Holds b →
          (∀ o, a.origin = some o → b.origin = some o → a.value = b.value) ∧
          ∀ i c j d, a.value = .callable i c → b.value = .callable j d →
            ((a.value == b.value) = true ↔ a.origin = b.origin) ∧
            ((a.value == b.value) = true → c = d) := by
  refine ⟨fun s hs => ?_, fun inputs => ⟨machine_traceSession cfg inputs, fun a ha => ?_⟩⟩
  · obtain ⟨inputs, hinputs⟩ := reached_watched hs
    refine ⟨inputs, ?_⟩
    rw [machine_traceSession, ← hinputs, watchSession, machine_watchFrom]
    rfl
  · have hw := sound_traceSession cfg inputs
    have hexplained := hw.explains ha
    refine ⟨⟨fun hcallable => ?_, fun horigin => ?_⟩, fun ho => ?_, fun n ho => ?_,
      fun b hb => ⟨fun o ho ho' => ?_, fun i c j d hc hd => ?_⟩⟩
    · obtain ⟨id, c, hc⟩ := hcallable
      obtain ⟨o, ho, -⟩ := hexplained.callable hc
      exact ⟨o, ho⟩
    · obtain ⟨o, ho⟩ := horigin
      obtain ⟨c, hc⟩ := Snapshot.made_callable (hexplained.made ho)
      exact ⟨_, c, hc⟩
    · exact ⟨0, (Option.some.inj (hexplained.made ho)).symm⟩
    · obtain ⟨⟨d, closure⟩, hexecuted, hv⟩ := Option.map_eq_some_iff.mp (hexplained.made ho)
      exact ⟨d, closure, n + 1, hexecuted, hv.symm⟩
    · have hmade := (hw.explains hb).made ho'
      rw [hexplained.made ho] at hmade
      exact Option.some.inj hmade
    · obtain ⟨o, ho, hmade⟩ := hexplained.callable hc
      obtain ⟨o', ho', hmade'⟩ := (hw.explains hb).callable hd
      have hiff := Snapshot.made_beq hmade hmade'
      refine ⟨?_, fun heq => ?_⟩
      · rw [hiff, ho, ho', Option.some.injEq]
      · rw [hiff.mp heq, hmade'] at hmade
        have hsame := Option.some.inj hmade
        rw [hc, hd] at hsame
        cases hsame
        rfl

/-- Two closures of one declaration, and a copy of the first one. -/
theorem callables_equal_iff_same_origin_twice :
    let cfg : Setting := { clock := fun _ => 0 }
    let source := "fun make() \x7b fun f() \x7b \x7d return f; \x7d " ++
      "var a = make(); var b = make(); var c = a;"
    ∃ input : Input, input.tokens = (scan source).tokens ∧
      let w := traceSession cfg [input]
      ∃ a b c : Held, w.Holds a ∧ w.Holds b ∧ w.Holds c ∧
        (a.origin = some (.execution 1) ∧ b.origin = some (.execution 2) ∧
          c.origin = some (.execution 1)) ∧
        (a.value == b.value) = false ∧ (a.value == c.value) = true := by
  intro cfg source
  have hparsed : ((parse (scan source).tokens).toOption.map fun p =>
      let w := after (tracing.interpret cfg 20 [0] 0 p .initial)
      ["a", "b", "c"].map fun name =>
        ((w.machine.store.bound? Machine.globals name).isSome, w.origins Machine.globals name)) =
      some [(true, some (.execution 1)), (true, some (.execution 2)),
        (true, some (.execution 1))] := by decide +kernel
  cases hp : parse (scan source).tokens with
  | error es =>
    rw [hp] at hparsed
    cases hparsed
  | ok p =>
    rw [hp] at hparsed
    let input : Input := ⟨_, p, hp, false, 20⟩
    simp only [Except.toOption, Option.map_some, Option.some.injEq, List.map_cons, List.map_nil,
      List.cons.injEq, Prod.mk.injEq, Option.isSome_iff_exists, and_true] at hparsed
    obtain ⟨⟨⟨u, hu⟩, ha⟩, ⟨⟨v, hv⟩, hb⟩, ⟨x, hx⟩, hc⟩ := hparsed
    refine ⟨input, rfl, ?_⟩
    intro w
    have hheld : ∀ {name value o}, w.machine.store.bound? Machine.globals name = some value →
        w.origins Machine.globals name = o → w.Holds ⟨value, o⟩ :=
      fun hbound horigin => .inl ⟨w.toSnapshot, .head _, Machine.globals, _, hbound, horigin⟩
    have hholds := hheld hu ha
    obtain ⟨-, hsessions⟩ := callables_equal_iff_same_origin cfg
    obtain ⟨⟨-, hcallable⟩, -, -, hothers⟩ := (hsessions [input]).2 _ hholds
    obtain ⟨i, f, hf⟩ := hcallable ⟨_, rfl⟩
    obtain ⟨⟨-, hcallable'⟩, -⟩ := (hsessions [input]).2 _ (hheld hv hb)
    obtain ⟨j, g, hg⟩ := hcallable' ⟨_, rfl⟩
    have hdifferent := ((hothers _ (hheld hv hb)).2 i f j g hf hg).1
    have hcopy := (hothers _ (hheld hx hc)).1 _ rfl rfl
    refine ⟨_, _, _, hholds, hheld hv hb, hheld hx hc, ⟨rfl, rfl, rfl⟩, ?_, ?_⟩
    · exact Bool.eq_false_iff.mpr fun heq => by cases hdifferent.mp heq
    · rw [← hcopy]
      exact ((hothers _ hholds).2 i f i f hf hf).1.mpr rfl

end Identity

end Treewalk
