import Treewalk.Proofs.Loops.Spare
import Treewalk.Proofs.Machine.Moves
import Treewalk.Proofs.Machine.Operator

/-!
# Running with scopes to spare

The same program does the same on two machines of which the first one has scopes to spare:
results, errors and output are the same, and afterwards the machines differ in those scopes
only. Code may even run in a scope to spare, as long as it binds nothing there.

Results:

* `sim_bind`: computations in sequence.
* `SimAt.all`: this holds of all that a program can do.
-/
namespace Treewalk

/-! ## Machines -/

/-- What a machine holds apart from its scopes. -/
def Machine.registers (m : Machine) : Array String × Nat × Nat × Nat × Nat :=
  (m.printed, m.created, m.depth, m.deepest, m.readings)

theorem Machine.registers_inj {m m' : Machine} (h : m'.registers = m.registers) :
    m'.printed = m.printed ∧ m'.created = m.created ∧ m'.depth = m.depth ∧
      m'.deepest = m.deepest ∧ m'.readings = m.readings := by
  simpa [Machine.registers] using h

/-- The second machine is the first one without the scopes to spare. -/
structure Padded (spare : ScopeId → Bool) (m m' : Machine) : Prop where
  registers : m'.registers = m.registers
  store : SlimStore spare m.store m'.store
  sees : Sees spare m.store m'.store m.scope m'.scope

/-- All scopes of the first machine are still there, and code runs in the same one. -/
structure Grown (m m₁ : Machine) : Prop where
  size : m.store.scopes.size ≤ m₁.store.scopes.size
  chain : ∀ i < m.store.scopes.size, m₁.store.chain i = m.store.chain i
  scope : m₁.scope = m.scope

theorem grown_moves : MachineMoves Grown where
  refl _ := ⟨Nat.le_refl _, fun _ _ => rfl, rfl⟩
  trans h h' := by
    refine ⟨Nat.le_trans h.size h'.size, fun i hi => ?_, h'.scope.trans h.scope⟩
    rw [h'.chain i (Nat.lt_of_lt_of_le hi h.size), h.chain i hi]
  print _ _ := ⟨Nat.le_refl _, fun _ _ => rfl, rfl⟩
  define m id name value := ⟨by simp, fun _ _ => by simp, rfl⟩
  create _ := ⟨Nat.le_refl _, fun _ _ => rfl, rfl⟩
  clock _ := ⟨Nat.le_refl _, fun _ _ => rfl, rfl⟩
  enclose m outer := ⟨by simp, fun i hi => m.store.chain_enclose_of_lt i outer hi, rfl⟩
  inScope _ _ _ h := ⟨h.size, h.chain, rfl⟩
  activate _ _ h := ⟨h.size, h.chain, h.scope⟩

theorem Grown.refl (m : Machine) : Grown m m := grown_moves.refl m

theorem Grown.trans {m m₁ m₂ : Machine} (h : Grown m m₁) (h' : Grown m₁ m₂) : Grown m m₂ :=
  grown_moves.trans h h'

/-! ## Results -/

/-- The machine in a new scope inside `outer` that holds the given bindings. -/
def Machine.within (m : Machine) (outer : ScopeId) (bs : List (String × Value)) : Machine :=
  { m with
    store := (m.store.enclose outer).2.defineAll m.store.scopes.size bs
    scope := m.store.scopes.size }

@[simp]
theorem Machine.size_within (m : Machine) (outer : ScopeId) (bs : List (String × Value)) :
    (m.within outer bs).store.scopes.size = m.store.scopes.size + 1 := by
  simp [Machine.within]

theorem enclose_inScope {α : Type} (outer : ScopeId) (bs : List (String × Value)) (x : Eval α)
    (m : Machine) :
    (do
      let id ← Eval.enclose outer bs
      Eval.inScope id x) m =
    leaving ({ · with scope := m.scope }) (x (m.within outer bs)) :=
  inScope_eq _ x _

/-- Results that hold values. -/
class Holds (α : Type) where
  slim : (ScopeId → Bool) → α → α
  values : α → List Value

instance : Holds Value := ⟨Value.slim, fun v => [v]⟩

instance : Holds (List Value) := ⟨fun spare vs => vs.map (Value.slim spare), id⟩

def Flow.slim (spare : ScopeId → Bool) : Flow → Flow
  | .normal => .normal
  | .returned v => .returned (v.slim spare)

def Flow.values : Flow → List Value
  | .normal => []
  | .returned v => [v]

instance : Holds Flow := ⟨Flow.slim, Flow.values⟩

instance : Holds Unit := ⟨fun _ => id, fun _ => []⟩

open Holds

section Sim

variable {α β : Type} [Holds α] [Holds β]

/-- What two runs, on `m` and on `m'`, have in common. -/
structure Matched (spare : ScopeId → Bool) (m m' : Machine)
    (r r' : EStateM.Result Stop Machine α) : Prop where
  ending : ending r' = (ending r).map (slim spare)
  padded : Padded spare (after r) (after r')
  grown : Grown m (after r)
  grown' : Grown m' (after r')
  fits : ∀ a, Treewalk.ending r = .ok a → ∀ v ∈ values a,
    v.Fits spare (after r).store.scopes.size

/-- The second computation does on the second machine what the first one does on the first,
in scope `i` of that and with the values `vs` known. -/
def Sim (spare : ScopeId → Bool) (i : ScopeId) (vs : List Value) (x y : Eval α) : Prop :=
  ∀ m m', Padded spare m m' → m.scope = i → (∀ v ∈ vs, v.Fits spare m.store.scopes.size) →
    Matched spare m m' (x m) (y m')

variable {spare : ScopeId → Bool} {i : ScopeId} {vs : List Value} {m m' : Machine}

/-- Both runs have a result, or both stop for the same reason. -/
theorem Matched.cases {r r' : EStateM.Result Stop Machine α} (h : Matched spare m m' r r') :
    (∃ a m₁ m₁', r = .ok a m₁ ∧ r' = .ok (slim spare a) m₁') ∨
      ∃ e m₁ m₁', r = .error e m₁ ∧ r' = .error e m₁' := by
  have hend := h.ending
  cases r with
  | ok a m₁ =>
    cases r' with
    | ok b m₁' =>
      obtain rfl : b = slim spare a := Except.ok.inj hend
      exact .inl ⟨a, m₁, m₁', rfl, rfl⟩
    | error e m₁' => cases hend
  | error e m₁ =>
    cases r' with
    | ok b m₁' => cases hend
    | error e' m₁' =>
      obtain rfl : e' = e := Except.error.inj hend
      exact .inr ⟨e', m₁, m₁', rfl, rfl⟩

/-- A run that goes on after another one. -/
theorem Matched.trans {m₁ m₁' : Machine} {r r' : EStateM.Result Stop Machine β}
    (h : Matched spare m₁ m₁' r r') (hg : Grown m m₁) (hg' : Grown m' m₁') :
    Matched spare m m' r r' :=
  ⟨h.ending, h.padded, hg.trans h.grown, hg'.trans h.grown', h.fits⟩

theorem sim_bind {x y : Eval α} {k k' : α → Eval β} (hx : Sim spare i vs x y)
    (hk : ∀ a, Sim spare i (values a ++ vs) (k a) (k' (slim spare a))) :
    Sim spare i vs (x >>= k) (y >>= k') := by
  intro m m' hm hi hvs
  have hfirst := hx m m' hm hi hvs
  rcases hfirst.cases with ⟨a, m₁, m₁', hr, hr'⟩ | ⟨e, m₁, m₁', hr, hr'⟩
  · rw [hr, hr'] at hfirst
    obtain ⟨-, hpadded, hgrown, hgrown', hfits⟩ := hfirst
    have hknown : ∀ v ∈ values a ++ vs, v.Fits spare m₁.store.scopes.size := by
      intro v hv
      rcases List.mem_append.mp hv with hv | hv
      · exact hfits a rfl v hv
      · exact (hvs v hv).mono hgrown.size
    rw [bind_of_ok hr, bind_of_ok hr']
    exact (hk a m₁ m₁' hpadded (hgrown.scope.trans hi) hknown).trans hgrown hgrown'
  · rw [hr, hr'] at hfirst
    rw [bind_of_error hr, bind_of_error hr']
    exact ⟨rfl, hfirst.padded, hfirst.grown, hfirst.grown', fun b hb => by cases hb⟩

/-- A result that does not change the machines. -/
theorem sim_still {x y : Eval α} (hx : ∀ m, after (x m) = m) (hy : ∀ m, after (y m) = m)
    (h : ∀ m m', Padded spare m m' → (∀ v ∈ vs, v.Fits spare m.store.scopes.size) →
      ending (y m') = (ending (x m)).map (slim spare) ∧
        ∀ a, ending (x m) = .ok a → ∀ v ∈ values a, v.Fits spare m.store.scopes.size) :
    Sim spare i vs x y := by
  intro m m' hm _ hvs
  obtain ⟨hend, hfits⟩ := h m m' hm hvs
  refine ⟨hend, ?_, ?_, ?_, ?_⟩
  · rw [hx, hy]
    exact hm
  · rw [hx]
    exact .refl m
  · rw [hy]
    exact .refl m'
  · rw [hx]
    exact hfits

/-- A value that closes over nothing, or that is among the given ones. -/
def Value.Known (vs : List Value) (v : Value) : Prop := v ∈ vs ∨ v.Plain

theorem Value.Known.fits {v : Value} (h : v.Known vs) {size : Nat}
    (hvs : ∀ v ∈ vs, v.Fits spare size) : v.Fits spare size := by
  rcases h with hv | hplain
  · exact hvs v hv
  · cases v with
    | callable id c => exact hplain.elim
    | _ => trivial

theorem sim_pure {a b : α} (hb : b = slim spare a) (h : ∀ v ∈ values a, v.Known vs) :
    Sim spare i vs (pure a) (pure b) := by
  refine sim_still (fun _ => rfl) (fun _ => rfl) fun m m' _ hvs => ⟨by rw [hb]; rfl, ?_⟩
  intro c hc v hv
  cases hc
  exact (h v hv).fits hvs

theorem sim_outOfFuel : Sim spare i vs (Eval.outOfFuel : Eval α) Eval.outOfFuel :=
  sim_still (fun _ => rfl) (fun _ => rfl) fun _ _ _ _ => ⟨rfl, fun _ h => by cases h⟩

theorem sim_fault (t : Token) (f : Fault) :
    Sim spare i vs (Eval.fault t f : Eval α) (Eval.fault t f) :=
  sim_still (fun _ => rfl) (fun _ => rfl) fun _ _ _ _ => ⟨rfl, fun _ h => by cases h⟩

/-! ## Values -/

section Values

variable (spare) (v w : Value)

@[simp]
theorem Value.truthy_slim : (v.slim spare).truthy = v.truthy := by
  cases v <;> rfl

@[simp]
theorem Value.text_slim : (v.slim spare).text = v.text := by
  cases v with
  | callable id c => cases c <;> rfl
  | _ => rfl

@[simp]
theorem Value.beq_slim : (v.slim spare == w.slim spare) = (v == w) := by
  cases v <;> cases w <;> rfl

@[simp]
theorem Value.shortCircuits_slim (op : Token) :
    (v.slim spare).shortCircuits op = v.shortCircuits op := by
  simp [Value.shortCircuits]

@[simp]
theorem Callable.arity_slim (c : Callable) : (c.slim spare).arity = c.arity := by
  cases c <;> rfl

theorem Value.unary_slim (op : Token) :
    Value.unary op (v.slim spare) = (Value.unary op v).map (Value.slim spare) := by
  unfold Value.unary
  rw [Value.truthy_slim]
  split
  · rfl
  · cases v <;> rfl
  · rfl

theorem Value.arithmetic_slim (op : Token) (a b : Float) :
    Value.arithmetic op a b = (Value.arithmetic op a b).map (Value.slim spare) := by
  unfold Value.arithmetic
  split <;> rfl

theorem Value.binary_slim (op : Token) :
    Value.binary op (v.slim spare) (w.slim spare) =
      (Value.binary op v w).map (Value.slim spare) := by
  unfold Value.binary
  rw [Value.beq_slim]
  split
  · rfl
  · rfl
  · rfl
  · cases v <;> cases w <;> rfl
  · cases v with
    | number a =>
      cases w with
      | number b => exact Value.arithmetic_slim spare op a b
      | _ => rfl
    | _ => cases w <;> rfl

end Values

/-! ## What a computation can do -/

theorem sim_ofExcept {r r' : Except Stop Value} (hr : r' = r.map (Value.slim spare))
    (hknown : ∀ u, r = .ok u → u.Known vs) :
    Sim spare i vs (Eval.ofExcept r) (Eval.ofExcept r') := by
  subst hr
  refine sim_still ?_ ?_ fun m m' _ hvs => ?_
  · intro m
    cases r <;> rfl
  · intro m
    cases r <;> rfl
  · cases r with
    | error e => exact ⟨rfl, fun a h => by cases h⟩
    | ok u =>
      refine ⟨rfl, fun a h v hv => ?_⟩
      cases h
      obtain rfl := List.mem_singleton.mp hv
      exact (hknown v rfl).fits hvs

theorem sim_get (t : Token) : Sim spare i vs (Eval.get t) (Eval.get t) := by
  have hstill : ∀ m, after (Eval.get t m) = m := by
    intro m
    unfold Eval.get
    split <;> rfl
  refine sim_still hstill hstill fun m m' hm _ => ?_
  have hlookup := hm.store.lookup hm.sees t.lexeme
  unfold Eval.get Store.get
  rw [hlookup]
  cases hv : m.store.lookup m.scope t.lexeme with
  | none => exact ⟨rfl, fun a h => by cases h⟩
  | some v =>
    refine ⟨rfl, fun a h u hu => ?_⟩
    cases h
    obtain rfl := List.mem_singleton.mp hu
    exact hm.store.fits_lookup hv

/-- Both machines bind a name. -/
theorem Padded.define (h : Padded spare m m') {o : ScopeId} (hlt : o < m.store.scopes.size)
    (ho : spare o = false) (name : String) {v : Value} (hv : v.Fits spare m.store.scopes.size) :
    Padded spare { m with store := m.store.define o name v }
      { m' with store := m'.store.define (rank spare o) name (v.slim spare) } where
  registers := h.registers
  store := h.store.define hlt ho hv
  sees := ⟨by simpa using h.sees.lt, by simpa using h.sees.chain⟩

theorem sim_assign (t : Token) {v : Value} (hv : v ∈ vs) :
    Sim spare i vs (Eval.assign t v) (Eval.assign t (v.slim spare)) := by
  intro m m' hm _ hvs
  have howner := hm.store.owner hm.sees t.lexeme
  unfold Eval.assign
  rw [howner]
  cases ho : m.store.owner? m.scope t.lexeme with
  | none => exact ⟨rfl, hm, .refl m, .refl m', fun a h => by cases h⟩
  | some o =>
    obtain ⟨hlt, hspare⟩ := hm.store.owner_not_spare ho
    exact ⟨rfl, hm.define hlt hspare _ (hvs v hv), grown_moves.define m _ _ _,
      grown_moves.define m' _ _ _, fun a _ u hu => by cases hu⟩

/-- The scope that code runs in, unless it is one to spare. -/
theorem Padded.scope_eq (h : Padded spare m m') (hi : spare m.scope = false) :
    m'.scope = rank spare m.scope := h.sees.rank_eq hi

theorem sim_define (hi : spare i = false) (name : String) {v : Value} (hv : v.Known vs) :
    Sim spare i vs (Eval.define name v) (Eval.define name (v.slim spare)) := by
  intro m m' hm hscope hvs
  subst hscope
  have hdefine := hm.define hm.sees.lt hi name (hv.fits hvs)
  rw [← hm.scope_eq hi] at hdefine
  exact ⟨rfl, hdefine, grown_moves.define m _ _ _, grown_moves.define m' _ _ _,
    fun a _ u hu => by cases hu⟩

theorem sim_close (hi : spare i = false) (d : Declaration) :
    Sim spare i vs (Eval.close d) (Eval.close d) := by
  intro m m' hm hscope _
  subst hscope
  obtain ⟨hprinted, hcreated, hdepth, hdeepest, hreadings⟩ := Machine.registers_inj hm.registers
  refine ⟨?_, ⟨?_, hm.store, hm.sees⟩, grown_moves.create m, grown_moves.create m', ?_⟩
  · simp [Eval.close, Treewalk.ending, Except.map, slim, Value.slim, Callable.slim, hcreated,
      hm.scope_eq hi]
  · simp [Eval.close, after, Machine.registers, hprinted, hcreated, hdepth, hdeepest, hreadings]
  · intro a h v hv
    cases h
    obtain rfl := List.mem_singleton.mp hv
    exact ⟨hm.sees.lt, hi⟩

theorem sim_printLine (line : String) :
    Sim spare i vs (Eval.printLine line) (Eval.printLine line) := by
  intro m m' hm _ _
  obtain ⟨hprinted, hcreated, hdepth, hdeepest, hreadings⟩ := Machine.registers_inj hm.registers
  refine ⟨rfl, ⟨?_, hm.store, hm.sees⟩, grown_moves.print m _, grown_moves.print m' _, ?_⟩
  · simp [Eval.printLine, after, Machine.registers, hprinted, hcreated, hdepth, hdeepest,
      hreadings]
  · intro a _ u hu
    cases hu

theorem sim_readClock (cfg : Setting) :
    Sim spare i vs (Eval.readClock cfg) (Eval.readClock cfg) := by
  intro m m' hm _ _
  obtain ⟨hprinted, hcreated, hdepth, hdeepest, hreadings⟩ := Machine.registers_inj hm.registers
  refine ⟨?_, ⟨?_, hm.store, hm.sees⟩, grown_moves.clock m, grown_moves.clock m', ?_⟩
  · simp [Eval.readClock, Treewalk.ending, Except.map, slim, Value.slim, hreadings]
  · simp [Eval.readClock, after, Machine.registers, hprinted, hcreated, hdepth, hdeepest,
      hreadings]
  · intro a h v hv
    cases h
    obtain rfl := List.mem_singleton.mp hv
    trivial

theorem sim_activate (limit : Option Nat) (paren : Token) {x y : Eval α}
    (h : Sim spare i vs x y) :
    Sim spare i vs (Eval.activate limit paren x) (Eval.activate limit paren y) := by
  intro m m' hm hscope hvs
  obtain ⟨hprinted, hcreated, hdepth, hdeepest, hreadings⟩ := Machine.registers_inj hm.registers
  cases hlimit : limit.any (· ≤ m.depth) with
  | true =>
    have hlimit' : limit.any (· ≤ m'.depth) = true := by rwa [hdepth]
    rw [activate_full hlimit, activate_full hlimit']
    exact ⟨rfl, hm, .refl m, .refl m', fun a h => by cases h⟩
  | false =>
    have hlimit' : limit.any (· ≤ m'.depth) = false := by rwa [hdepth]
    rw [activate_eq hlimit, activate_eq hlimit']
    have henter : m'.enter.registers = m.enter.registers := by
      simp [Machine.registers, Machine.enter, hprinted, hcreated, hdepth, hdeepest, hreadings]
    have hinner := h m.enter m'.enter ⟨henter, hm.store, hm.sees⟩ hscope hvs
    generalize x m.enter = r at hinner ⊢
    generalize y m'.enter = r' at hinner ⊢
    obtain ⟨hprinted', hcreated', hdepth', hdeepest', hreadings'⟩ :=
      Machine.registers_inj hinner.padded.registers
    refine ⟨?_, ⟨?_, ?_, ?_⟩, ?_, ?_, ?_⟩
    · simpa using hinner.ending
    · simp [Machine.registers, Machine.leave, hprinted', hcreated', hdepth', hdeepest',
        hreadings']
    · simpa using hinner.padded.store
    · simpa using hinner.padded.sees
    · simpa using grown_moves.activate m _ hinner.grown
    · simpa using grown_moves.activate m' _ hinner.grown'
    · simpa using hinner.fits

/-! ## Scopes -/

/-- What is seen from an old scope does not change when new scopes are opened, to spare or
not. -/
theorem Sees.mono {o o' : ScopeId} (h : Sees spare m.store m'.store o o')
    (hstore : SlimStore spare m.store m'.store) {spare₁ : ScopeId → Bool}
    (hspare : ∀ k : Nat, k < m.store.scopes.size → spare₁ k = spare k) {m₁ m₁' : Machine}
    (hg : Grown m m₁) (hg' : Grown m' m₁') : Sees spare₁ m₁.store m₁'.store o o' where
  lt := Nat.lt_of_lt_of_le h.lt hg.size
  chain := by
    rw [hg.chain o h.lt, hg'.chain o' (hstore.lt_of_sees h), h.chain,
      slimChain_congr hspare (hstore.inside o h.lt)]

/-- Both machines come back to the scopes that they were in. -/
theorem Matched.leave {spare₁ : ScopeId → Bool} {n n' : Machine}
    {r r' : EStateM.Result Stop Machine α} (h : Matched spare₁ n n' r r') (hm : Padded spare m m')
    (hspare : ∀ k : Nat, k < m.store.scopes.size → spare₁ k = spare k)
    (hg : Grown m { after r with scope := m.scope })
    (hg' : Grown m' { after r' with scope := m'.scope }) :
    Matched spare₁ m m' (leaving ({ · with scope := m.scope }) r)
      (leaving ({ · with scope := m'.scope }) r') := by
  refine ⟨?_, ?_, ?_, ?_, ?_⟩
  · simpa using h.ending
  · rw [after_leaving, after_leaving]
    exact ⟨h.padded.registers, h.padded.store, hm.sees.mono hm.store hspare hg hg'⟩
  · rw [after_leaving]
    exact hg
  · rw [after_leaving]
    exact hg'
  · simpa using h.fits

/-- Bindings for the second machine. -/
def slimBindings (spare : ScopeId → Bool) (bs : List (String × Value)) : List (String × Value) :=
  bs.map fun b => (b.1, b.2.slim spare)

theorem Padded.defineAll {o : ScopeId} (ho : spare o = false) {bs : List (String × Value)}
    (h : Padded spare m m') (hlt : o < m.store.scopes.size)
    (hbs : ∀ b ∈ bs, b.2.Fits spare m.store.scopes.size) :
    Padded spare
      { m with store := m.store.defineAll o bs }
      { m' with store := m'.store.defineAll (rank spare o) (slimBindings spare bs) } := by
  induction bs generalizing m m' with
  | nil => exact h
  | cons b bs ih =>
    have hdefine := h.define hlt ho b.1 (hbs b (.head _))
    refine ih hdefine (by simpa using hlt) fun c hc => ?_
    simpa using hbs c (.tail _ hc)

/-- After something was run in a new scope, the machine is back in the old one. -/
theorem Grown.leave {outer : ScopeId} {bs : List (String × Value)} {m₁ : Machine}
    (h : Grown (m.within outer bs) m₁) : Grown m { m₁ with scope := m.scope } := by
  have hopen := grown_moves.trans (grown_moves.enclose m outer)
    (moves_defineAll grown_moves m.store.scopes.size bs _)
  refine ⟨Nat.le_trans hopen.size h.size, fun j hj => ?_, rfl⟩
  rw [show m₁.store.chain j = _ from h.chain j (Nat.lt_of_lt_of_le hj hopen.size)]
  exact hopen.chain j hj

theorem Padded.within (h : Padded spare m m') {outer outer' : ScopeId}
    (hs : Sees spare m.store m'.store outer outer') {bs : List (String × Value)}
    (hbs : ∀ b ∈ bs, b.2.Fits spare m.store.scopes.size) :
    Padded spare (m.within outer bs) (m'.within outer' (slimBindings spare bs)) := by
  have hnew := h.store.size_not_spare
  have hstore := h.store.enclose hs
  have hopen : Padded spare
      { m with store := (m.store.enclose outer).2, scope := m.store.scopes.size }
      { m' with store := (m'.store.enclose outer').2, scope := m'.store.scopes.size } := by
    refine ⟨h.registers, hstore, ?_⟩
    rw [h.store.size]
    exact hstore.sees (by simp) hnew
  have hbound := hopen.defineAll hnew (by simp) fun b hb =>
    (hbs b hb).mono (by simp : m.store.scopes.size ≤ (m.store.enclose outer).2.scopes.size)
  rw [← h.store.size] at hbound
  exact hbound

/-- Both machines run code in a new scope. -/
theorem matched_within (hm : Padded spare m m') {outer outer' : ScopeId}
    (hs : Sees spare m.store m'.store outer outer') {bs : List (String × Value)}
    (hbs : ∀ b ∈ bs, b.2 ∈ vs) (hvs : ∀ v ∈ vs, v.Fits spare m.store.scopes.size) {x y : Eval α}
    (h : ∀ id, spare id = false → Sim spare id vs x y) :
    Matched spare m m'
      ((do
        let id ← Eval.enclose outer bs
        Eval.inScope id x) m)
      ((do
        let id ← Eval.enclose outer' (slimBindings spare bs)
        Eval.inScope id y) m') := by
  rw [enclose_inScope, enclose_inScope]
  have hknown : ∀ v ∈ vs, v.Fits spare (m.within outer bs).store.scopes.size := by
    intro v hv
    rw [Machine.size_within]
    exact (hvs v hv).mono (Nat.le_succ _)
  have hinner := h m.store.scopes.size hm.store.size_not_spare _ _
    (hm.within hs fun b hb => hvs _ (hbs b hb)) rfl hknown
  exact hinner.leave hm (fun _ _ => rfl) hinner.grown.leave hinner.grown'.leave

/-- A block is run in a new scope inside the present one. -/
theorem sim_block {x y : Eval α} (h : ∀ id, spare id = false → Sim spare id vs x y) :
    Sim spare i vs
      (do
        let outer ← Eval.scope
        let id ← Eval.enclose outer []
        Eval.inScope id x)
      (do
        let outer ← Eval.scope
        let id ← Eval.enclose outer []
        Eval.inScope id y) :=
  fun _ _ hm _ hvs => matched_within hm hm.sees (List.forall_mem_nil _) hvs h

/-- A function body is run in a new scope inside the one that the function closes over. -/
theorem sim_body {id : Nat} {d : Declaration} {closure : ScopeId}
    (hc : .callable id (.function d closure) ∈ vs) {bs : List (String × Value)}
    (hbs : ∀ b ∈ bs, b.2 ∈ vs) {x y : Eval α}
    (h : ∀ id, spare id = false → Sim spare id vs x y) :
    Sim spare i vs
      (do
        let id ← Eval.enclose closure bs
        Eval.inScope id x)
      (do
        let id ← Eval.enclose (rank spare closure) (slimBindings spare bs)
        Eval.inScope id y) := by
  intro m m' hm _ hvs
  obtain ⟨hlt, hspare⟩ := hvs _ hc
  exact matched_within hm (hm.store.sees hlt hspare) hbs hvs h

end Sim

/-! ## Programs -/

/-- A statement that binds nothing in the scope it is run in. -/
def Stmt.Bare : Stmt → Prop
  | .var _ _ | .function _ _ _ => False
  | .ifThen _ whenTrue => whenTrue.Bare
  | .ifElse _ whenTrue whenFalse => whenTrue.Bare ∧ whenFalse.Bare
  | .whileLoop _ body => body.Bare
  | .expr _ | .print _ | .block _ | .ret _ _ => True

/-- With this much fuel, programs do the same on machines with scopes to spare. -/
structure SimAt (cfg : Setting) (fuel : Nat) : Prop where
  evaluate : ∀ {spare i vs} e, Sim spare i vs (evaluate cfg fuel e) (evaluate cfg fuel e)
  evaluateAll : ∀ {spare i vs} es,
    Sim spare i vs (evaluateAll cfg fuel es) (evaluateAll cfg fuel es)
  call : ∀ {spare i vs id c} paren {args}, .callable id c ∈ vs → (∀ a ∈ args, a ∈ vs) →
    Sim spare i vs (call cfg fuel c paren args)
      (call cfg fuel (c.slim spare) paren (args.map (Value.slim spare)))
  execute : ∀ {spare i vs s}, (spare i = false ∨ s.Bare) →
    Sim spare i vs (execute cfg fuel s) (execute cfg fuel s)
  executeAll : ∀ {spare i vs} ss, spare i = false →
    Sim spare i vs (executeAll cfg fuel ss) (executeAll cfg fuel ss)

namespace SimAt

variable {cfg : Setting} {fuel : Nat} {spare : ScopeId → Bool} {i : ScopeId} {vs : List Value}

theorem zero : SimAt cfg 0 where
  evaluate _ := sim_outOfFuel
  evaluateAll _ := sim_outOfFuel
  call _ _ _ _ := sim_outOfFuel
  execute _ := sim_outOfFuel
  executeAll _ _ := sim_outOfFuel

theorem known {v : Value} (hv : v.Known vs) : Sim spare i vs (pure v) (pure (v.slim spare)) :=
  sim_pure rfl fun _ hu => List.mem_singleton.mp hu ▸ hv

theorem normal : Sim spare i vs (pure Flow.normal) (pure .normal) :=
  sim_pure rfl (List.forall_mem_nil _)

theorem returned {v : Value} (hv : v.Known vs) :
    Sim spare i vs (pure (Flow.returned v)) (pure (.returned (v.slim spare))) :=
  sim_pure rfl fun _ hu => List.mem_singleton.mp hu ▸ hv

theorem evaluate_succ (ih : SimAt cfg fuel) (e : Expr) :
    Sim spare i vs (Treewalk.evaluate cfg (fuel + 1) e) (Treewalk.evaluate cfg (fuel + 1) e) := by
  cases e with
  | literal l =>
    cases l <;> exact known (.inr trivial)
  | grouping inner => exact ih.evaluate inner
  | unary op right =>
    refine sim_bind (ih.evaluate right) fun v => ?_
    exact sim_ofExcept (Value.unary_slim spare v op) fun u hu => .inr (unary_plain hu)
  | binary left op right =>
    refine sim_bind (ih.evaluate left) fun l => sim_bind (ih.evaluate right) fun r => ?_
    refine sim_ofExcept (Value.binary_slim spare l r op) fun u hu => ?_
    rcases binary_plain hu with rfl | hplain
    · exact .inl (.head _)
    · exact .inr hplain
  | logical left op right =>
    refine sim_bind (ih.evaluate left) fun l => ?_
    simp only [slim, Value.shortCircuits_slim]
    split
    · exact known (.inl (.head _))
    · exact ih.evaluate right
  | ternary op c t e =>
    refine sim_bind (ih.evaluate c) fun v => ?_
    simp only [slim, Value.truthy_slim]
    split
    · refine sim_bind (ih.evaluate t) fun a => sim_bind (ih.evaluate e) fun b => ?_
      cases v.truthy with
      | true => exact known (.inl (.tail _ (.head _)))
      | false => exact known (.inl (.head _))
    · split
      · exact ih.evaluate t
      · exact ih.evaluate e
  | name t => exact sim_get t
  | assign t value =>
    refine sim_bind (ih.evaluate value) fun v => sim_bind (sim_assign t (.head _)) fun _ => ?_
    exact known (.inl (.head _))
  | call callee paren args =>
    refine sim_bind (ih.evaluate callee) fun v => sim_bind (ih.evaluateAll args) fun as => ?_
    cases v with
    | callable id c =>
      exact ih.call paren (List.mem_append_right _ (.head _)) fun a ha =>
        List.mem_append_left _ ha
    | _ => exact sim_fault _ _

theorem evaluateAll_succ (ih : SimAt cfg fuel) (es : List Expr) :
    Sim spare i vs (Treewalk.evaluateAll cfg (fuel + 1) es)
      (Treewalk.evaluateAll cfg (fuel + 1) es) := by
  cases es with
  | nil => exact sim_pure rfl (List.forall_mem_nil _)
  | cons e es =>
    refine sim_bind (ih.evaluate e) fun v => sim_bind (ih.evaluateAll es) fun ws => ?_
    refine sim_pure rfl fun u hu => .inl ?_
    rcases List.mem_cons.mp hu with rfl | hu
    · exact List.mem_append_right _ (.head _)
    · exact List.mem_append_left _ hu

theorem call_succ (ih : SimAt cfg fuel) {id : Nat} {c : Callable} (paren : Token)
    {args : List Value} (hc : .callable id c ∈ vs) (hargs : ∀ a ∈ args, a ∈ vs) :
    Sim spare i vs (Treewalk.call cfg (fuel + 1) c paren args)
      (Treewalk.call cfg (fuel + 1) (c.slim spare) paren (args.map (Value.slim spare))) := by
  unfold Treewalk.call
  rw [Callable.arity_slim, List.length_map]
  split
  · exact sim_fault _ _
  · refine sim_activate _ _ ?_
    cases c with
    | clock => exact sim_readClock cfg
    | function d closure =>
      have hzip : (d.params.map Token.lexeme).zip (args.map (Value.slim spare)) =
          slimBindings spare ((d.params.map Token.lexeme).zip args) := by
        rw [List.zip_map_right]
        rfl
      have hbs : ∀ b ∈ (d.params.map Token.lexeme).zip args, b.2 ∈ vs :=
        fun b hb => hargs _ (List.of_mem_zip hb).2
      simp only [Callable.slim, hzip]
      rw [← bind_assoc, ← bind_assoc]
      refine sim_bind (sim_body hc hbs fun j hj => ih.executeAll d.body hj) fun r => ?_
      cases r with
      | returned v => exact known (.inl (.head _))
      | normal => exact known (.inr trivial)

theorem execute_succ (ih : SimAt cfg fuel) {s : Stmt} (hs : spare i = false ∨ s.Bare) :
    Sim spare i vs (Treewalk.execute cfg (fuel + 1) s) (Treewalk.execute cfg (fuel + 1) s) := by
  cases s with
  | expr e => exact sim_bind (ih.evaluate e) fun _ => normal
  | print e =>
    refine sim_bind (ih.evaluate e) fun v => ?_
    simp only [slim, Value.text_slim]
    exact sim_bind (sim_printLine _) fun _ => normal
  | var name initial =>
    have hi := hs.resolve_right id
    cases initial with
    | none => exact sim_bind (sim_define hi _ (.inr trivial)) fun _ => normal
    | some e =>
      refine sim_bind (ih.evaluate e) fun v => ?_
      exact sim_bind (sim_define hi _ (.inl (.head _))) fun _ => normal
  | block body => exact sim_block fun j hj => ih.executeAll body hj
  | ifThen c t =>
    refine sim_bind (ih.evaluate c) fun v => ?_
    simp only [slim, Value.truthy_slim]
    split
    · exact ih.execute hs
    · exact normal
  | ifElse c t e =>
    refine sim_bind (ih.evaluate c) fun v => ?_
    simp only [slim, Value.truthy_slim]
    split
    · exact ih.execute (hs.imp_right And.left)
    · exact ih.execute (hs.imp_right And.right)
  | whileLoop c body =>
    refine sim_bind (ih.evaluate c) fun v => ?_
    simp only [slim, Value.truthy_slim]
    split
    · refine sim_bind (ih.execute hs) fun r => ?_
      cases r with
      | returned v => exact returned (.inl (.head _))
      | normal => exact ih.execute hs
    · exact normal
  | function name params body =>
    have hi := hs.resolve_right id
    refine sim_bind (sim_close hi _) fun f => ?_
    exact sim_bind (sim_define hi _ (.inl (.head _))) fun _ => normal
  | ret keyword value =>
    cases value with
    | none => exact returned (.inr trivial)
    | some e => exact sim_bind (ih.evaluate e) fun v => returned (.inl (.head _))

theorem executeAll_succ (ih : SimAt cfg fuel) (ss : List Stmt) (hi : spare i = false) :
    Sim spare i vs (Treewalk.executeAll cfg (fuel + 1) ss)
      (Treewalk.executeAll cfg (fuel + 1) ss) := by
  cases ss with
  | nil => exact normal
  | cons s ss =>
    refine sim_bind (ih.execute (.inl hi)) fun r => ?_
    cases r with
    | returned v => exact returned (.inl (.head _))
    | normal => exact ih.executeAll ss hi

theorem all : ∀ fuel, SimAt cfg fuel
  | 0 => zero
  | fuel + 1 =>
    let ih := all fuel
    ⟨ih.evaluate_succ, ih.evaluateAll_succ, ih.call_succ, ih.execute_succ, ih.executeAll_succ⟩

end SimAt

end Treewalk
