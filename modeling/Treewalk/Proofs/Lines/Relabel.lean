import Treewalk.Machine.Run
import Treewalk.Proofs.Machine.Primitives

/-!
# Other line numbers

`relabel f` gives every token the line that `f` maps its line to: in trees, in
values, and in everything that a machine holds. Nothing that a program can
observe depends on lines, so the operations of the machine commute with it.

Results:

* `Commutes`: a computation and its relabelled form go the same way.
* `commutes_get`, `commutes_assign` and so on: the operations of the machine
  commute with relabelling.
-/
namespace Treewalk

variable (f : Nat → Nat)

/-! ## Trees -/

def Token.relabel (t : Token) : Token := { t with line := f t.line }

mutual

def Expr.relabel : Expr → Expr
  | .literal l => .literal l
  | .grouping e => .grouping e.relabel
  | .unary op right => .unary (op.relabel f) right.relabel
  | .binary left op right => .binary left.relabel (op.relabel f) right.relabel
  | .logical left op right => .logical left.relabel (op.relabel f) right.relabel
  | .ternary op c t e => .ternary (op.relabel f) c.relabel t.relabel e.relabel
  | .name t => .name (t.relabel f)
  | .assign t value => .assign (t.relabel f) value.relabel
  | .call callee paren args => .call callee.relabel (paren.relabel f) (Expr.relabelAll args)

def Expr.relabelAll : List Expr → List Expr
  | [] => []
  | e :: es => e.relabel :: Expr.relabelAll es

end

mutual

def Stmt.relabel : Stmt → Stmt
  | .expr e => .expr (e.relabel f)
  | .print e => .print (e.relabel f)
  | .var name initial => .var (name.relabel f) (initial.map (Expr.relabel f))
  | .block body => .block (Stmt.relabelAll body)
  | .ifThen c t => .ifThen (c.relabel f) t.relabel
  | .ifElse c t e => .ifElse (c.relabel f) t.relabel e.relabel
  | .whileLoop c body => .whileLoop (c.relabel f) body.relabel
  | .function name params body =>
    .function (name.relabel f) (params.map (Token.relabel f)) (Stmt.relabelAll body)
  | .ret keyword value => .ret (keyword.relabel f) (value.map (Expr.relabel f))

def Stmt.relabelAll : List Stmt → List Stmt
  | [] => []
  | s :: ss => s.relabel :: Stmt.relabelAll ss

end

/-! ## Values and machines -/

def Declaration.relabel (d : Declaration) : Declaration :=
  ⟨d.name.relabel f, d.params.map (Token.relabel f), Stmt.relabelAll f d.body⟩

def Callable.relabel : Callable → Callable
  | .clock => .clock
  | .function d closure => .function (d.relabel f) closure

def Value.relabel : Value → Value
  | .callable id target => .callable id (target.relabel f)
  | .nil => .nil
  | .bool b => .bool b
  | .number x => .number x
  | .string s => .string s

def Flow.relabel : Flow → Flow
  | .normal => .normal
  | .returned v => .returned (v.relabel f)

def Scope.relabel (s : Scope) : Scope :=
  { s with bindings := s.bindings.map fun b => (b.1, b.2.relabel f) }

def Store.relabel (s : Store) : Store := ⟨s.scopes.map (Scope.relabel f)⟩

def Machine.relabel (m : Machine) : Machine := { m with store := m.store.relabel f }

def RuntimeError.relabel (e : RuntimeError) : RuntimeError := { e with token := e.token.relabel f }

def Stop.relabel : Stop → Stop
  | .error e => .error (e.relabel f)
  | .malformed op => .malformed (op.relabel f)
  | .outOfFuel => .outOfFuel

/-- A result with another one in its place, and everything relabelled. -/
def relabelResult {α : Type} (g : α → α) :
    EStateM.Result Stop Machine α → EStateM.Result Stop Machine α
  | .ok a m => .ok (g a) (m.relabel f)
  | .error e m => .error (e.relabel f) (m.relabel f)

/-- The second computation does the same as the first, with other line numbers. -/
def Commutes {α : Type} (g : α → α) (x y : Eval α) : Prop :=
  ∀ m : Machine, y (m.relabel f) = relabelResult f g (x m)

variable {f} {α β : Type} {g : α → α} {h : β → β}

theorem commutes_bind {x y : Eval α} {k k' : α → Eval β} (hx : Commutes f g x y)
    (hk : ∀ a, Commutes f h (k a) (k' (g a))) : Commutes f h (x >>= k) (y >>= k') := by
  intro m
  cases hm : x m with
  | ok a m₁ =>
    have hy : y (m.relabel f) = .ok (g a) (m₁.relabel f) := by rw [hx m, hm]; rfl
    rw [bind_of_ok hm, bind_of_ok hy]
    exact hk a m₁
  | error e m₁ =>
    have hy : y (m.relabel f) = .error (e.relabel f) (m₁.relabel f) := by rw [hx m, hm]; rfl
    rw [bind_of_error hm, bind_of_error hy]
    rfl

theorem commutes_pure (a : α) : Commutes f g (pure a) (pure (g a)) := fun _ => rfl

theorem commutes_outOfFuel : Commutes f g Eval.outOfFuel Eval.outOfFuel := fun _ => rfl

theorem commutes_fault (t : Token) (p : Fault) :
    Commutes f g (Eval.fault t p) (Eval.fault (t.relabel f) p) := fun _ => rfl

/-! ## What a program can observe -/

section Values

variable (v w : Value)

@[simp]
theorem Value.truthy_relabel : (v.relabel f).truthy = v.truthy := by
  cases v <;> rfl

@[simp]
theorem Callable.text_relabel (c : Callable) : (c.relabel f).text = c.text := by
  cases c <;> rfl

@[simp]
theorem Value.text_relabel : (v.relabel f).text = v.text := by
  cases v with
  | callable id target => exact target.text_relabel
  | _ => rfl

@[simp]
theorem Value.beq_relabel : (v.relabel f == w.relabel f) = (v == w) := by
  cases v <;> cases w <;> rfl

@[simp]
theorem Value.shortCircuits_relabel (op : Token) :
    (v.relabel f).shortCircuits (op.relabel f) = v.shortCircuits op := by
  simp [Value.shortCircuits, Token.relabel]

@[simp]
theorem Callable.arity_relabel (c : Callable) : (c.relabel f).arity = c.arity := by
  cases c with
  | clock => rfl
  | function d closure => simp [Callable.relabel, Callable.arity, Declaration.relabel]

/-- The result of an operator, relabelled. -/
def relabelExcept (f : Nat → Nat) : Except Stop Value → Except Stop Value
  | .ok v => .ok (v.relabel f)
  | .error e => .error (e.relabel f)

theorem Value.unary_relabel (op : Token) :
    Value.unary (op.relabel f) (v.relabel f) = relabelExcept f (Value.unary op v) := by
  have hk : (op.relabel f).kind = op.kind := rfl
  unfold Value.unary
  rw [hk, Value.truthy_relabel]
  split
  · rfl
  · cases v <;> rfl
  · rfl

theorem Value.add_relabel (op : Token) :
    Value.add (op.relabel f) (v.relabel f) (w.relabel f) = relabelExcept f (Value.add op v w) := by
  cases v <;> cases w <;> rfl

theorem Value.arithmetic_relabel (op : Token) (a b : Float) :
    Value.arithmetic (op.relabel f) a b = relabelExcept f (Value.arithmetic op a b) := by
  have hk : (op.relabel f).kind = op.kind := rfl
  unfold Value.arithmetic
  rw [hk]
  split <;> rfl

theorem Value.binary_relabel (op : Token) :
    Value.binary (op.relabel f) (v.relabel f) (w.relabel f) =
      relabelExcept f (Value.binary op v w) := by
  have hk : (op.relabel f).kind = op.kind := rfl
  unfold Value.binary
  rw [hk, Value.beq_relabel]
  split
  · rfl
  · rfl
  · rfl
  · exact Value.add_relabel v w op
  · cases v <;> cases w <;> first | exact Value.arithmetic_relabel op _ _ | rfl

end Values

theorem commutes_ofExcept (r : Except Stop Value) :
    Commutes f (Value.relabel f) (Eval.ofExcept r) (Eval.ofExcept (relabelExcept f r)) := by
  cases r <;> exact fun _ => rfl

/-! ## The store -/

section Stores

variable (s : Store) (id : ScopeId) (name : String) (v : Value)

theorem Scope.get?_relabel (sc : Scope) :
    (sc.relabel f).get? name = (sc.get? name).map (Value.relabel f) := by
  show (sc.bindings.map fun b => (b.1, b.2.relabel f)).lookup name =
    (sc.bindings.lookup name).map (Value.relabel f)
  induction sc.bindings with
  | nil => rfl
  | cons b bs ih =>
    obtain ⟨k, w⟩ := b
    simp only [List.map_cons, List.lookup_cons]
    cases name == k with
    | true => rfl
    | false => exact ih

theorem Scope.define_relabel (sc : Scope) :
    (sc.define name v).relabel f = (sc.relabel f).define name (v.relabel f) := by
  simp only [Scope.define, Scope.relabel, List.map_cons, List.filter_map]
  rfl

@[simp]
theorem Store.chain_relabel : (s.relabel f).chain id = s.chain id := by
  simp only [Store.chain, Store.relabel, Array.getElem?_map, Option.map_map]
  rfl

@[simp]
theorem Store.bound?_relabel :
    (s.relabel f).bound? id name = (s.bound? id name).map (Value.relabel f) := by
  simp only [Store.bound?, Store.relabel, Array.getElem?_map]
  cases s.scopes[id]? with
  | none => rfl
  | some sc => exact sc.get?_relabel name

@[simp]
theorem Store.owner?_relabel : (s.relabel f).owner? id name = s.owner? id name := by
  simp [Store.owner?]

theorem Store.lookup_relabel :
    (s.relabel f).lookup id name = (s.lookup id name).map (Value.relabel f) := by
  simp only [Store.lookup, Store.chain_relabel, Store.bound?_relabel]
  induction s.chain id with
  | nil => rfl
  | cons i is ih =>
    simp only [List.findSome?_cons]
    cases s.bound? i name with
    | none => exact ih
    | some w => rfl

theorem Store.define_relabel :
    (s.define id name v).relabel f = (s.relabel f).define id name (v.relabel f) := by
  simp only [Store.define, Store.relabel]
  congr 1
  apply Array.ext_getElem?
  intro i
  simp only [Array.getElem?_map, Array.getElem?_modify]
  split
  · cases s.scopes[i]? with
    | none => rfl
    | some sc => exact congrArg some (sc.define_relabel name v)
  · rfl

theorem Store.enclose_relabel :
    (s.relabel f).enclose id = ((s.enclose id).1, (s.enclose id).2.relabel f) := by
  rw [Store.enclose, Store.chain_relabel]
  simp only [Store.enclose, Store.push, Store.relabel, Array.size_map, Array.map_push]
  rfl

theorem Store.defineAll_relabel (bs : List (String × Value)) :
    (s.defineAll id bs).relabel f =
      (s.relabel f).defineAll id (bs.map fun b => (b.1, b.2.relabel f)) := by
  induction bs generalizing s with
  | nil => rfl
  | cons b bs ih =>
    show ((s.define id b.1 b.2).defineAll id bs).relabel f = _
    rw [ih, Store.define_relabel]
    rfl

end Stores

/-! ## Operations of the machine -/

/-- The value of a computation that has none. -/
theorem commutes_unit {x y : Eval Unit} (hxy : Commutes f id x y) {k k' : Eval β}
    (hk : Commutes f h k k') : Commutes f h (do x; k) (do y; k') :=
  commutes_bind hxy fun _ => hk

theorem commutes_printLine (line : String) :
    Commutes f id (Eval.printLine line) (Eval.printLine line) := fun _ => rfl

theorem commutes_get (t : Token) :
    Commutes f (Value.relabel f) (Eval.get t) (Eval.get (t.relabel f)) := by
  intro m
  have hl : (m.relabel f).store.lookup (m.relabel f).scope (t.relabel f).lexeme =
      (m.store.lookup m.scope t.lexeme).map (Value.relabel f) := Store.lookup_relabel ..
  unfold Eval.get Store.get
  rw [hl]
  cases m.store.lookup m.scope t.lexeme <;> rfl

theorem commutes_assign (t : Token) (v : Value) :
    Commutes f id (Eval.assign t v) (Eval.assign (t.relabel f) (v.relabel f)) := by
  intro m
  have ho : (m.relabel f).store.owner? (m.relabel f).scope (t.relabel f).lexeme =
      m.store.owner? m.scope t.lexeme := Store.owner?_relabel ..
  unfold Eval.assign
  rw [ho]
  cases m.store.owner? m.scope t.lexeme with
  | none => rfl
  | some owner =>
    simp only [relabelResult, Machine.relabel, Store.define_relabel, id]
    rfl

theorem commutes_define (name : String) (v : Value) :
    Commutes f id (Eval.define name v) (Eval.define name (v.relabel f)) := by
  intro m
  simp only [Eval.define, relabelResult, Machine.relabel, Store.define_relabel, id]

theorem commutes_close (d : Declaration) :
    Commutes f (Value.relabel f) (Eval.close d) (Eval.close (d.relabel f)) := fun _ => rfl

theorem commutes_readClock (cfg : Setting) :
    Commutes f (Value.relabel f) (Eval.readClock cfg) (Eval.readClock cfg) := fun _ => rfl

theorem commutes_scope : Commutes f id Eval.scope Eval.scope := fun _ => rfl

theorem commutes_enclose (outer : ScopeId) (bs : List (String × Value)) :
    Commutes f id (Eval.enclose outer bs)
      (Eval.enclose outer (bs.map fun b => (b.1, b.2.relabel f))) := by
  intro m
  have he := Store.enclose_relabel (f := f) m.store outer
  simp only [Eval.enclose, relabelResult, Machine.relabel, he, Store.defineAll_relabel, id]

theorem relabelResult_leaving {out out' : Machine → Machine}
    (hout : ∀ m, (out m).relabel f = out' (m.relabel f)) (r : EStateM.Result Stop Machine α) :
    relabelResult f g (leaving out r) = leaving out' (relabelResult f g r) := by
  cases r with
  | ok a m => exact congrArg (EStateM.Result.ok (g a)) (hout m)
  | error e m => exact congrArg (EStateM.Result.error _) (hout m)

theorem commutes_inScope (id : ScopeId) {x y : Eval α} (hxy : Commutes f g x y) :
    Commutes f g (Eval.inScope id x) (Eval.inScope id y) := by
  intro m
  rw [inScope_eq, inScope_eq]
  exact (congrArg _ (hxy { m with scope := id })).trans
    (relabelResult_leaving (by exact fun _ => rfl) _).symm

theorem commutes_activate (limit : Option Nat) (paren : Token) {x y : Eval α}
    (hxy : Commutes f g x y) :
    Commutes f g (Eval.activate limit paren x) (Eval.activate limit (paren.relabel f) y) := by
  intro m
  cases hroom : limit.any (· ≤ m.depth) with
  | true =>
    rw [activate_full hroom, activate_full (m := m.relabel f) hroom]
    rfl
  | false =>
    rw [activate_eq hroom, activate_eq (m := m.relabel f) hroom]
    exact (congrArg _ (hxy m.enter)).trans (relabelResult_leaving (by exact fun _ => rfl) _).symm

end Treewalk
