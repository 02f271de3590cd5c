import Treewalk.Machine.Operator

/-!
# What operators give

Results:

* `unary_answered`, `binary_answered`: an operator that its kind of expression has gives a
  value or an error of the running program.
* `unary_plain`, `binary_plain`: no operator makes a callable.
* `binary_plain_of_ne_comma`, `binary_comma`: only the comma can pass one on.
* `unary_error`, `binary_error`: the errors of the running program that there are.
-/
namespace Treewalk

/-! ## Operators that have a result -/

def Kind.isUnary (k : Kind) : Bool := k = .bang || k = .minus

def Kind.isBinary (k : Kind) : Bool :=
  k = .comma || k = .equalEqual || k = .bangEqual || k = .plus || k = .minus || k = .star ||
    k = .slash || k = .greater || k = .greaterEqual || k = .less || k = .lessEqual

def Kind.isLogical (k : Kind) : Bool := k = .orKw || k = .andKw

/-- The operator gives a value or an error of the running program. -/
def Answered : Except Stop Value → Prop
  | .ok _ | .error (.error _) => True
  | _ => False

theorem unary_answered {op : Token} (h : op.kind.isUnary = true) (v : Value) :
    Answered (Value.unary op v) := by
  unfold Value.unary
  split
  · trivial
  · split <;> trivial
  · rename_i hbang hminus
    simp only [Kind.isUnary, Bool.or_eq_true, decide_eq_true_eq] at h
    exact (h.elim hbang hminus).elim

theorem arithmetic_answered {op : Token} (h : op.kind.isBinary = true)
    (hcomma : op.kind ≠ .comma) (heq : op.kind ≠ .equalEqual) (hne : op.kind ≠ .bangEqual)
    (hplus : op.kind ≠ .plus) (a b : Float) : Answered (Value.arithmetic op a b) := by
  unfold Value.arithmetic
  split <;> first | trivial | simp_all [Kind.isBinary]

theorem binary_answered {op : Token} (h : op.kind.isBinary = true) (l r : Value) :
    Answered (Value.binary op l r) := by
  unfold Value.binary
  split
  · trivial
  · trivial
  · trivial
  · unfold Value.add
    split <;> trivial
  · rename_i hcomma heq hne hplus
    split
    · exact arithmetic_answered h hcomma heq hne hplus _ _
    · trivial

/-! ## Callables -/

/-- The value is no callable. -/
def Value.Plain : Value → Prop
  | .callable _ _ => False
  | _ => True

theorem unary_plain {op : Token} {v u : Value} (h : Value.unary op v = .ok u) : u.Plain := by
  unfold Value.unary at h
  split at h
  · cases h
    trivial
  · split at h
    · cases h
      trivial
    · cases h
  · cases h

theorem binary_plain_of_ne_comma {op : Token} {l r u : Value} (hcomma : op.kind ≠ .comma)
    (h : Value.binary op l r = .ok u) : u.Plain := by
  unfold Value.binary at h
  split at h
  · contradiction
  · cases h
    trivial
  · cases h
    trivial
  · unfold Value.add at h
    split at h <;> cases h <;> trivial
  · split at h
    · unfold Value.arithmetic at h
      split at h <;> cases h <;> trivial
    · cases h

/-- The comma gives its right side. -/
theorem binary_comma {op : Token} {l r u : Value} (hcomma : op.kind = .comma)
    (h : Value.binary op l r = .ok u) : u = r := by
  unfold Value.binary at h
  rw [hcomma] at h
  exact (Except.ok.inj h).symm

/-- The result of an operator is no callable, unless the comma gives its right side. -/
theorem binary_plain {op : Token} {l r u : Value} (h : Value.binary op l r = .ok u) :
    u = r ∨ u.Plain := by
  by_cases hcomma : op.kind = .comma
  · exact .inl (binary_comma hcomma h)
  · exact .inr (binary_plain_of_ne_comma hcomma h)

/-! ## Errors -/

/-- The one error of unary operators. -/
theorem unary_error {op : Token} {v : Value} {err : RuntimeError}
    (h : Value.unary op v = .error (.error err)) :
    op.kind = .minus ∧ err = ⟨op, .operandMustBeNumber⟩ := by
  unfold Value.unary at h
  split at h
  · cases h
  · rename_i hminus
    split at h <;> cases h
    exact ⟨hminus, rfl⟩
  · cases h

theorem arithmetic_ne_error {op : Token} {a b : Float} {err : RuntimeError} :
    Value.arithmetic op a b ≠ .error (.error err) := by
  unfold Value.arithmetic
  split <;> exact nofun

/-- The two errors of binary operators: that of `+`, and that of the operators for numbers. -/
theorem binary_error {op : Token} {l r : Value} {err : RuntimeError}
    (h : Value.binary op l r = .error (.error err)) :
    (op.kind = .plus ∧ err = ⟨op, .invalidAdditionOperands⟩) ∨
    (op.kind ≠ .comma ∧ op.kind ≠ .equalEqual ∧ op.kind ≠ .bangEqual ∧ op.kind ≠ .plus ∧
      err = ⟨op, .operandsMustBeNumbers⟩) := by
  unfold Value.binary at h
  split at h
  · cases h
  · cases h
  · cases h
  · rename_i hplus
    unfold Value.add at h
    split at h <;> cases h
    exact .inl ⟨hplus, rfl⟩
  · rename_i hcomma hequal hbangEqual hplus
    split at h
    · exact absurd h arithmetic_ne_error
    · cases h
      exact .inr ⟨hcomma, hequal, hbangEqual, hplus, rfl⟩

end Treewalk
