import Treewalk.Proofs.Lines.Run

/-!
# Marked lines

To tell the lines of a program from those that a machine already holds, both are
written as marks: `held n` for a line of the machine, `given n` for a line of the
program. Nothing observes a mark, so a run with marks does what the run itself does,
and it shows where every line in its result comes from. `unmarked` takes the marks
away; `shifted k` moves the program's lines down by `k` at the same time.

Results:

* `interpret_unmarked`: a run with marks, without its marks, is the run itself.
* `interpret_shifted`: with the program's lines moved down, it is the run of the
  program further down.
-/
namespace Treewalk

/-! ## Relabelling twice -/

section Functor

variable (f g : Nat → Nat)

theorem Token.relabel_id (t : Token) : t.relabel (fun n => n) = t := rfl

theorem Token.relabel_relabel (t : Token) :
    (t.relabel f).relabel g = t.relabel fun n => g (f n) := rfl

theorem Token.map_relabel_id (ts : List Token) : ts.map (Token.relabel fun n => n) = ts :=
  List.map_id ts

mutual

theorem Expr.relabel_id : (e : Expr) → e.relabel (fun n => n) = e
  | .literal _ | .name _ => rfl
  | .grouping e => by rw [Expr.relabel, e.relabel_id]
  | .unary _ e | .assign _ e => by rw [Expr.relabel, e.relabel_id, Token.relabel_id]
  | .binary l _ r | .logical l _ r => by
    rw [Expr.relabel, l.relabel_id, r.relabel_id, Token.relabel_id]
  | .ternary _ c t e => by
    rw [Expr.relabel, c.relabel_id, t.relabel_id, e.relabel_id, Token.relabel_id]
  | .call callee _ args => by
    rw [Expr.relabel, callee.relabel_id, Expr.relabelAll_id args, Token.relabel_id]

theorem Expr.relabelAll_id : (es : List Expr) → Expr.relabelAll (fun n => n) es = es
  | [] => rfl
  | e :: es => by rw [Expr.relabelAll, e.relabel_id, Expr.relabelAll_id es]

end

mutual

theorem Expr.relabel_relabel : (e : Expr) →
    (e.relabel f).relabel g = e.relabel fun n => g (f n)
  | .literal _ | .name _ => rfl
  | .grouping e | .unary _ e | .assign _ e => by
    simp only [Expr.relabel, e.relabel_relabel, Token.relabel_relabel]
  | .binary l _ r | .logical l _ r => by
    simp only [Expr.relabel, l.relabel_relabel, r.relabel_relabel, Token.relabel_relabel]
  | .ternary _ c t e => by
    simp only [Expr.relabel, c.relabel_relabel, t.relabel_relabel, e.relabel_relabel,
      Token.relabel_relabel]
  | .call callee _ args => by
    simp only [Expr.relabel, callee.relabel_relabel, Expr.relabelAll_relabelAll args,
      Token.relabel_relabel]

theorem Expr.relabelAll_relabelAll : (es : List Expr) →
    Expr.relabelAll g (Expr.relabelAll f es) = Expr.relabelAll (fun n => g (f n)) es
  | [] => rfl
  | e :: es => by simp only [Expr.relabelAll, e.relabel_relabel, Expr.relabelAll_relabelAll es]

end

theorem map_relabel_id (e : Option Expr) : e.map (Expr.relabel fun n => n) = e := by
  cases e with
  | none => rfl
  | some e => exact congrArg some e.relabel_id

theorem map_relabel_relabel (e : Option Expr) :
    (e.map (Expr.relabel f)).map (Expr.relabel g) = e.map (Expr.relabel fun n => g (f n)) := by
  cases e with
  | none => rfl
  | some e => exact congrArg some (e.relabel_relabel f g)

mutual

theorem Stmt.relabel_id : (s : Stmt) → s.relabel (fun n => n) = s
  | .expr e | .print e => by rw [Stmt.relabel, e.relabel_id]
  | .var _ e | .ret _ e => by rw [Stmt.relabel, map_relabel_id, Token.relabel_id]
  | .block body => by rw [Stmt.relabel, Stmt.relabelAll_id body]
  | .ifThen c t => by rw [Stmt.relabel, c.relabel_id, t.relabel_id]
  | .ifElse c t e => by rw [Stmt.relabel, c.relabel_id, t.relabel_id, e.relabel_id]
  | .whileLoop c body => by rw [Stmt.relabel, c.relabel_id, body.relabel_id]
  | .function _ _ body => by
    rw [Stmt.relabel, Stmt.relabelAll_id body, Token.relabel_id, Token.map_relabel_id]

theorem Stmt.relabelAll_id : (ss : List Stmt) → Stmt.relabelAll (fun n => n) ss = ss
  | [] => rfl
  | s :: ss => by rw [Stmt.relabelAll, s.relabel_id, Stmt.relabelAll_id ss]

end

mutual

theorem Stmt.relabel_relabel : (s : Stmt) →
    (s.relabel f).relabel g = s.relabel fun n => g (f n)
  | .expr e | .print e => by simp only [Stmt.relabel, e.relabel_relabel]
  | .var _ e | .ret _ e => by
    simp only [Stmt.relabel, map_relabel_relabel, Token.relabel_relabel]
  | .block body => by simp only [Stmt.relabel, Stmt.relabelAll_relabelAll body]
  | .ifThen c t => by simp only [Stmt.relabel, c.relabel_relabel, t.relabel_relabel]
  | .ifElse c t e => by
    simp only [Stmt.relabel, c.relabel_relabel, t.relabel_relabel, e.relabel_relabel]
  | .whileLoop c body => by simp only [Stmt.relabel, c.relabel_relabel, body.relabel_relabel]
  | .function _ _ body => by
    simp only [Stmt.relabel, Stmt.relabelAll_relabelAll body, Token.relabel_relabel,
      List.map_map, Function.comp_def]

theorem Stmt.relabelAll_relabelAll : (ss : List Stmt) →
    Stmt.relabelAll g (Stmt.relabelAll f ss) = Stmt.relabelAll (fun n => g (f n)) ss
  | [] => rfl
  | s :: ss => by simp only [Stmt.relabelAll, s.relabel_relabel, Stmt.relabelAll_relabelAll ss]

end

theorem Value.relabel_id (v : Value) : v.relabel (fun n => n) = v := by
  cases v with
  | callable id c =>
    cases c with
    | clock => rfl
    | function d closure =>
      simp only [Value.relabel, Callable.relabel, Declaration.relabel, Stmt.relabelAll_id,
        Token.relabel_id, Token.map_relabel_id]
  | _ => rfl

theorem Value.relabel_relabel (v : Value) :
    (v.relabel f).relabel g = v.relabel fun n => g (f n) := by
  cases v with
  | callable id c =>
    cases c with
    | clock => rfl
    | function d closure =>
      simp only [Value.relabel, Callable.relabel, Declaration.relabel,
        Stmt.relabelAll_relabelAll, Token.relabel_relabel, List.map_map, Function.comp_def]
  | _ => rfl

theorem Machine.relabel_id (m : Machine) : m.relabel (fun n => n) = m := by
  have hscope : Scope.relabel (fun n => n) = id := by
    funext sc
    simp only [Scope.relabel, Value.relabel_id, List.map_id', id]
  simp only [Machine.relabel, Store.relabel, hscope, Array.map_id]

theorem Machine.relabel_relabel (m : Machine) :
    (m.relabel f).relabel g = m.relabel fun n => g (f n) := by
  have hscope : Scope.relabel g ∘ Scope.relabel f = Scope.relabel fun n => g (f n) := by
    funext sc
    simp only [Scope.relabel, Function.comp_def, List.map_map, Value.relabel_relabel]
  simp only [Machine.relabel, Store.relabel, Array.map_map, hscope]

end Functor

/-! ## Marks -/

/-- The mark of a line that the machine already holds. -/
def held (n : Nat) : Nat := 2 * n

/-- The mark of a line of the program that is run. -/
def given (n : Nat) : Nat := 2 * n + 1

/-- The line that a mark stands for. -/
def unmarked (n : Nat) : Nat := n / 2

/-- The line that a mark stands for, in a text in which the program comes `k` lines
further down. -/
def shifted (k n : Nat) : Nat := if n % 2 = 0 then n / 2 else n / 2 + k

@[simp]
theorem unmarked_held (n : Nat) : unmarked (held n) = n := by
  simp only [unmarked, held]
  omega

@[simp]
theorem unmarked_given (n : Nat) : unmarked (given n) = n := by
  simp only [unmarked, given]
  omega

@[simp]
theorem shifted_held (k n : Nat) : shifted k (held n) = n := by
  rw [shifted, held, if_pos (by omega)]
  omega

@[simp]
theorem shifted_given (k n : Nat) : shifted k (given n) = n + k := by
  rw [shifted, given, if_neg (by omega)]
  omega

variable (cfg : Setting) (fuel : Nat) (p : Program) (m : Machine)

/-- Run a program with marks for its lines and for those of the machine. -/
def interpretMarked : EStateM.Result Stop Machine Unit :=
  interpret cfg fuel (Stmt.relabelAll given p) (m.relabel held)

/-- A run with marks, without its marks, is the run itself. -/
theorem interpret_unmarked :
    interpret cfg fuel p m = relabelResult unmarked id (interpretMarked cfg fuel p m) := by
  rw [interpretMarked, ← commutes_interpret cfg unmarked fuel _ _, Machine.relabel_relabel,
    Stmt.relabelAll_relabelAll]
  simp only [unmarked_held, unmarked_given, Machine.relabel_id, Stmt.relabelAll_id]

/-- A run with marks also tells what the program does further down. -/
theorem interpret_shifted (k : Nat) :
    interpret cfg fuel (Stmt.relabelAll (· + k) p) m =
      relabelResult (shifted k) id (interpretMarked cfg fuel p m) := by
  rw [interpretMarked, ← commutes_interpret cfg (shifted k) fuel _ _, Machine.relabel_relabel,
    Stmt.relabelAll_relabelAll]
  simp only [shifted_held, shifted_given, Machine.relabel_id]

end Treewalk
