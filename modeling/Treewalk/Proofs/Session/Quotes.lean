import Treewalk.Proofs.Grammar.Sourced
import Treewalk.Proofs.Machine.Trees
import Treewalk.Proofs.Printing.Numbers
import Treewalk.Proofs.Printing.Spelling
import Treewalk.Proofs.Session.During

/-!
# Strings without quotes

A string literal ends at the first quote, so there is none between its quotes. Strings are
joined with strings and with numbers, whose texts have no quotes either. So no string of a
session has one, however it came about.

Results:

* `constant_unquoted`: no constant of a text is a string with a quote.
* `closed_unquoted`: neither is what comes of values without quotes.
* `served_unquoted`: no variable of a session holds a string with a quote.
* `holds_unquoted`: nor does one at any moment of a step.
* `evaluate_unquoted`: nor is one the value of an expression.
-/
namespace Treewalk

open Session

/-- The expression is no literal with a quote in it. -/
def Expr.Unquoted : Expr → Prop
  | .literal l => (Value.ofLiteral l).Unquoted
  | _ => True

/-! ## Literals -/

/-- There is no quote between the quotes of a string. -/
theorem constant_unquoted {t : Token} (h : t.Scanned) :
    (Value.ofLiteral (Grammar.constant t)).Unquoted := by
  unfold Grammar.constant
  split
  · trivial
  · trivial
  · trivial
  · rw [h.value]
    unfold literalOf
    split
    · trivial
    · rename_i hstring
      obtain ⟨cs, hcs, htext⟩ := (hstring ▸ h.spelling).of_string
      simpa [htext, Value.Unquoted, Value.ofLiteral] using hcs
    · trivial

theorem Expr.Sourced.unquoted {e : Expr} (h : e.Sourced Token.Scanned) : e.Unquoted := by
  cases e with
  | literal l =>
    obtain rfl | ⟨t, ht, -, rfl⟩ := h
    · trivial
    · exact constant_unquoted ht
  | _ => trivial

/-! ## Operators -/

theorem unary_unquoted {op : Token} {v u : Value} (h : Value.unary op v = .ok u) : u.Unquoted := by
  unfold Value.unary at h
  split at h
  · cases h
    trivial
  · split at h
    · cases h
      trivial
    · cases h
  · cases h

theorem add_unquoted {op : Token} {l r u : Value} (hl : l.Unquoted) (hr : r.Unquoted)
    (h : Value.add op l r = .ok u) : u.Unquoted := by
  have hjoin : ∀ {a b : String}, '"' ∉ a.toList → '"' ∉ b.toList →
      (Value.string (a ++ b)).Unquoted := by
    intro a b ha hb
    simp [Value.Unquoted, ha, hb]
  unfold Value.add at h
  split at h
  · cases h
    trivial
  · cases h
    exact hjoin hl hr
  · cases h
    exact hjoin hl (quote_not_mem_text _)
  · cases h
    exact hjoin (quote_not_mem_text _) hr
  · cases h

theorem binary_unquoted {op : Token} {l r u : Value} (hl : l.Unquoted) (hr : r.Unquoted)
    (h : Value.binary op l r = .ok u) : u.Unquoted := by
  unfold Value.binary at h
  split at h
  · cases h
    exact hr
  · cases h
    trivial
  · cases h
    trivial
  · exact add_unquoted hl hr h
  · split at h
    · unfold Value.arithmetic at h
      split at h <;> cases h <;> trivial
    · cases h

theorem closed_unquoted : Value.Closed Value.Unquoted Expr.Unquoted where
  nil := trivial
  time _ := trivial
  callable _ _ := trivial
  literal h := h
  unary _ := unary_unquoted
  binary := binary_unquoted

/-! ## Sessions -/

/-- No literal and no value is a string with a quote. -/
abbrev unquoted : Standard :=
  .ofTrees Expr.Unquoted (fun s => ∀ e ∈ s.exprs, e.Everywhere Expr.Unquoted) Value.Unquoted

theorem kept_unquoted : unquoted.Kept := Standard.kept_ofTrees (fun _ => id) closed_unquoted

theorem admits_unquoted (request : Request) : unquoted.Admits request := by
  intro source p _ hp
  have hsourced := parse_sourced (analyze_eq.mp hp).2 Token.scanned_of_programTokens
  refine fun s hs => (Stmt.everywhereAll_iff.mp hsourced s hs).imp fun s hs e he => ?_
  exact (hs.2 e he).imp fun _ => Expr.Sourced.unquoted

variable {cfg : Setting} {log : List Exchange} {s : Session}

/-- No variable of a session holds a string with a quote. -/
theorem served_unquoted (h : Served cfg log s) : unquoted.Meets s.machine.store := by
  induction h with
  | start => exact Standard.meets_initial ⟨trivial, List.forall_mem_nil _⟩
  | next before step ih => exact serve_meets kept_unquoted ih (admits_unquoted _) step

/-- The standard is met at all moments of a step. -/
theorem holds_unquoted (h : Served cfg log s) {fuel : Nat} {request : Request} {z : Moment}
    (hz : z ∈ s.during cfg fuel request) : unquoted.Holds z :=
  holds_during kept_unquoted (served_unquoted h) (admits_unquoted request) hz

/-- An expression without quotes has a value without quotes. -/
theorem evaluate_unquoted {e : Expr} (he : unquoted.expr e) {m m' : Machine}
    (hm : unquoted.Meets m.store) {fuel : Nat} {v : Value}
    (h : evaluate cfg fuel e m = .ok v m') : v.Unquoted := by
  have hupheld : unquoted.Upholds unquoted.value (evaluate cfg fuel e) :=
    (Standard.UpholdsAt.all kept_unquoted fuel).evaluate he
  specialize hupheld m hm
  rw [h] at hupheld
  exact hupheld.1.1

end Treewalk
