import Treewalk.Proofs.Machine.Operating
import Treewalk.Proofs.Scoping.Session

/-!
# Operators that a session meets

Every operator in an accepted program is one that its kind of expression has. A session
runs the parts of its programs and nothing else, so it never meets any other operator,
not even in a function that an earlier program left behind.

Results:

* `meets_inputs`: the functions that a session has made have operators in order.
* `operators_in_order`: so has all that is ever run, and no run stops for a lack of it.
-/
namespace Treewalk

/-! ## Parts of the source -/

/-- All operators in a part of the source are in order. -/
def Node.Operates : Node → Prop
  | .session ps => ∀ p ∈ ps, Stmt.EverywhereAll Stmt.Operates p
  | .program ss => Stmt.EverywhereAll Stmt.Operates ss
  | .stmt s => s.Everywhere Stmt.Operates
  | .expr e => e.Everywhere Expr.Operates

theorem Node.Operates.nodes {s : Stmt} (h : s.Everywhere Stmt.Operates) :
    ∀ part ∈ s.nodes, part.Operates := by
  intro part hpart
  cases s with
  | block body =>
    obtain ⟨t, ht, rfl⟩ := List.mem_map.mp hpart
    exact h.parts t ht
  | function name params body =>
    obtain ⟨t, ht, rfl⟩ := List.mem_map.mp hpart
    exact Stmt.everywhereAll_iff.mp h.2 t ht
  | _ =>
    rw [Node.nodes_eq rfl, List.mem_append, List.mem_map, List.mem_map] at hpart
    obtain ⟨e, he, rfl⟩ | ⟨t, ht, rfl⟩ := hpart
    · exact h.self e he
    · exact h.parts t ht

theorem Node.Operates.parts {node : Node} (h : node.Operates) :
    ∀ part ∈ node.parts, part.Operates := by
  intro part hpart
  cases node with
  | session ps =>
    obtain ⟨p, hp, rfl⟩ := List.mem_map.mp hpart
    exact h p hp
  | program ss =>
    obtain ⟨s, hs, rfl⟩ := List.mem_map.mp hpart
    exact Stmt.everywhereAll_iff.mp h s hs
  | stmt s => exact Node.Operates.nodes h part hpart
  | expr e =>
    obtain ⟨x, hx, rfl⟩ := List.mem_map.mp hpart
    exact Expr.Everywhere.parts h x hx

namespace Scoping

theorem sessionSource_operates (inputs : List Input) : (sessionSource inputs).Operates := by
  intro p hp
  obtain ⟨input, -, rfl⟩ := List.mem_map.mp hp
  exact parse_operates input.parsed

/-! ## Runs -/

theorem upholds_input (cfg : Setting) (input : Input) :
    (operating Stmt.Operates).Upholds (fun _ => True) (input.run cfg) := by
  have hp := parse_operates input.parsed
  unfold Input.run
  split
  · exact upholds_echo (fun _ => id) input.fuel hp
  · exact Standard.upholds_interpret (kept_operating fun _ => id) cfg input.fuel
      (Stmt.everywhereAll_iff.mp hp)

/-- The functions of a session of parsed programs have operators in order. -/
theorem meets_inputs (cfg : Setting) (inputs : List Input) :
    (operating Stmt.Operates).Meets
      (inputs.foldl (fun m input => after (input.run cfg m)) Machine.initial).store := by
  suffices h : ∀ m : Machine, (operating Stmt.Operates).Meets m.store →
      (operating Stmt.Operates).Meets
        (inputs.foldl (fun m input => after (input.run cfg m)) m).store from
    h Machine.initial meets_initial
  induction inputs with
  | nil => exact fun _ hm => hm
  | cons input inputs ih => exact fun m hm => ih _ ((upholds_input cfg input).after hm)

/-- Whatever a session of parsed programs evaluates has an operator of its kind of
expression, whichever program it comes from, and no further program finds another one. -/
theorem operators_in_order (cfg : Setting) (inputs : List Input) :
    (watchSession cfg inputs).machine =
      inputs.foldl (fun m input => after (input.run cfg m)) Machine.initial ∧
    (∀ s ∈ (watchSession cfg inputs).sights,
      (∀ op right, s.part = .expr (.unary op right) → op.kind ∈ [Kind.bang, .minus]) ∧
      (∀ left op right, s.part = .expr (.binary left op right) →
        op.kind ∈ [Kind.comma, .equalEqual, .bangEqual, .plus, .minus, .star, .slash, .greater,
          .greaterEqual, .less, .lessEqual]) ∧
      (∀ left op right, s.part = .expr (.logical left op right) →
        op.kind ∈ [Kind.orKw, .andKw])) ∧
    ∀ (input : Input) (op : Token) (m : Machine),
      input.run cfg (watchSession cfg inputs).machine ≠ .error (.malformed op) m := by
  have hmachine : (watchSession cfg inputs).machine =
      inputs.foldl (fun m input => after (input.run cfg m)) Machine.initial :=
    machine_watchFrom cfg Watch.initial 0 inputs
  refine ⟨hmachine, fun s hs => ?_, fun input op m h => ?_⟩
  · have hpart : s.part.Operates :=
      (sessionSource inputs).all_parts Node.Operates.parts
        (sessionSource_operates inputs) ((good_watchSession cfg inputs).sights s hs).part
    refine ⟨fun op right he => ?_, fun left op right he => ?_, fun left op right he => ?_⟩
    all_goals
      rw [he] at hpart
      simpa only [Expr.Operates, Kind.isUnary, Kind.isBinary, Kind.isLogical, Bool.or_eq_true,
        decide_eq_true_eq, or_assoc, List.mem_cons, List.not_mem_nil, or_false] using hpart.1
  · have hmeets := meets_inputs cfg inputs
    rw [← hmachine] at hmeets
    have hupheld := upholds_input cfg input _ hmeets
    rw [h] at hupheld
    exact hupheld.1

end Scoping

end Treewalk
