import Treewalk.Proofs.Grammar.Program

/-!
# One program after the other

Two derivations, one after the other, are a derivation of the tokens of both.

Results:

* `parse_append`: two programs that are accepted are accepted one after the other.
-/
namespace Treewalk

namespace Grammar

/-- Declarations, then others. -/
def Decls.append : Decls → Decls → Decls
  | .nil, d => d
  | .cons first others, d => .cons first (others.append d)

theorem Decls.tokens_append : (d d' : Decls) → (d.append d').tokens = d.tokens ++ d'.tokens
  | .nil, _ => rfl
  | .cons first others, d' => by
    rw [Decls.append, Decls.tokens, others.tokens_append, Decls.tokens, List.append_assoc]

theorem Decls.trees_append : (d d' : Decls) → (d.append d').trees = d.trees ++ d'.trees
  | .nil, _ => rfl
  | .cons first others, d' => by
    rw [Decls.append, Decls.trees, others.trees_append, Decls.trees, List.cons_append]

theorem Decls.nearest_append : (d d' : Decls) → d.Nearest → d'.Nearest → (d.append d').Nearest
  | .nil, _, _, h' => h'
  | .cons _ others, d', h, h' => ⟨h.1, others.nearest_append d' h.2 h'⟩

theorem Decls.static_append : (d d' : Decls) → (fs : Nat) → d.Static fs → d'.Static fs →
    (d.append d').Static fs
  | .nil, _, _, _, h' => h'
  | .cons _ others, d', fs, h, h' => ⟨h.1, others.static_append d' fs h.2 h'⟩

theorem Decls.Lawful.append {d d' : Decls} (h : d.Lawful) (h' : d'.Lawful) :
    (d.append d').Lawful :=
  ⟨d.nearest_append d' h.nearest h'.nearest, d.static_append d' 0 h.static h'.static⟩

end Grammar

open Grammar

theorem programTokens_append (tokens tokens' : List Token) :
    programTokens (programTokens tokens ++ tokens') =
      programTokens tokens ++ programTokens tokens' := by
  have hall : ∀ t ∈ programTokens tokens, decide (t.kind ≠ .eof) = true :=
    List.all_eq_true.mp List.all_takeWhile
  exact List.takeWhile_append_of_pos hall

/-- Two programs that are accepted are accepted one after the other. -/
theorem parse_append {tokens tokens' : List Token} {p p' : Program} (h : parse tokens = .ok p)
    (h' : parse tokens' = .ok p') : parse (programTokens tokens ++ tokens') = .ok (p ++ p') := by
  obtain ⟨d, hd, hl, rfl⟩ := parse_sound h
  obtain ⟨d', hd', hl', rfl⟩ := parse_sound h'
  rw [← d.trees_append]
  refine parse_complete (hl.append hl') ?_
  rw [d.tokens_append, hd, hd', programTokens_append]

end Treewalk
