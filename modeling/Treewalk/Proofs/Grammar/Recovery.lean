import Treewalk.Proofs.Grammar.Context
import Treewalk.Proofs.Grammar.Program
import Treewalk.Proofs.Grammar.Progress

/-!
# Recovery is local

A malformed statement that is closed by a semicolon does not disturb what follows: the
syntax errors of two texts in a row are those of the first one and those of the second
one. The first text must not leave anything open, so none of its errors is at its end,
and the second one must not go on with an `if` of the first.

Results:

* `declarations_embed`: declarations are read up to the end of a text in the same way
  when another one follows.
* `readProgram_append`: the problems and statements of two texts in a row.
* `recovery_local`: their syntax errors.
-/
namespace Treewalk

open Grammar Parse Context

/-! ## What has been read -/

/-- The tokens between the two states have been read. -/
def Advances (s s' : ParseState) : Prop :=
  ∃ read, s.rest = read ++ s'.rest ∧ s'.position = s.position + read.length ∧
    s'.functions = s.functions

theorem resync_split : ∀ ts : List Token,
    ∃ skipped, ts = skipped ++ (resync ts).2 ∧ (resync ts).1 = skipped.length
  | [] => ⟨[], rfl, rfl⟩
  | [t] => ⟨[t], rfl, rfl⟩
  | t :: u :: rest => by
    unfold resync
    split
    · exact ⟨[t], rfl, rfl⟩
    · obtain ⟨skipped, hrest, hlength⟩ := resync_split (u :: rest)
      exact ⟨t :: skipped, congrArg (t :: ·) hrest, congrArg (· + 1) hlength⟩

theorem advances_moves : Moves Advances (fun _ _ => True) where
  refl s := ⟨[], rfl, rfl, rfl⟩
  trans := by
    rintro s₁ s₂ s₃ ⟨read, hrest, hposition, hfunctions⟩ ⟨read', hrest', hposition', hfunctions'⟩
    refine ⟨read ++ read', ?_, ?_, hfunctions'.trans hfunctions⟩
    · rw [hrest, hrest', List.append_assoc]
    · rw [hposition', hposition, List.length_append, Nat.add_assoc]
  advance s := by
    obtain ⟨rest, n, fs, bs⟩ := s
    cases rest with
    | nil => exact ⟨[], rfl, rfl, rfl⟩
    | cons t ts => exact ⟨[t], rfl, rfl, rfl⟩
  record s b := ⟨[], rfl, rfl, rfl⟩
  resynced s := by
    obtain ⟨skipped, hrest, hlength⟩ := resync_split s.rest
    exact ⟨skipped, hrest, congrArg (s.position + ·) hlength, rfl⟩
  function s s' h := by
    obtain ⟨read, hrest, hposition, hfunctions⟩ := h
    exact ⟨read, hrest, hposition, Nat.sub_eq_of_eq_add hfunctions⟩
  fatal _ _ _ := trivial
  outOfFuel _ := trivial
  leave _ _ _ _ := trivial

/-- The last token ahead stays the last one. -/
theorem Advances.getLast {s s' : ParseState} (h : Advances s s') {t : Token}
    (ht : s'.rest.getLast? = some t) : s.rest.getLast? = some t := by
  obtain ⟨read, hrest, -⟩ := h
  rw [hrest, List.getLast?_append, ht, Option.some_or]

/-! ## Declarations up to the end of a text -/

section Declarations

variable {c : Context}

/-- Nothing is left open: no problem is at the end, and the text ends with a semicolon or
was never given up. -/
structure Closed (s s' : ParseState) : Prop where
  placed : ∀ b ∈ s'.problems, b.token.isSome = true
  ended : (∀ t, s.rest.getLast? = some t → t.kind = .semicolon) ∨ NoFatal s'

theorem Closed.first {s s₁ s' : ParseState} (h : Closed s s') (hkeeps : Keeps s₁ s') :
    Closed s s₁ where
  placed b hb := h.placed b (hkeeps b hb)
  ended := h.ended.imp id fun hn b hb => hn b (hkeeps b hb)

theorem Closed.others {s s₁ s' : ParseState} (h : Closed s s') (hadvances : Advances s s₁) :
    Closed s₁ s' where
  placed := h.placed
  ended := h.ended.imp (fun hlast t ht => hlast t (hadvances.getLast ht)) id

/-- A declaration is read or skipped in the same way when other tokens follow. -/
theorem declaration_embed (helse : NoElse c.behind) {fuel fuel' : Nat} (hfuel : fuel ≤ fuel')
    {s s' : ParseState} {first : Option Stmt} (h : declaration fuel s = .ok first s')
    (hclosed : Closed s s') : declaration fuel' (c.embed s) = .ok first (c.embed s') := by
  cases fuel with
  | zero => cases h
  | succ fuel =>
    obtain ⟨fuel', rfl⟩ : ∃ k, fuel' = k + 1 := ⟨fuel' - 1, by omega⟩
    have hle := Nat.le_of_succ_le_succ hfuel
    have hreads := (CompletesAt.all helse hle).unrecovered hle
    rw [declaration_succ] at h ⊢
    cases first with
    | some d =>
      have hx := recovering_eq_some.mp h
      have hy := hreads.settled s (by rw [hx]; trivial)
      rw [hx] at hy
      exact recovering_eq_some.mpr hy
    | none =>
      obtain ⟨b, s₁, hx, rfl⟩ := recovering_eq_none.mp h
      have hgives : Kept Keeps GivesUp s (unrecovered fuel s) :=
        (obeysStatements keeps_moves fuel).unrecovered (composed_obeys keeps_moves).toAssembled s
      have hadvances : Kept Advances (fun _ _ => True) s (unrecovered fuel s) :=
        (obeysStatements advances_moves fuel).unrecovered
          (composed_obeys advances_moves).toAssembled s
      rw [hx] at hgives hadvances
      obtain ⟨hfatal, hblame⟩ := hgives.2 b rfl
      -- The problem is not at the end, so neither was the reader.
      have hne : s₁.rest ≠ [] := by
        intro hnil
        have hplaced := hclosed.placed b Array.mem_push_self
        rw [hblame, ParseState.blame, hnil] at hplaced
        cases hplaced
      have hlast : ∃ t, s₁.rest.getLast? = some t ∧ t.kind = .semicolon := by
        obtain hlast | hnone := hclosed.ended
        · have hsome := List.getLast?_eq_some_getLast hne
          exact ⟨_, hsome, hlast _ (hadvances.1.getLast hsome)⟩
        · have := hnone b Array.mem_push_self
          rw [hfatal] at this
          cases this
      have hy := hreads.settled s (by rw [hx]; exact .inr hne)
      rw [hx] at hy
      exact recovering_eq_none.mpr ⟨_, _, hy, (embed_resynced (.inr (.inr hlast)) b).symm⟩

theorem declarations_of_ne_nil {fuel : Nat} {s : ParseState} (h : s.rest ≠ []) :
    declarations (fuel + 1) false s =
      (do
        let first ← declaration fuel
        let others ← declarations fuel false
        return first.toList ++ others) s := by
  rw [declarations, bind_of_ok (peek?_apply s)]
  cases hs : s.rest with
  | nil => exact (h hs).elim
  | cons t ts => rfl

theorem bind_congr_state {α β : Type} {x y : Parse α} {f : α → Parse β} {s s' : ParseState}
    (h : x s = y s') : (x >>= f) s = (y >>= f) s' := by
  show EStateM.bind x f s = EStateM.bind y f s'
  rw [EStateM.bind, EStateM.bind, h]

/-- Declarations are read up to the end of a text in the same way when other tokens follow;
those are read next, with at least one unit of fuel less for each token. -/
theorem declarations_embed (helse : NoElse c.behind) {p : List Stmt} {s' : ParseState} :
    ∀ {fuel fuel' : Nat} {s : ParseState}, fuel ≤ fuel' →
      declarations fuel false s = .ok p s' → Closed s s' →
      ∃ left, fuel' ≤ left + s.rest.length ∧
        declarations fuel' false (c.embed s) =
          (do
            let others ← declarations left false
            return p ++ others) (c.embed s') := by
  intro fuel
  induction fuel generalizing p with
  | zero =>
    intro fuel' s _ h
    cases h
  | succ fuel ih =>
    intro fuel' s hfuel h hclosed
    obtain ⟨-, rfl, rfl⟩ | ⟨hne, -, first, s₁, hfirst, others, s₂, hothers, rfl, rfl⟩ :=
      declarations_eq_ok.mp h
    · exact ⟨fuel', Nat.le_add_right _ _, by simp⟩
    · obtain ⟨fuel', rfl⟩ : ∃ k, fuel' = k + 1 := ⟨fuel' - 1, by omega⟩
      have hle := Nat.le_of_succ_le_succ hfuel
      have hkeeps : Kept Keeps GivesUp s₁ (declarations fuel false s₁) :=
        (obeysStatements keeps_moves fuel).declarations false s₁
      have hadvances : Kept Advances (fun _ _ => True) s (declaration fuel s) :=
        (obeysStatements advances_moves fuel).declaration s
      have hshorter := (ProceedsStatementsAt.all fuel).declaration s.rest.length
        (List.length_pos_iff.mpr hne) s rfl
      rw [hothers] at hkeeps
      rw [hfirst] at hadvances hshorter
      obtain ⟨left, hleft, hread⟩ := ih hle hothers (hclosed.others hadvances)
      have hshorter : s₁.rest.length + 1 ≤ s.rest.length := hshorter
      refine ⟨left, by omega, ?_⟩
      have hrest : (c.embed s).rest ≠ [] := List.append_ne_nil_of_left_ne_nil hne _
      rw [declarations_of_ne_nil hrest,
        bind_of_ok (declaration_embed helse hle hfirst (hclosed.first hkeeps)),
        bind_congr_state hread]
      simp [List.append_assoc]

end Declarations

/-! ## Two texts in a row -/

theorem Blame.map_shift_zero (bs : Array Blame) : bs.map (·.shift 0) = bs := by
  have hid : (fun b : Blame => b.shift 0) = id := rfl
  rw [hid, Array.map_id]

/-- Two texts in a row have the statements of both, and the problems of the first one come
before those of the second one. -/
theorem readProgram_append {X Y : List Token} {p q : Program} {s t : ParseState}
    (hX : readProgram X = .ok p s) (hY : readProgram Y = .ok q t)
    (hclosed : Closed (.initial X) s) (helse : NoElse Y) :
    ∃ u, readProgram (X ++ Y) = .ok (p ++ q) u ∧
      u.problems = s.problems ++ t.problems.map (·.shift X.length) := by
  let first : Context := ⟨Y, 0, #[]⟩
  let second : Context := ⟨[], X.length, s.problems⟩
  have hfuel : fuel X.length ≤ fuel (X ++ Y).length := by
    simp only [fuel, List.length_append]
    omega
  obtain ⟨left, hleft, hread⟩ := declarations_embed (c := first) helse hfuel hX hclosed
  have hstart : first.embed (.initial X) = .initial (X ++ Y) := by
    simp [first, embed, ParseState.initial]
  -- At the end of the first text the second one starts, after all that was read.
  have hbetween : first.embed s = second.embed (.initial Y) := by
    have hadvances : Kept Advances (fun _ _ => True) (.initial X) (readProgram X) :=
      (obeysStatements advances_moves _).declarations false _
    rw [hX] at hadvances
    obtain ⟨read, hrest, hposition, hfunctions⟩ := hadvances
    have hend : s.rest = [] := declarations_rest hX
    have hlength : s.position = X.length := by
      rw [hposition, show X = read ++ s.rest from hrest, hend, List.append_nil]
      exact Nat.zero_add _
    simp [first, second, embed, hend, hlength, hfunctions, ParseState.initial,
      Blame.map_shift_zero]
  have henough : fuel Y.length ≤ left := by
    simp only [fuel, List.length_append, ParseState.initial] at hleft ⊢
    omega
  have hnoElse : NoElse second.behind := fun u hu => by cases hu
  have hreads : CompletesAt second (fuel Y.length) left := .all hnoElse henough
  have hsecond := (hreads.declarations false).inside (.initial Y) (by
    rw [show declarations (fuel Y.length) false (.initial Y) = .ok q t from hY]
    exact .inl rfl)
  rw [show declarations (fuel Y.length) false (.initial Y) = .ok q t from hY] at hsecond
  refine ⟨second.embed t, ?_, rfl⟩
  rw [hstart, hbetween, bind_of_ok hsecond] at hread
  exact hread

/-! ## Syntax errors -/

/-- The syntax errors of a token sequence. -/
def syntaxErrors (tokens : List Token) : List ParseError :=
  match parse tokens with
  | .ok _ => []
  | .error errors => errors

/-- The error, after a number of other tokens. -/
def ParseError.shift (e : ParseError) (n : Nat) : ParseError := { e with index := e.index + n }

/-- What is reported of an error: its line, its location and its message. -/
def ParseError.report (e : ParseError) : Nat × String × String := (e.line, e.location, e.message)

/-- Tokens before an error do not show in its report. -/
@[simp]
theorem ParseError.report_shift (e : ParseError) (n : Nat) : (e.shift n).report = e.report := rfl

theorem programTokens_of_eofFree {tokens : List Token} (h : ∀ t ∈ tokens, t.kind ≠ .eof) :
    programTokens tokens = tokens := by
  have hall : ∀ t ∈ tokens, decide (t.kind ≠ .eof) = true := fun t ht => decide_eq_true (h t ht)
  have happend : (tokens ++ []).takeWhile (fun t : Token => decide (t.kind ≠ Kind.eof)) =
      tokens ++ [].takeWhile _ := List.takeWhile_append_of_pos hall
  rwa [List.append_nil, List.takeWhile_nil, List.append_nil] at happend

theorem find_eof {tokens : List Token} (h : ∀ t ∈ tokens, t.kind ≠ .eof) :
    tokens.find? (fun t => decide (t.kind = .eof)) = none := by
  rw [List.find?_eq_none]
  intro t ht
  simpa using h t ht

theorem endToken_kind (tokens : List Token) : (endToken tokens).kind = .eof := by
  unfold endToken
  cases hfind : tokens.find? (fun t => decide (t.kind = .eof)) with
  | none => rfl
  | some t =>
    have ht := List.find?_some hfind
    simpa using ht

theorem endToken_append {X Y : List Token} (hX : ∀ t ∈ X, t.kind ≠ .eof)
    (hY : ∀ t ∈ Y, t.kind ≠ .eof) (hne : Y ≠ []) : endToken (X ++ Y) = endToken Y := by
  have hXY : ∀ t ∈ X ++ Y, t.kind ≠ .eof := List.forall_mem_append.mpr ⟨hX, hY⟩
  unfold endToken
  rw [find_eof hXY, find_eof hY, List.getLast?_append, List.getLast?_eq_some_getLast hne,
    Option.some_or]

/-- The error of a problem that is not at the end. -/
theorem error_of_placed {b : Blame} (h : b.token.isSome = true) (finish finish' : Token) :
    b.error finish = b.error finish' := by
  obtain ⟨u, hu⟩ := Option.isSome_iff_exists.mp h
  simp [Blame.error, hu]

theorem syntaxErrors_of_read {tokens : List Token} {p : Program} {s : ParseState}
    (h : readProgram (programTokens tokens) = .ok p s) :
    syntaxErrors tokens = s.problems.toList.map (·.error (endToken tokens)) := by
  unfold syntaxErrors parse
  rw [h]
  dsimp only
  split
  · rename_i hempty
    split at hempty
    · rename_i hproblems
      rw [Array.isEmpty_iff.mp hproblems]
      rfl
    · cases hempty
  · rename_i hempty
    split at hempty
    · cases hempty
    · cases hempty
      rfl

section Errors

variable {tokens : List Token} (hfree : ∀ t ∈ tokens, t.kind ≠ .eof) {p : Program} {s : ParseState}
  (hread : readProgram tokens = .ok p s)

include hfree hread

theorem syntaxErrors_eq :
    syntaxErrors tokens = s.problems.toList.map (·.error (endToken tokens)) :=
  syntaxErrors_of_read (by rwa [programTokens_of_eofFree hfree])

theorem parse_of_no_errors (hnone : syntaxErrors tokens = []) : parse tokens = .ok p := by
  rw [syntaxErrors_eq hfree hread, List.map_eq_nil_iff] at hnone
  refine parse_eq_ok.mpr ⟨s, ?_, Array.toList_eq_nil_iff.mp hnone⟩
  rw [programTokens_of_eofFree hfree, hread]

/-- What a text reports tells whether it leaves anything open. -/
theorem closed_of_errors (hend : ∀ e ∈ syntaxErrors tokens, e.location ≠ " at end")
    (hclosed : tokens = [] ∨ (∃ t, tokens.getLast? = some t ∧ t.kind = .semicolon) ∨
      ∃ p, parse tokens = .ok p) : Closed (.initial tokens) s := by
  constructor
  · intro b hb
    have he : b.error (endToken tokens) ∈ syntaxErrors tokens := by
      rw [syntaxErrors_eq hfree hread]
      exact List.mem_map_of_mem (Array.mem_toList_iff.mpr hb)
    cases htoken : b.token with
    | some u => rfl
    | none =>
      refine (hend _ he ?_).elim
      simp [ParseError.location, Blame.error, htoken, endToken_kind]
  · obtain rfl | ⟨t, ht, hsemicolon⟩ | ⟨p', hp⟩ := hclosed
    · exact .inl nofun
    · refine .inl fun u hu => ?_
      obtain rfl : t = u := Option.some.inj (ht.symm.trans hu)
      exact hsemicolon
    · obtain ⟨s', hread', hproblems⟩ := parse_eq_ok.mp hp
      rw [programTokens_of_eofFree hfree, hread] at hread'
      cases hread'
      exact .inr fun b hb => by simp [hproblems] at hb

end Errors

/-- A text whose syntax errors are not at its end, and that is empty or ends with a semicolon
or has none, does not disturb what follows, unless an `else` does: the syntax errors of both
texts in a row are those of the first one and then those of the second one, and if there are
none, the program is that of the first text and then that of the second one. -/
theorem recovery_local {X Y : List Token} (hX : ∀ t ∈ X, t.kind ≠ .eof)
    (hY : ∀ t ∈ Y, t.kind ≠ .eof) (hend : ∀ e ∈ syntaxErrors X, e.location ≠ " at end")
    (hclosed : X = [] ∨ (∃ t, X.getLast? = some t ∧ t.kind = .semicolon) ∨
      ∃ p, parse X = .ok p)
    (helse : ∀ t ∈ Y.head?, t.kind ≠ .elseKw) :
    syntaxErrors (X ++ Y) = syntaxErrors X ++ (syntaxErrors Y).map (·.shift X.length) ∧
    (syntaxErrors (X ++ Y)).map (·.report) =
      (syntaxErrors X).map (·.report) ++ (syntaxErrors Y).map (·.report) ∧
    (syntaxErrors (X ++ Y) = [] → ∃ p q, parse X = .ok p ∧ parse Y = .ok q ∧
      parse (X ++ Y) = .ok (p ++ q)) := by
  have hXY : ∀ t ∈ X ++ Y, t.kind ≠ .eof := List.forall_mem_append.mpr ⟨hX, hY⟩
  obtain ⟨p, s, hreadX, -⟩ := readProgram_ends X
  obtain ⟨q, t, hreadY, -⟩ := readProgram_ends Y
  have hshut : Closed (.initial X) s := closed_of_errors hX hreadX hend hclosed
  obtain ⟨u, hread, hproblems⟩ := readProgram_append hreadX hreadY hshut helse
  have hfirst : s.problems.toList.map (·.error (endToken (X ++ Y))) = syntaxErrors X := by
    rw [syntaxErrors_eq hX hreadX]
    refine List.map_congr_left fun b hb => ?_
    exact error_of_placed (hshut.placed b (Array.mem_toList_iff.mp hb)) _ _
  have hsecond : (t.problems.map (·.shift X.length)).toList.map (·.error (endToken (X ++ Y))) =
      (syntaxErrors Y).map (·.shift X.length) := by
    rw [syntaxErrors_eq hY hreadY, Array.toList_map, List.map_map, List.map_map]
    cases Y with
    | nil =>
      cases hreadY
      rfl
    | cons y ys =>
      rw [endToken_append hX hY (List.cons_ne_nil y ys)]
      rfl
  have hboth : syntaxErrors (X ++ Y) =
      syntaxErrors X ++ (syntaxErrors Y).map (·.shift X.length) := by
    rw [syntaxErrors_eq hXY hread, hproblems, Array.toList_append, List.map_append, hfirst,
      hsecond]
  refine ⟨hboth, by simp [hboth], fun hnone => ?_⟩
  obtain ⟨hnoneX, hnoneY⟩ := List.append_eq_nil_iff.mp (hboth ▸ hnone)
  rw [List.map_eq_nil_iff] at hnoneY
  exact ⟨p, q, parse_of_no_errors hX hreadX hnoneX, parse_of_no_errors hY hreadY hnoneY,
    parse_of_no_errors hXY hread hnone⟩

/-- A missing operand in a function body is skipped up to the next statement of that body, and
a second one up to its semicolon; the text that follows is read from its first token. -/
theorem recovery_local_missing_operands :
    let X := programTokens (scan "fun f() \x7b print ; return nil; \x7d\nx = ;").tokens
    let Y := programTokens (scan "var; print y;").tokens
    (syntaxErrors (X ++ Y)).map (·.report) =
      [(1, " at ';'", "Expect expression."), (2, " at ';'", "Expect expression."),
        (1, " at ';'", "Expect variable name.")] := by
  intro X Y
  have hlast : X.getLast?.map (·.kind) = some .semicolon := by decide +kernel
  have hboth := (recovery_local (X := X) (Y := Y) (by decide +kernel) (by decide +kernel)
    (by decide +kernel) (.inr (.inl (Option.map_eq_some_iff.mp hlast))) (by decide +kernel)).2.1
  rw [hboth]
  decide +kernel

end Treewalk
