import Treewalk.Proofs.Grammar.Cursor
import Treewalk.Proofs.Lexical.LineCount

/-!
# The order of syntax errors

Problems are recorded when they are met or when a declaration gives up, always at the cursor;
only the left side of an assignment is blamed after its value has been read. The cursor never
goes back, and after a fatal problem it moves on to the next statement boundary. So syntax
errors, those of assignment targets left aside, are listed in the order of the tokens that they
blame, and no token but the end token is given up twice.

Results:

* `OnTokens.resumes`: after a fatal problem reading resumes at the first boundary behind it.
* `assembled_tidy`: every reader keeps the recorded problems in order and behind the cursor.
* `errors_in_source_order`: the order of the syntax errors of any tokens.
-/
namespace Treewalk

open Grammar Parse Lexical

/-! ## Statement boundaries -/

/-- Reading can resume at index `r`: the token there ends the program or is a keyword that a
statement or a declaration starts with, or the one before it is a semicolon. -/
def Boundary (ts : List Token) (r : Nat) : Prop :=
  (∃ t, ts[r]? = some t ∧ (t.kind = .eof ∨ t.kind ∈
      [Kind.classKw, .funKw, .varKw, .forKw, .ifKw, .whileKw, .printKw, .returnKw])) ∨
    ∃ t, ts[r - 1]? = some t ∧ t.kind = .semicolon

theorem startsStatement_iff {k : Kind} : k.startsStatement = true ↔
    k ∈ [Kind.classKw, .funKw, .varKw, .forKw, .ifKw, .whileKw, .printKw, .returnKw] := by
  cases k <;> decide

theorem boundary_drop {ts : List Token} {i n : Nat} (hn : 0 < n) :
    Boundary (ts.drop i) n ↔ Boundary ts (i + n) := by
  have hbefore : i + (n - 1) = i + n - 1 := by omega
  simp only [Boundary, List.getElem?_drop, hbefore]

/-- Skipping stops at the first boundary after the first token. -/
theorem resync_least {e : Token} (he : e.kind = .eof) (after : List Token) :
    ∀ {ts : List Token}, ts ≠ [] → (∀ t ∈ ts, t.kind ≠ .eof) →
      0 < (resync ts).1 ∧ Boundary (ts ++ e :: after) (resync ts).1 ∧
        ∀ r, 0 < r → Boundary (ts ++ e :: after) r → (resync ts).1 ≤ r
  | [], hne, _ => absurd rfl hne
  | [t], _, _ => ⟨Nat.one_pos, .inl ⟨e, rfl, .inl he⟩, fun r hr _ => hr⟩
  | t :: u :: ts, _, hkinds => by
    obtain ⟨-, hkinds⟩ := List.forall_mem_cons.mp hkinds
    unfold resync
    split
    · rename_i hstop
      simp only [Bool.or_eq_true, decide_eq_true_eq] at hstop
      refine ⟨Nat.one_pos, ?_, fun r hr _ => hr⟩
      rcases hstop with hsemicolon | hstarts
      · exact .inr ⟨t, rfl, hsemicolon⟩
      · exact .inl ⟨u, rfl, .inr (startsStatement_iff.mp hstarts)⟩
    · rename_i hgo
      simp only [Bool.or_eq_true, decide_eq_true_eq, not_or] at hgo
      obtain ⟨hpos, hboundary, hleast⟩ := resync_least he after (List.cons_ne_nil u ts) hkinds
      have hshift : ∀ {n}, 0 < n → (Boundary (u :: ts ++ e :: after) n ↔
          Boundary (t :: u :: ts ++ e :: after) (n + 1)) := by
        intro n hn
        rw [Nat.add_comm n 1, ← boundary_drop hn]
        rfl
      refine ⟨Nat.succ_pos _, (hshift hpos).mp hboundary, fun r hr hb => ?_⟩
      -- The next token is no boundary, all others are behind it.
      obtain ⟨n, rfl⟩ : ∃ n, r = n + 1 := ⟨r - 1, by omega⟩
      by_cases hn : 0 < n
      · exact Nat.succ_le_succ (hleast n hn ((hshift hn).mpr hb))
      · obtain rfl : n = 0 := by omega
        rcases hb with ⟨v, hv, heof | hstarts⟩ | ⟨v, hv, hsemicolon⟩
        · cases hv
          exact absurd heof (hkinds u List.mem_cons_self)
        · cases hv
          exact absurd (startsStatement_iff.mpr hstarts) hgo.2
        · cases hv
          exact absurd hsemicolon hgo.1

variable {tokens : List Token} {s s' : ParseState}

theorem terminated_eq (tokens : List Token) :
    ∃ after, terminated tokens = programTokens tokens ++ endToken tokens :: after := by
  obtain ⟨more, hmore⟩ := programTokens_begins (terminated tokens)
  rw [programTokens_terminated] at hmore
  have hend := getElem_programTokens_length (terminated tokens)
  rw [find?_terminated, programTokens_terminated, ← hmore,
    List.getElem?_append_right (Nat.le_refl _), Nat.sub_self] at hend
  cases more with
  | nil => cases hend
  | cons e after =>
    obtain rfl : e = endToken tokens := Option.some.inj hend
    exact ⟨after, hmore.symm⟩

/-- Reading resumes at the first boundary behind the token at hand. -/
theorem OnTokens.resumes (h : OnTokens tokens s) (hne : s.rest ≠ []) :
    s.position < s.resynced.position ∧ Boundary (terminated tokens) s.resynced.position ∧
      ∀ r, s.position < r → Boundary (terminated tokens) r → s.resynced.position ≤ r := by
  obtain ⟨after, hterminated⟩ := terminated_eq tokens
  have hdrop : (terminated tokens).drop s.position = s.rest ++ endToken tokens :: after := by
    rw [hterminated, List.drop_append_of_le_length h.bound, ← h.ahead]
  have hkinds : ∀ t ∈ s.rest, t.kind ≠ .eof := by
    intro t ht
    rw [h.ahead] at ht
    exact programTokens_kind (List.mem_of_mem_drop ht)
  obtain ⟨hpos, hboundary, hleast⟩ := resync_least (endToken_kind tokens) after hne hkinds
  rw [← hdrop] at hboundary hleast
  have hposition : s.resynced.position = s.position + (resync s.rest).1 := rfl
  rw [hposition]
  refine ⟨by omega, (boundary_drop hpos).mp hboundary, fun r hr hb => ?_⟩
  obtain ⟨n, rfl⟩ : ∃ n, r = s.position + n := ⟨r - s.position, by omega⟩
  have hn : 0 < n := by omega
  have hle := hleast n hn ((boundary_drop hn).mpr hb)
  omega

/-! ## Problems behind the cursor -/

/-- The problem does not come after index `n`, and if a token had to be given up, it comes
before `n`. -/
structure Blame.Behind (b : Blame) (n : Nat) : Prop where
  index : b.index ≤ n
  given : b.problem.fatal = true → b.token.isSome = true → b.index < n

theorem Blame.Behind.mono {b : Blame} {n m : Nat} (h : b.Behind n) (hle : n ≤ m) : b.Behind m where
  index := Nat.le_trans h.index hle
  given hfatal htoken := Nat.lt_of_lt_of_le (h.given hfatal htoken) hle

/-- The recorded problems but those of assignment targets. -/
def ParseState.listed (s : ParseState) : List Blame :=
  s.problems.toList.filter (·.problem ≠ .assignmentTarget)

/-- The problems are listed in the order of the tokens that they blame, and the cursor has
passed all of them. -/
structure Orderly (tokens : List Token) (s : ParseState) : Prop where
  cursor : OnTokens tokens s
  sorted : s.listed.Pairwise fun b c => b.Behind c.index
  behind : ∀ b ∈ s.listed, b.Behind s.position
  placed : ∀ b ∈ s.listed, b.token = (programTokens tokens)[b.index]?

theorem orderly_initial (tokens : List Token) :
    Orderly tokens (.initial (programTokens tokens)) where
  cursor := onTokens_initial tokens
  sorted := .nil
  behind := List.forall_mem_nil _
  placed := List.forall_mem_nil _

theorem Orderly.onward (h : Orderly tokens s) (honward : Onward tokens s s')
    (hlisted : s'.listed = s.listed) : Orderly tokens s' := by
  obtain ⟨hcursor, hle⟩ := honward h.cursor
  refine ⟨hcursor, ?_, fun b hb => ?_, fun b hb => ?_⟩
  · rw [hlisted]
    exact h.sorted
  · rw [hlisted] at hb
    exact (h.behind b hb).mono hle
  · rw [hlisted] at hb
    exact h.placed b hb

/-- A problem of the token at hand comes after all that are listed. -/
theorem Orderly.blamed (h : Orderly tokens s) {p : Problem} (honward : Onward tokens s s')
    (hproblems : s'.problems = s.problems.push (s.blame p))
    (hbehind : (s.blame p).Behind s'.position) : Orderly tokens s' := by
  by_cases hp : p = .assignmentTarget
  · refine h.onward honward ?_
    simp [ParseState.listed, hproblems, ParseState.blame, hp]
  · have hlisted : s'.listed = s.listed ++ [s.blame p] := by
      simp [ParseState.listed, hproblems, ParseState.blame, hp]
    obtain ⟨hcursor, hle⟩ := honward h.cursor
    have htoken : (s.blame p).token = (programTokens tokens)[(s.blame p).index]? := by
      rw [ParseState.blame, h.cursor.ahead, List.head?_drop]
    refine ⟨hcursor, ?_, ?_, ?_⟩
    · rw [hlisted, List.pairwise_append]
      refine ⟨h.sorted, List.pairwise_singleton _ _, fun b hb c hc => ?_⟩
      obtain rfl := List.mem_singleton.mp hc
      exact h.behind b hb
    · rw [hlisted, List.forall_mem_append]
      exact ⟨fun b hb => (h.behind b hb).mono hle, by simpa using hbehind⟩
    · rw [hlisted, List.forall_mem_append]
      exact ⟨h.placed, by simpa using htoken⟩

/-- A problem that is not fatal is reported at the token at hand. -/
theorem Orderly.reported (h : Orderly tokens s) {p : Problem} (hp : p.fatal = false) :
    Orderly tokens (s.record (s.blame p)) := by
  refine h.blamed (onward_moves.record s _) rfl ⟨Nat.le_refl _, fun hfatal _ => ?_⟩
  rw [show (s.blame p).problem = p from rfl, hp] at hfatal
  cases hfatal

/-- A fatal problem is left behind when reading resumes. -/
theorem Orderly.resumed (h : Orderly tokens s) (p : Problem) :
    Orderly tokens (s.record (s.blame p)).resynced := by
  refine h.blamed (p := p) ?_ rfl ⟨Nat.le_add_right _ _, fun _ htoken => ?_⟩
  · exact onward_moves.trans (onward_moves.record s _) (onward_moves.resynced _)
  · obtain ⟨t, ht⟩ := Option.isSome_iff_exists.mp htoken
    obtain ⟨ts, hts⟩ := List.head?_eq_some_iff.mp ht
    have hpos : 0 < (resync s.rest).1 := by
      rw [hts]
      exact resync_pos t ts
    exact Nat.lt_add_of_pos_right hpos

/-! ## Readers -/

/-- The problems are in order afterwards, and if there is no result, the reader gives up at the
token at hand. -/
def Leaves (tokens : List Token) {α : Type} : EStateM.Result Halt ParseState α → Prop
  | .ok _ s => Orderly tokens s
  | .error h s => Orderly tokens s ∧ GivesUp h s

/-- The reader keeps problems in order. -/
def Tidy (tokens : List Token) {α : Type} (x : Parse α) : Prop :=
  ∀ s, Orderly tokens s → Leaves tokens (x s)

section Steps

variable {α β : Type}

theorem tidy_bind {x : Parse α} {f : α → Parse β} (hx : Tidy tokens x)
    (hf : ∀ a, Tidy tokens (f a)) : Tidy tokens (x >>= f) := by
  intro s hs
  have h := hx s hs
  cases hxs : x s with
  | ok a s₁ =>
    rw [hxs] at h
    rw [bind_of_ok hxs]
    exact hf a s₁ h
  | error e s₁ =>
    rw [hxs] at h
    rw [bind_of_error hxs]
    exact h

theorem Orderly.advance (h : Orderly tokens s) : Orderly tokens s.advance := by
  refine h.onward (onward_moves.advance s) ?_
  unfold ParseState.advance
  split <;> rfl

theorem tidy_accept (p : Kind → Bool) : Tidy tokens (accept? p) := by
  intro s hs
  rw [accept?_apply]
  split
  · exact hs
  · split
    · exact hs.advance
    · exact hs

theorem tidy_expect (what : Missing) : Tidy tokens (expect what) := by
  intro s hs
  rw [expect_apply]
  split
  · exact ⟨hs, keeps_moves.fatal s _ rfl⟩
  · split
    · exact hs.advance
    · exact ⟨hs, keeps_moves.fatal s _ rfl⟩

theorem tidy_reportIf (c : Bool) {p : Problem} (hp : p.fatal = false) :
    Tidy tokens (reportIf c p) := by
  intro s hs
  cases c with
  | false => exact hs
  | true => exact hs.reported hp

/-- What is said of an assignment target does not count. -/
theorem tidy_record {b : Blame} (hb : b.problem = .assignmentTarget) :
    Tidy tokens (record b) := by
  intro s hs
  rw [Parse.record_apply]
  refine hs.onward (onward_moves.record s b) ?_
  simp [ParseState.listed, ParseState.record, hb]

theorem Orderly.functions (h : Orderly tokens s) (n : Nat) :
    Orderly tokens { s with functions := n } :=
  ⟨⟨h.cursor.ahead, h.cursor.bound⟩, h.sorted, h.behind, h.placed⟩

theorem tidy_enterFunction {x : Parse α} (hx : Tidy tokens x) : Tidy tokens (enterFunction x) := by
  intro s hs
  have h := hx _ (hs.functions (s.functions + 1))
  cases hxs : x { s with functions := s.functions + 1 } with
  | ok a s₁ =>
    rw [hxs] at h
    rw [enterFunction_of_ok hxs]
    exact Orderly.functions h _
  | error e s₁ =>
    rw [hxs] at h
    rw [enterFunction_of_error hxs]
    exact ⟨h.1.functions _, h.2⟩

theorem tidy_recovering {x : Parse α} (hx : Tidy tokens x) : Tidy tokens (recovering x) := by
  intro s hs
  have h := hx s hs
  cases hxs : x s with
  | ok a s₁ =>
    rw [hxs] at h
    rw [recovering_eq_some.mpr hxs]
    exact h
  | error e s₁ =>
    rw [hxs] at h
    cases e with
    | outOfFuel =>
      rw [recovering_of_outOfFuel hxs]
      exact h
    | fatal b =>
      obtain ⟨hs₁, hgives⟩ := h
      rw [recovering_eq_none.mpr ⟨b, s₁, hxs, rfl⟩, (hgives b rfl).2]
      exact hs₁.resumed b.problem

end Steps

/-- Every reader keeps the recorded problems in order and behind the cursor. -/
theorem assembled_tidy (tokens : List Token) : Assembled (Single (Tidy tokens)) where
  pure _ _ hs := hs
  bind := tidy_bind
  outOfFuel s hs := ⟨hs, keeps_moves.outOfFuel s⟩
  fail hp s hs := ⟨hs, keeps_moves.fatal s _ hp⟩
  peek _ hs := hs
  check _ _ hs := hs
  skip _ hs := hs.advance
  accept := tidy_accept
  expect := tidy_expect
  reportIf c _ hp _ := tidy_reportIf c hp
  blame hf s hs := hf _ rfl s hs
  record := tidy_record
  inFunction _ hs := hs
  reportReturn c := tidy_reportIf c rfl
  enterFunction := tidy_enterFunction
  recovering := tidy_recovering

/-! ## Syntax errors -/

/-- A listed problem is one of a token of the program or of its end token. -/
theorem Orderly.error_token (h : Orderly tokens s) {b : Blame} (hb : b ∈ s.listed) :
    (terminated tokens)[b.index]? = some (b.error (endToken tokens)).token ∧
      ((b.error (endToken tokens)).token.kind ≠ .eof → b.token.isSome = true) := by
  have hbound : b.index ≤ (programTokens tokens).length :=
    Nat.le_trans (h.behind b hb).index h.cursor.bound
  have hhere : OnTokens tokens ⟨(programTokens tokens).drop b.index, b.index, 0, #[]⟩ :=
    ⟨rfl, hbound⟩
  have htoken := hhere.token
  rw [List.head?_drop, ← h.placed b hb] at htoken
  refine ⟨htoken, fun hkind => ?_⟩
  cases hb' : b.token with
  | some t => rfl
  | none => simp [Blame.error, hb', endToken_kind] at hkind

theorem orderly_of_read {p : Program} (h : readProgram (programTokens tokens) = .ok p s) :
    Orderly tokens s := by
  have hleaves : Leaves tokens (readProgram (programTokens tokens)) :=
    (StatementReadersAt.assembled (assembled_tidy tokens) _).declarations false _
      (orderly_initial tokens)
  rw [h] at hleaves
  exact hleaves

/-- The syntax errors but those about assignment targets. -/
def listedErrors (tokens : List Token) : List ParseError :=
  (syntaxErrors tokens).filter (·.problem ≠ .assignmentTarget)

theorem listedErrors_of_read {p : Program} (h : readProgram (programTokens tokens) = .ok p s) :
    listedErrors tokens = s.listed.map (·.error (endToken tokens)) := by
  rw [listedErrors, syntaxErrors_of_read h, List.filter_map]
  rfl

/-- Every error that makes a declaration give up is listed. -/
theorem filter_fatal (tokens : List Token) :
    (syntaxErrors tokens).filter (·.problem.fatal) =
      (listedErrors tokens).filter (·.problem.fatal) := by
  rw [listedErrors, List.filter_filter]
  refine List.filter_congr fun e _ => ?_
  cases e.problem <;> rfl

theorem terminated_scan (source : String) :
    terminated (scan source).tokens = (scan source).tokens := by
  rw [terminated, scan_tokens_sites, List.getLast?_concat]
  rfl

/-- Of two tokens of a text the later one is not on an earlier line. -/
theorem scan_line_le {source : String} {t u : Token} {i j : Nat}
    (ht : (scan source).tokens[i]? = some t) (hu : (scan source).tokens[j]? = some u)
    (hle : i ≤ j) : t.line ≤ u.line := by
  obtain ⟨hi, rfl⟩ := List.getElem?_eq_some_iff.mp ht
  obtain ⟨hj, rfl⟩ := List.getElem?_eq_some_iff.mp hu
  rcases Nat.eq_or_lt_of_le hle with rfl | hlt
  · exact Nat.le_refl _
  · exact List.pairwise_iff_getElem.mp (scan_tokens_sorted source) i j hi hj hlt

/-- A declaration that gives up at a token of the program ends at the first boundary behind it. -/
theorem declaration_resumes {fuel : Nat} {b : Blame} {s₁ : ParseState} (hs : OnTokens tokens s)
    (h : unrecovered fuel s = .error (.fatal b) s₁) :
    ∃ s', declaration (fuel + 1) s = .ok none s' ∧ s'.problems = s₁.problems.push b ∧
      (terminated tokens)[b.index]? = some (b.error (endToken tokens)).token ∧
      ((b.error (endToken tokens)).token.kind ≠ .eof →
        b.index < s'.position ∧ Boundary (terminated tokens) s'.position ∧
          ∀ r, b.index < r → Boundary (terminated tokens) r → s'.position ≤ r) := by
  have hkept : Kept (Onward tokens) GivesUp s (unrecovered fuel s) :=
    (obeysStatements onward_moves fuel).unrecovered (composed_obeys onward_moves).toAssembled s
  rw [h] at hkept
  obtain ⟨honward, hgives⟩ := hkept
  obtain ⟨hs₁, -⟩ := honward hs
  have hblame : b = s₁.blame b.problem := (hgives b rfl).2
  refine ⟨(s₁.record b).resynced, recovering_eq_none.mpr ⟨b, s₁, h, rfl⟩, rfl, ?_, fun hkind => ?_⟩
  · rw [hblame]
    exact hs₁.token
  · have hindex : b.index = s₁.position := by rw [hblame]; rfl
    have hne : s₁.rest ≠ [] := by
      intro hnil
      rw [hblame] at hkind
      exact hkind (hs₁.rest_eq_nil.mp hnil)
    rw [hindex]
    exact hs₁.resumes hne

/-- Syntax errors, those about assignment targets left aside, blame tokens in the order in which
these stand, so those of a source text are on lines that never go down, and only the end token
is given up twice. A declaration that gives up at any other token ends at the first boundary
behind that token: the end token, a token that starts a statement, or one after a semicolon. -/
theorem errors_in_source_order (tokens : List Token) :
    (∀ e ∈ listedErrors tokens, (terminated tokens)[e.index]? = some e.token) ∧
    (listedErrors tokens).Pairwise (fun e e' => e.index ≤ e'.index) ∧
    (∀ source, tokens = (scan source).tokens →
      (listedErrors tokens).Pairwise fun e e' => e.line ≤ e'.line) ∧
    ((syntaxErrors tokens).filter (·.problem.fatal)).Pairwise (fun e e' =>
      e.index = e'.index → e.token.kind = .eof) ∧
    ∀ s fuel b s₁, OnTokens tokens s → unrecovered fuel s = .error (.fatal b) s₁ →
      ∃ s', declaration (fuel + 1) s = .ok none s' ∧ s'.problems = s₁.problems.push b ∧
        (terminated tokens)[b.index]? = some (b.error (endToken tokens)).token ∧
        ((b.error (endToken tokens)).token.kind ≠ .eof →
          b.index < s'.position ∧ Boundary (terminated tokens) s'.position ∧
            ∀ r, b.index < r → Boundary (terminated tokens) r → s'.position ≤ r) := by
  obtain ⟨p, s, hread, -⟩ := readProgram_ends (programTokens tokens)
  have horderly := orderly_of_read hread
  have hlisted := listedErrors_of_read hread
  have hplaced : ∀ e ∈ listedErrors tokens, (terminated tokens)[e.index]? = some e.token := by
    rw [hlisted, List.forall_mem_map]
    exact fun b hb => (horderly.error_token hb).1
  have hsorted : (listedErrors tokens).Pairwise fun e e' => e.index ≤ e'.index := by
    rw [hlisted, List.pairwise_map]
    exact horderly.sorted.imp fun h => h.index
  refine ⟨hplaced, hsorted, ?_, ?_, fun s fuel b s₁ => declaration_resumes⟩
  · intro source hsource
    subst hsource
    rw [terminated_scan] at hplaced
    exact hsorted.imp_of_mem fun he he' hle => scan_line_le (hplaced _ he) (hplaced _ he') hle
  · -- A token that was given up is before the next problem.
    rw [filter_fatal, List.pairwise_filter, hlisted, List.pairwise_map]
    refine horderly.sorted.imp_of_mem fun {b c} hb _ hbehind hfatal _ hindex => ?_
    by_contra hkind
    have hlt := hbehind.given hfatal ((horderly.error_token hb).2 hkind)
    exact absurd hindex (Nat.ne_of_lt hlt)

-- Each block that is not closed gives up at the end token, one after the other.
example : (syntaxErrors (scan "\x7b \x7b print 1 + ;").tokens).map (fun e => (e.index, e.report)) =
    [(5, 1, " at ';'", "Expect expression."), (6, 1, " at end", "Expect '\x7d' after block."),
      (6, 1, " at end", "Expect '\x7d' after block.")] := by
  decide +kernel

end Treewalk
