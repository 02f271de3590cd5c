import Mathlib.Data.List.Nodup
import Treewalk.Proofs.Grammar.Encounters

/-!
# Which `return`s are reported

A `return` is reported as it begins to be read, if it is outside of all functions. Statements
that were malformed before make no difference, not even inside a function body.

Results:

* `ComesToAt.all`: every reader of statements comes to the listed `return`s and reports those
  that begin outside of all function bodies; and the `return`s of what it reads are listed.
* `readers_keep_discipline`: what every reader keeps to, and what it says of `return`s.
-/
namespace Treewalk

open Grammar Parse

/-! ## Clauses and single `return`s -/

section Clauses

variable {fuel : Nat} {s s' : ParseState}

theorem returns_varDeclaration {r : Stmt} (h : varDeclaration fuel s = .ok r s') :
    r.returns = [] := by
  obtain ⟨name, s₁, -, -, initial, s₂, -, t, s₃, -, -, rfl, -⟩ := varDeclaration_eq_ok.mp h
  rfl

theorem returns_expressionStatement {r : Stmt} (h : expressionStatement fuel s = .ok r s') :
    r.returns = [] := by
  obtain ⟨e, s₁, -, t, s₂, -, -, rfl, -⟩ := expressionStatement_eq_ok.mp h
  rfl

theorem returns_printStatement {r : Stmt} (h : printStatement fuel s = .ok r s') :
    r.returns = [] := by
  obtain ⟨e, s₁, -, t, s₂, -, -, rfl, -⟩ := printStatement_eq_ok.mp h
  rfl

theorem returns_firstClause {r : Option Stmt} (h : firstClause fuel s = .ok r s') :
    Stmt.returnsAll r.toList = [] := by
  obtain ⟨-, d, s₁, hd, rfl, -⟩ | ⟨t, s₁, -, ⟨-, rfl, -⟩ | ⟨-, d, s₂, hd, rfl, -⟩⟩ :=
    firstClause_eq_ok.mp h
  · exact List.append_eq_nil_iff.mpr ⟨returns_expressionStatement hd, rfl⟩
  · rfl
  · exact List.append_eq_nil_iff.mpr ⟨returns_varDeclaration hd, rfl⟩

/-- The `return`s of a statement are among those that its reader came to. -/
def Listed (r : Stmt) (places : List ReturnPlace) : Prop := r.returns.Sublist places

def ListedAll (rs : List Stmt) (places : List ReturnPlace) : Prop :=
  (Stmt.returnsAll rs).Sublist places

/-- A statement without `return`s whose reader comes to none. -/
theorem comesTo_clause {x : Parse Stmt} (hx : ComesToNone x)
    (h : ∀ s a s', x s = .ok a s' → a.returns = []) : ComesTo x .empty Listed :=
  comesTo_none hx fun s a s' hr => List.sublist_nil.mpr (h s a s' hr)

/-- A `return` is reported, if at all, before its value is read. -/
theorem told_return {keyword : Token} (hhead : s.rest.head? = some keyword)
    (hkind : keyword.kind = .returnKw) :
    Told Listed s (Encounters.one keyword s) (returnStatement fuel keyword s) := by
  have hvalue : ComesTo (do
      let value ← expressionUnless fuel .semicolon
      let _ ← expect .semicolonAfterReturn
      return .ret keyword value) .empty fun r places => Listed r (⟨keyword, []⟩ :: places) :=
    comesTo_then (plain_expressionUnless plain_comesToNone fuel _) fun value =>
      comesTo_then (comesToNone_expect _) fun _ => comesTo_pure (.refl _)
  rw [returnStatement, ← bind_assoc, bind_of_ok (reportReturn_eq hhead)]
  exact (Accounts.one hhead hkind).told (hvalue _)

end Clauses

/-! ## Statements -/

/-- With this much fuel, readers of statements come to the listed `return`s. -/
structure ComesToAt (fuel : Nat) : Prop where
  declaration :
    ComesTo (declaration fuel) (.declaration fuel) fun r places => ListedAll r.toList places
  declarations : ∀ inBlock,
    ComesTo (declarations fuel inBlock) (.declarations fuel inBlock) ListedAll
  block : ComesTo (block fuel) (.block fuel) ListedAll
  functionDeclaration :
    ComesTo (functionDeclaration fuel) (.functionDeclaration fuel) Listed
  statement : ComesTo (statement fuel) (.statement fuel) Listed
  forStatement : ComesTo (forStatement fuel) (.forStatement fuel) Listed
  ifStatement : ComesTo (ifStatement fuel) (.ifStatement fuel) Listed
  whileStatement : ComesTo (whileStatement fuel) (.whileStatement fuel) Listed

namespace ComesToAt

variable {fuel : Nat}

theorem zero : ComesToAt 0 where
  declaration := comesTo_outOfFuel
  declarations _ := comesTo_outOfFuel
  block := comesTo_outOfFuel
  functionDeclaration := comesTo_outOfFuel
  statement := comesTo_outOfFuel
  forStatement := comesTo_outOfFuel
  ifStatement := comesTo_outOfFuel
  whileStatement := comesTo_outOfFuel

theorem declaration_succ (ih : ComesToAt fuel) :
    ComesTo (Parse.declaration (fuel + 1)) (.declaration (fuel + 1)) fun r places =>
      ListedAll r.toList places := by
  have hreads : ComesTo (unrecovered fuel) (.declaration (fuel + 1)) Listed := by
    refine comesTo_following (comesToNone_accept _) fun r => ?_
    cases r with
    | none => exact ih.statement
    | some t =>
      dsimp only
      split
      · exact ih.functionDeclaration
      · exact comesTo_clause (plain_varDeclaration plain_comesToNone fuel) fun _ _ _ =>
          returns_varDeclaration
  refine comesTo_recovering hreads (fun r places h => ?_) fun places => List.nil_sublist _
  rw [ListedAll, Option.toList_some, Stmt.returnsAll, Stmt.returnsAll, List.append_nil]
  exact h

theorem declarations_succ (ih : ComesToAt fuel) (inBlock : Bool) :
    ComesTo (Parse.declarations (fuel + 1) inBlock) (.declarations (fuel + 1) inBlock)
      ListedAll := by
  refine comesTo_peek fun s => ?_
  cases s.rest.head? with
  | none => exact comesTo_pure (.refl _) s
  | some t =>
    dsimp only
    split
    · exact comesTo_pure (.refl _) s
    · refine comesTo_next ih.declaration (fun first places hfirst =>
        comesTo_finish ((ih.declarations inBlock).imp fun others more hothers => ?_)) s
      rw [ListedAll, Stmt.returnsAll_append]
      exact hfirst.append hothers

theorem block_succ (ih : ComesToAt fuel) :
    ComesTo (Parse.block (fuel + 1)) (.block (fuel + 1)) ListedAll := by
  refine comesTo_last (ih.declarations true) fun body places h =>
    comesTo_then (comesToNone_expect _) fun _ => comesTo_pure ?_
  rw [List.append_nil]
  exact h

theorem functionDeclaration_succ (ih : ComesToAt fuel) :
    ComesTo (Parse.functionDeclaration (fuel + 1)) (.functionDeclaration (fuel + 1)) Listed := by
  have hbody : ∀ name params, ComesTo (do
      let _ ← expect .parenAfterParameters
      let _ ← expect .braceBeforeBody
      let body ← enterFunction (Parse.block fuel)
      return .function name params body : Parse Stmt)
      (.following (expect .parenAfterParameters) fun _ =>
        .following (expect .braceBeforeBody) fun _ => (Encounters.block fuel).inBody name)
      Listed := by
    intro name params
    exact comesTo_following (comesToNone_expect _) fun _ =>
      comesTo_following (comesToNone_expect _) fun _ =>
      comesTo_finish (comesTo_enterFunction name (ih.block.imp fun _ _ h => h.map _))
  refine comesTo_following (comesToNone_expect _) fun name =>
    comesTo_following (comesToNone_expect _) fun _ =>
      comesTo_following (plain_comesToNone.check _) fun closed => ?_
  cases closed with
  | false =>
    exact comesTo_following (plain_parameters plain_comesToNone fuel 0) (hbody name)
  | true => exact comesTo_following (plain_comesToNone.pure []) (hbody name)

theorem statement_succ (ih : ComesToAt fuel) :
    ComesTo (Parse.statement (fuel + 1)) (.statement (fuel + 1)) Listed := by
  have hexpression : ComesTo (expressionStatement fuel) .empty Listed :=
    comesTo_clause (plain_expressionStatement plain_comesToNone fuel) fun _ _ _ =>
      returns_expressionStatement
  have hskip : ComesToNone skip := plain_comesToNone.skip
  unfold Parse.statement Encounters.statement
  refine comesTo_peek fun s => ?_
  cases hhead : s.rest.head? with
  | none => exact hexpression s
  | some t =>
    dsimp only
    cases hkind : t.kind
    case forKw => exact comesTo_following hskip (fun _ => ih.forStatement) s
    case ifKw => exact comesTo_following hskip (fun _ => ih.ifStatement) s
    case printKw =>
      exact comesTo_then hskip (fun _ => comesTo_clause (plain_printStatement plain_comesToNone
        fuel) fun _ _ _ => returns_printStatement) s
    case returnKw => exact told_return hhead hkind
    case whileKw => exact comesTo_following hskip (fun _ => ih.whileStatement) s
    case leftBrace =>
      exact comesTo_following hskip (fun _ => comesTo_finish (f := Stmt.block) ih.block) s
    all_goals exact hexpression s

theorem forStatement_succ (ih : ComesToAt fuel) :
    ComesTo (Parse.forStatement (fuel + 1)) (.forStatement (fuel + 1)) Listed := by
  have hoptional := plain_expressionUnless plain_comesToNone fuel
  refine comesTo_following (comesToNone_expect _) fun _ =>
    comesTo_following_of (plain_firstClause plain_comesToNone fuel)
      (fun _ _ _ => returns_firstClause) fun first hfirst =>
    comesTo_following (hoptional _) fun condition =>
    comesTo_following (comesToNone_expect _) fun _ =>
    comesTo_following (hoptional _) fun last =>
    comesTo_following (comesToNone_expect _) fun _ =>
    comesTo_finish (ih.statement.imp fun body places h => ?_)
  rw [Listed, Stmt.returns_forLoop, hfirst]
  exact h

theorem ifStatement_succ (ih : ComesToAt fuel) :
    ComesTo (Parse.ifStatement (fuel + 1)) (.ifStatement (fuel + 1)) Listed := by
  refine comesTo_following (comesToNone_expect _) fun _ =>
    comesTo_following (plain_expression plain_comesToNone fuel) fun condition =>
    comesTo_following (comesToNone_expect _) fun _ =>
    comesTo_next ih.statement fun whenTrue places h =>
    comesTo_following (comesToNone_accept _) fun r => ?_
  cases r with
  | none =>
    refine comesTo_pure ?_
    rw [List.append_nil]
    exact h
  | some t => exact comesTo_finish (ih.statement.imp fun whenFalse more h' => h.append h')

theorem whileStatement_succ (ih : ComesToAt fuel) :
    ComesTo (Parse.whileStatement (fuel + 1)) (.whileStatement (fuel + 1)) Listed :=
  comesTo_following (comesToNone_expect _) fun _ =>
    comesTo_following (plain_expression plain_comesToNone fuel) fun _ =>
    comesTo_following (comesToNone_expect _) fun _ => comesTo_finish ih.statement

theorem all : ∀ fuel, ComesToAt fuel
  | 0 => zero
  | fuel + 1 =>
    let ih := all fuel
    ⟨ih.declaration_succ, ih.declarations_succ, ih.block_succ, ih.functionDeclaration_succ,
      ih.statement_succ, ih.forStatement_succ, ih.ifStatement_succ, ih.whileStatement_succ⟩

end ComesToAt

/-! ## Programs -/

/-- The `return`s that the reading of a program comes to. -/
def programReturns (tokens : List Token) : List Encounter :=
  Encounters.declarations (Parse.fuel (programTokens tokens).length) false
    (.initial (programTokens tokens))

theorem Problem.message_eq_topLevelReturn {p : Problem} :
    p.message = "Can't return from top-level code." ↔ p = .topLevelReturn := by
  cases p with
  | missing what => cases what <;> decide
  | _ => decide

section Programs

variable {tokens : List Token} {p : Program} {s : ParseState} {z : Encounter}

theorem accounts_of_read (h : readProgram (programTokens tokens) = .ok p s) :
    Accounts (programReturns tokens) (.initial (programTokens tokens)) s ∧
      ListedAll p ((programReturns tokens).map (·.toReturnPlace)) := by
  have htold : Told ListedAll _ (programReturns tokens) (readProgram (programTokens tokens)) :=
    (ComesToAt.all _).declarations false _
  rw [h] at htold
  exact htold

theorem Encounter.Between.placed (h : z.Between (.initial (programTokens tokens)) s) :
    (terminated tokens)[z.state.position]? = some z.keyword := by
  rw [(h.before.onTokens (onTokens_initial tokens)).token, h.token]
  rfl

theorem Encounter.Between.functions_eq (h : z.Between (.initial (programTokens tokens)) s) :
    z.state.functions = z.around.length := by
  rw [h.functions]
  exact Nat.zero_add _

theorem returnErrors_eq (h : readProgram (programTokens tokens) = .ok p s) :
    (syntaxErrors tokens).filter (·.problem = .topLevelReturn) =
      ((programReturns tokens).filter (·.around.isEmpty)).map fun z =>
        ⟨.topLevelReturn, z.state.position, z.keyword⟩ := by
  obtain ⟨haccounts, -⟩ := accounts_of_read h
  have hopen : (programReturns tokens).filter (·.state.functions = 0) =
      (programReturns tokens).filter (·.around.isEmpty) := by
    refine List.filter_congr fun z hz => ?_
    rw [(haccounts.between z hz).functions_eq, Bool.eq_iff_iff]
    simp
  calc (syntaxErrors tokens).filter (·.problem = .topLevelReturn)
      = s.topLevelReturns.map (·.error (endToken tokens)) := by
        rw [syntaxErrors_of_read h, List.filter_map]
        rfl
    _ = (((programReturns tokens).filter (·.around.isEmpty)).map Encounter.blame).map
          (·.error (endToken tokens)) := by
        rw [haccounts.reported, hopen]
        rfl
    _ = _ := List.map_map

/-- No two `return`s begin at the same token. -/
theorem Accounts.eq_of_position {zs : List Encounter} {s s' : ParseState}
    (h : Accounts zs s s') {z z' : Encounter} (hz : z ∈ zs) (hz' : z' ∈ zs)
    (hsame : z.state.position = z'.state.position) : z = z' := by
  have hnodup : (zs.map (·.state.position)).Nodup :=
    List.pairwise_map.mpr (h.ordered.imp Nat.ne_of_lt)
  exact List.inj_on_of_nodup_map hnodup hz hz' hsame

/-- A `return` is reported exactly if no function body is being read as it begins. -/
theorem reported_iff (h : readProgram (programTokens tokens) = .ok p s)
    (hz : z ∈ programReturns tokens) :
    (∃ e ∈ syntaxErrors tokens, e.message = "Can't return from top-level code." ∧
      e.index = z.state.position) ↔ z.around = [] := by
  obtain ⟨haccounts, -⟩ := accounts_of_read h
  have herrors : ∀ e, e ∈ syntaxErrors tokens ∧ e.problem = .topLevelReturn ↔
      ∃ z ∈ programReturns tokens, z.around = [] ∧
        (⟨.topLevelReturn, z.state.position, z.keyword⟩ : ParseError) = e := by
    intro e
    have hmem : e ∈ (syntaxErrors tokens).filter (·.problem = .topLevelReturn) ↔
        ∃ z ∈ (programReturns tokens).filter (·.around.isEmpty),
          (⟨.topLevelReturn, z.state.position, z.keyword⟩ : ParseError) = e := by
      rw [returnErrors_eq h]
      exact List.mem_map
    simpa [and_assoc] using hmem
  constructor
  · rintro ⟨e, he, hmessage, hindex⟩
    obtain ⟨z', hz', hopen, rfl⟩ :=
      (herrors e).mp ⟨he, Problem.message_eq_topLevelReturn.mp hmessage⟩
    rwa [haccounts.eq_of_position hz hz' hindex.symm]
  · intro hopen
    obtain ⟨he, hproblem⟩ := (herrors _).mpr ⟨z, hz, hopen, rfl⟩
    exact ⟨_, he, Problem.message_eq_topLevelReturn.mpr hproblem, rfl⟩

end Programs

/-- Every step that readers are composed of, and every reader with any fuel, leaves the number
of function bodies as it was, does not move the cursor back and keeps what has been recorded,
whether it succeeds or not; if it gives up, it blames the token under the cursor. With ample
fuel it does one of both. Whatever was malformed before, a `return` is reported exactly if no
function body is being read as it begins; these are the only reports of this sort, and every
`return` of a statement that is read is among those that began. -/
theorem readers_keep_discipline :
    Composed (Single (Obeys Disciplined GivesUp)) ∧
    (∀ fuel, EveryReaderAt (Single (Obeys Disciplined GivesUp)) fuel ∧
      EveryReaderAt (Single (Concludes fuel)) fuel ∧ ComesToAt fuel) ∧
    ∀ tokens,
      (∀ s problem, OnTokens tokens s → (terminated tokens)[s.position]? =
        some ((s.blame problem).error (endToken tokens)).token) ∧
      (programReturns tokens).Pairwise (fun z z' => z.state.position < z'.state.position) ∧
      (∀ z ∈ programReturns tokens,
        (terminated tokens)[z.state.position]? = some z.keyword ∧ z.keyword.kind = .returnKw ∧
        z.state.functions = z.around.length ∧
        ((∃ e ∈ syntaxErrors tokens, e.message = "Can't return from top-level code." ∧
          e.index = z.state.position) ↔ z.around = [])) ∧
      (syntaxErrors tokens).filter (·.problem = .topLevelReturn) =
        ((programReturns tokens).filter (·.around.isEmpty)).map (fun z =>
          ⟨.topLevelReturn, z.state.position, z.keyword⟩) ∧
      ∃ p s, readProgram (programTokens tokens) = .ok p s ∧
        (Stmt.returnsAll p).Sublist ((programReturns tokens).map (·.toReturnPlace)) := by
  have hcomposed : Composed (Single (Obeys Disciplined GivesUp)) := composed_obeys disciplined_moves
  refine ⟨hcomposed, fun fuel => ⟨.all hcomposed fuel, everyReader_concludes fuel, .all fuel⟩,
    fun tokens => ?_⟩
  obtain ⟨p, s, hread, -⟩ := readProgram_ends (programTokens tokens)
  obtain ⟨haccounts, hlisted⟩ := accounts_of_read hread
  refine ⟨fun s problem hs => hs.token, haccounts.ordered, fun z hz => ?_, returnErrors_eq hread,
    p, s, hread, hlisted⟩
  have hbetween := haccounts.between z hz
  exact ⟨hbetween.placed, hbetween.kind, hbetween.functions_eq, reported_iff hread hz⟩

-- The first `return` follows a statement that is skipped, the last one a body that is closed.
example :
    let tokens := (scan "fun f() { print ; return 1; } { var ; return 2; }").tokens
    (programReturns tokens).map (fun z => (z.state.position, z.around.map Token.lexeme)) =
        [(7, ["f"]), (14, [])] ∧
      (syntaxErrors tokens).map (fun e => (e.index, e.message)) =
        [(6, "Expect expression."), (13, "Expect variable name."),
          (14, "Can't return from top-level code.")] := by
  decide +kernel

end Treewalk
