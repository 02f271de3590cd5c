import Treewalk.Proofs.Computations
import Treewalk.Proofs.Grammar.FirstError
import Treewalk.Proofs.Grammar.Readers

/-!
# Reading in place

Reading can keep all tokens and an index instead of the tokens that are still to be read. An end
token is added after the last token unless that is one, and the index never goes past an end
token. So there is always a token at hand, and looking at it or at the one before never leaves the
tokens; a `Cursor` has these bounds built in.

All readers do the same with a cursor as on the tokens still to be read, from the one at hand up
to the first end token, which are its `view`.

Results:

* `view_advance`, `view_synchronize`: what the steps of a cursor do to its view.
* `composed_inPlace`: all readers do the same in place.
* `parseInPlace_eq`: so whole programs are read alike.
-/
namespace Treewalk

open Grammar Parse

/-! ## The end token -/

/-- The tokens with an end token after them, if they do not end with one. -/
def terminated (tokens : List Token) : List Token :=
  if tokens.getLast?.any (·.kind = .eof) then tokens
  else tokens ++ [Token.eof ((tokens.getLast?.map Token.line).getD 1)]

theorem terminated_last (tokens : List Token) :
    ∃ e, (terminated tokens).getLast? = some e ∧ e.kind = .eof := by
  unfold terminated
  split
  · rename_i hlast
    obtain ⟨e, he, hkind⟩ := (Option.any_eq_true _ _).mp hlast
    exact ⟨e, he, of_decide_eq_true hkind⟩
  · exact ⟨_, List.getLast?_concat, rfl⟩

theorem length_terminated_pos (tokens : List Token) : 0 < (terminated tokens).length := by
  obtain ⟨e, he, -⟩ := terminated_last tokens
  exact List.length_pos_iff.mpr fun hnil => by simp [hnil] at he

theorem programTokens_append_eof (before : List Token) {e : Token} (he : e.kind = .eof)
    (after : List Token) : programTokens (before ++ e :: after) = programTokens before := by
  simp only [programTokens, List.takeWhile_append, List.takeWhile_cons, he, ne_eq,
    not_true_eq_false, decide_false, Bool.false_eq_true, if_false, List.append_nil]
  split
  · rename_i hall
    exact ((List.takeWhile_prefix _).eq_of_length hall).symm
  · rfl

theorem find?_append_eof (before : List Token) {e : Token} (he : e.kind = .eof)
    (after : List Token) : (before ++ e :: after).find? (·.kind = .eof) =
      some ((before.find? (·.kind = .eof)).getD e) := by
  rw [List.find?_append, List.find?_cons_of_pos (by simpa using he)]
  cases before.find? (fun t => decide (t.kind = .eof)) <;> rfl

theorem programTokens_terminated (tokens : List Token) :
    programTokens (terminated tokens) = programTokens tokens := by
  unfold terminated
  split
  · rfl
  · exact programTokens_append_eof tokens rfl []

theorem find?_terminated (tokens : List Token) :
    (terminated tokens).find? (·.kind = .eof) = some (endToken tokens) := by
  unfold terminated
  split
  · rename_i hlast
    obtain ⟨e, he, hkind⟩ := (Option.any_eq_true _ _).mp hlast
    obtain ⟨before, rfl⟩ := List.getLast?_eq_some_iff.mp he
    rw [endToken, find?_append_eof before (of_decide_eq_true hkind)]
    rfl
  · exact find?_append_eof tokens rfl []

/-! ## Cursors -/

/-- The index of the token at hand, among all tokens of a program, with what else reading
keeps. -/
structure Cursor (tokens : List Token) where
  current : Nat
  functions : Nat
  problems : Array Blame
  inBounds : current < (terminated tokens).length
  /-- No end token has been passed. -/
  passed : ∀ t ∈ (terminated tokens).take current, t.kind ≠ .eof

namespace Cursor

variable {tokens : List Token} (c : Cursor tokens)

def peek : Token := (terminated tokens).get ⟨c.current, c.inBounds⟩

def isAtEnd : Bool := c.peek.kind = .eof

/-- The token before the one at hand; at the start the one at hand. -/
def previous : Token :=
  (terminated tokens).get ⟨c.current - 1, Nat.lt_of_le_of_lt (Nat.sub_le _ _) c.inBounds⟩

theorem drop_current : (terminated tokens).drop c.current =
    c.peek :: (terminated tokens).drop (c.current + 1) :=
  List.drop_eq_getElem_cons c.inBounds

/-- A token that is no end token has one after it. -/
theorem next_inBounds (h : c.isAtEnd = false) : c.current + 1 < (terminated tokens).length := by
  refine Nat.lt_of_not_le fun hlast => ?_
  have hin := c.inBounds
  have hpeek : (terminated tokens).getLast? = some c.peek := by
    rw [List.getLast?_eq_getElem?, show (terminated tokens).length - 1 = c.current by omega,
      List.getElem?_eq_getElem hin]
    rfl
  obtain ⟨e, he, hkind⟩ := terminated_last tokens
  obtain rfl : c.peek = e := Option.some.inj (hpeek.symm.trans he)
  simp [isAtEnd, hkind] at h

theorem next_passed (h : c.isAtEnd = false) :
    ∀ t ∈ (terminated tokens).take (c.current + 1), t.kind ≠ .eof := by
  have hpeek : c.peek.kind ≠ .eof := by simpa [isAtEnd] using h
  intro t ht
  rw [List.take_succ_eq_append_getElem c.inBounds, List.mem_append, List.mem_singleton] at ht
  obtain ht | rfl := ht
  · exact c.passed t ht
  · exact hpeek

/-- Skip the token at hand, unless it is an end token. -/
def advance : Cursor tokens :=
  if h : c.isAtEnd = false then
    { c with
      current := c.current + 1
      inBounds := c.next_inBounds h
      passed := c.next_passed h }
  else c

theorem advance_of_end (h : c.isAtEnd = true) : c.advance = c := by
  simp [advance, h]

theorem advance_of_not_end (h : c.isAtEnd = false) : c.advance =
    ⟨c.current + 1, c.functions, c.problems, c.next_inBounds h, c.next_passed h⟩ := by
  simp [advance, h]

theorem remaining_advance (h : c.isAtEnd = false) :
    (terminated tokens).length - c.advance.current < (terminated tokens).length - c.current := by
  have hin := c.inBounds
  rw [c.advance_of_not_end h]
  dsimp only
  omega

/-- Skip tokens up to the one after a semicolon, to a keyword that starts a statement, or to the
end. -/
def toBoundary (c : Cursor tokens) : Cursor tokens :=
  if h : c.isAtEnd = false then
    if c.previous.kind = .semicolon || c.peek.kind.startsStatement then c
    else
      have := c.remaining_advance h
      toBoundary c.advance
  else c
termination_by (terminated tokens).length - c.current

/-- Skip to a likely statement boundary. -/
def synchronize : Cursor tokens := c.advance.toBoundary

end Cursor

instance {tokens : List Token} : ReadState (Cursor tokens) where
  head? c := if c.isAtEnd then none else some c.peek
  position c := c.current
  advance := Cursor.advance
  resynced := Cursor.synchronize
  functions c := c.functions
  withFunctions c n := { c with functions := n }
  record c b := { c with problems := c.problems.push b }

/-! ## The tokens still to be read -/

namespace ParseState

variable {s : ParseState} {t u : Token} {ts : List Token}

theorem advance_nil (h : s.rest = []) : s.advance = s := by
  rw [advance, h]

theorem advance_cons (h : s.rest = t :: ts) :
    s.advance = { s with rest := ts, position := s.position + 1 } := by
  rw [advance, h]

theorem resynced_nil (h : s.rest = []) : s.resynced = s := by
  obtain ⟨rest, position, functions, problems⟩ := s
  obtain rfl : rest = [] := h
  rfl

theorem resynced_single (h : s.rest = [t]) : s.resynced = s.advance := by
  simp [resynced, h, resync, advance]

/-- One token is skipped, and on from there if the next one is no boundary. -/
theorem resynced_cons (h : s.rest = t :: u :: ts) : s.resynced =
    if t.kind = .semicolon || u.kind.startsStatement then s.advance else s.advance.resynced := by
  rw [advance_cons h]
  unfold resynced
  rw [h, resync]
  split
  · rfl
  · simp [Nat.add_assoc, Nat.add_comm 1]

end ParseState

namespace Cursor

variable {tokens : List Token}

/-- The tokens from the one at hand up to the first end token are still to be read. -/
def view (c : Cursor tokens) : ParseState :=
  ⟨programTokens ((terminated tokens).drop c.current), c.current, c.functions, c.problems⟩

variable {c : Cursor tokens}

theorem rest_of_end (h : c.isAtEnd = true) : c.view.rest = [] := by
  have hpeek : c.peek.kind = .eof := by simpa [isAtEnd] using h
  rw [view, drop_current]
  simp [programTokens, hpeek]

theorem rest_of_not_end (h : c.isAtEnd = false) :
    c.view.rest = c.peek :: programTokens ((terminated tokens).drop (c.current + 1)) := by
  have hpeek : c.peek.kind ≠ .eof := by simpa [isAtEnd] using h
  rw [view, drop_current]
  simp [programTokens, hpeek]

theorem head_view (c : Cursor tokens) : ReadState.head? c.view = ReadState.head? c := by
  show c.view.rest.head? = if c.isAtEnd then none else some c.peek
  cases h : c.isAtEnd with
  | true => simp [rest_of_end h]
  | false => simp [rest_of_not_end h]

theorem blamed_view (c : Cursor tokens) (p : Problem) : blamed c.view p = blamed c p := by
  unfold blamed
  rw [head_view]
  rfl

theorem view_advance (c : Cursor tokens) : c.advance.view = c.view.advance := by
  cases h : c.isAtEnd with
  | true => rw [c.advance_of_end h, ParseState.advance_nil (rest_of_end h)]
  | false =>
    rw [c.advance_of_not_end h, ParseState.advance_cons (rest_of_not_end h)]
    rfl

/-- After a step the token that was at hand is the one before. -/
theorem previous_advance (h : c.isAtEnd = false) : c.advance.previous = c.peek := by
  rw [c.advance_of_not_end h]
  rfl

/-- The tokens that are skipped before a boundary are those that `resync` counts. -/
theorem view_synchronize (c : Cursor tokens) : c.synchronize.view = c.view.resynced := by
  cases h : c.isAtEnd with
  | true =>
    have hstays : c.synchronize = c := by
      rw [synchronize, c.advance_of_end h, toBoundary, dif_neg (by simp [h])]
    rw [hstays, ParseState.resynced_nil (rest_of_end h)]
  | false =>
    have hrest : c.view.rest = c.peek :: c.advance.view.rest := by
      rw [view_advance, ParseState.advance_cons (rest_of_not_end h), rest_of_not_end h]
    cases h' : c.advance.isAtEnd with
    | true =>
      rw [rest_of_end h'] at hrest
      rw [ParseState.resynced_single hrest, ← view_advance, synchronize, toBoundary,
        dif_neg (by simp [h'])]
    | false =>
      have := c.remaining_advance h
      rw [rest_of_not_end h'] at hrest
      rw [ParseState.resynced_cons hrest, ← view_advance, synchronize, toBoundary, dif_pos h',
        previous_advance h]
      split
      · rfl
      · exact view_synchronize c.advance
termination_by (terminated tokens).length - c.current

end Cursor

/-! ## Readers -/

/-- The reader does the same in place. -/
abbrev InPlace (tokens : List Token) {α : Type} (x : Reader (Cursor tokens) α) (y : Parse α) :
    Prop :=
  Projects Cursor.view id x y

section Readers

variable {tokens : List Token}

theorem inPlace_accept (p : Kind → Bool) : Both (InPlace tokens) (accept? p) := by
  intro c
  dsimp only [accept?]
  rw [Cursor.head_view]
  cases ReadState.head? c with
  | none => rfl
  | some t =>
    dsimp only
    split
    · exact congrArg _ c.view_advance
    · rfl

theorem inPlace_expect (what : Missing) : Both (InPlace tokens) (expect what) := by
  intro c
  dsimp only [expect]
  rw [Cursor.head_view, Cursor.blamed_view]
  cases ReadState.head? c with
  | none => rfl
  | some t =>
    dsimp only
    split
    · exact congrArg _ c.view_advance
    · rfl

theorem inPlace_reportIf (report : Bool) (p : Problem) :
    Both (InPlace tokens) (reportIf report p) := by
  intro c
  dsimp only [reportIf]
  rw [Cursor.blamed_view]
  cases report <;> rfl

theorem inPlace_enterFunction {α : Type} {x : Reader (Cursor tokens) α} {y : Parse α}
    (h : InPlace tokens x y) : InPlace tokens (enterFunction x) (enterFunction y) := by
  intro c
  have hbody := h { c with functions := c.functions + 1 }
  rw [enterFunction_apply, show { c.view with functions := c.view.functions + 1 } =
    Cursor.view { c with functions := c.functions + 1 } from rfl, ← hbody]
  dsimp only [enterFunction, ReadState.withFunctions, ReadState.functions]
  cases x { c with functions := c.functions + 1 } <;> rfl

theorem inPlace_recovering {α : Type} {x : Reader (Cursor tokens) α} {y : Parse α}
    (h : InPlace tokens x y) : InPlace tokens (recovering x) (recovering y) := by
  intro c
  dsimp only [recovering]
  rw [← h c]
  cases x c with
  | ok a c' => rfl
  | error e c' =>
    cases e with
    | outOfFuel => rfl
    | fatal b => exact congrArg _ (Cursor.view_synchronize (ReadState.record c' b))

/-- All readers do the same in place as on the tokens still to be read. -/
theorem composed_inPlace : Composed (InPlace tokens) where
  pure _ := .pure rfl
  bind hx hf := hx.bind hf
  outOfFuel _ := rfl
  fail {α p} _ c := congrArg (fun b => EStateM.Result.error (Halt.fatal b) c.view)
    (c.blamed_view p).symm
  peek c := congrArg (EStateM.Result.ok · c.view) c.head_view.symm
  check k c := by
    dsimp only [check]
    rw [c.head_view]
    rfl
  skip c := congrArg _ c.view_advance
  accept := inPlace_accept
  expect := inPlace_expect
  reportIf report _ _ _ := inPlace_reportIf report _
  blame {α p f g} h c := by
    show viewed _ _ (f (blamed c p) c) = g (blamed c.view p) c.view
    rw [c.blamed_view]
    exact h _ rfl c
  record _ _ := rfl
  inFunction _ := rfl
  reportReturn report := inPlace_reportIf report _
  enterFunction := inPlace_enterFunction
  recovering := inPlace_recovering
  recordMild _ _ := rfl

end Readers

/-! ## Programs -/

/-- The first token at hand. -/
def Cursor.initial (tokens : List Token) : Cursor tokens where
  current := 0
  functions := 0
  problems := #[]
  inBounds := length_terminated_pos tokens
  passed := by simp

/-- The statements of a token sequence, read in place, or all its syntax errors. Problems of the
end are those of the token that is at hand then. -/
def parseInPlace (tokens : List Token) : Except (List ParseError) Program :=
  let errors (c : Cursor tokens) := c.problems.toList.map (·.error c.peek)
  match declarations (Parse.fuel (terminated tokens).length) false (Cursor.initial tokens) with
  | .ok program c => if c.problems.isEmpty then .ok program else .error (errors c)
  | .error _ c => .error (errors c)

/-- The end token at hand is the first one. -/
theorem Cursor.peek_of_end {tokens : List Token} {c : Cursor tokens} (h : c.isAtEnd = true) :
    c.peek = endToken tokens := by
  have hnone : ((terminated tokens).take c.current).find? (·.kind = .eof) = none := by
    simpa using c.passed
  have hfirst : (terminated tokens).find? (·.kind = .eof) = some c.peek := by
    rw [← List.take_append_drop c.current (terminated tokens), List.find?_append, hnone,
      c.drop_current, List.find?_cons_of_pos (by simpa [isAtEnd] using h), Option.none_or]
  exact Option.some.inj (hfirst.symm.trans (find?_terminated tokens))

theorem view_initial (tokens : List Token) :
    (Cursor.initial tokens).view = .initial (programTokens tokens) := by
  simp [Cursor.view, Cursor.initial, ParseState.initial, programTokens_terminated]

theorem fuel_le_terminated (tokens : List Token) :
    Parse.fuel (programTokens tokens).length ≤ Parse.fuel (terminated tokens).length := by
  have hlength := (programTokens_begins (terminated tokens)).length_le
  rw [programTokens_terminated] at hlength
  unfold Parse.fuel
  omega

/-- Programs are read in place as they are read from the tokens up to the first end token. -/
theorem parseInPlace_eq (tokens : List Token) : parseInPlace tokens = parse tokens := by
  obtain ⟨p, s, hread, hrest⟩ := readProgram_ends (programTokens tokens)
  have hreaders : StatementReadersAt (InPlace tokens) (Parse.fuel (terminated tokens).length) :=
    .all composed_inPlace _
  have hsame : viewed Cursor.view id (declarations (Parse.fuel (terminated tokens).length) false
      (Cursor.initial tokens)) = .ok p s := by
    rw [← declarations_more_fuel (fuel_le_terminated tokens) hread, ← view_initial]
    exact hreaders.declarations false (Cursor.initial tokens)
  unfold parseInPlace parse
  rw [hread]
  cases hread' : declarations (Parse.fuel (terminated tokens).length) false
      (Cursor.initial tokens) with
  | error e c =>
    rw [hread'] at hsame
    cases hsame
  | ok q c =>
    rw [hread'] at hsame
    cases hsame
    have hend : c.isAtEnd = true := by
      cases h : c.isAtEnd with
      | true => rfl
      | false => simp [Cursor.rest_of_not_end h] at hrest
    dsimp only
    rw [Cursor.peek_of_end hend]
    rfl

end Treewalk
