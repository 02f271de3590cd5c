import Treewalk.Tree.Problem

/-!
# Reading a token sequence

A reader threads a state: the tokens with a place in them, the number of function bodies around
that place, and the problems met so far. It ends with a result, with a fatal problem, or without
fuel; the state is kept in all three cases.

Readers see the state through `ReadState` only, so they do not depend on how it keeps the tokens.
Tokens are consumed by `ReadState.advance` and, after a fatal problem, by `ReadState.resynced`;
only `enterFunction` changes the number of function bodies. `ParseState` keeps the tokens still
to be read.
-/
namespace Treewalk

/-- A problem with the place of the token it blames. No token means the end of
the program. -/
structure Blame where
  problem : Problem
  index : Nat
  token : Option Token
  deriving BEq, Repr

/-- The error of a problem in a program that ends with the given token. -/
def Blame.error (b : Blame) (finish : Token) : ParseError :=
  ⟨b.problem, b.index, b.token.getD finish⟩

/-- Why reading cannot go on. -/
inductive Halt where
  | fatal (b : Blame)
  | outOfFuel

/-- What readers know of a state and do to it. -/
class ReadState (σ : Type) where
  /-- The token at hand; none at the end of the program. -/
  head? : σ → Option Token
  /-- How many tokens have been read. -/
  position : σ → Nat
  /-- Skip the token at hand. -/
  advance : σ → σ
  /-- Skip to a likely statement boundary. -/
  resynced : σ → σ
  /-- How many function bodies enclose the position. -/
  functions : σ → Nat
  withFunctions : σ → Nat → σ
  /-- Add a problem after those met so far. -/
  record : σ → Blame → σ

/-- A computation that reads tokens. -/
abbrev Reader (σ : Type) := EStateM Halt σ

namespace Parse

open ReadState

variable {σ : Type} [ReadState σ]

/-- The token at hand, if any. -/
def peek? : Reader σ (Option Token) := fun s => .ok (head? s) s

/-- Whether the token at hand is of the given kind. -/
def check (k : Kind) : Reader σ Bool := fun s => .ok ((head? s).any (·.kind = k)) s

/-- Consume the token at hand. Mirrors `advance`. -/
def skip : Reader σ Unit := fun s => .ok () (advance s)

/-- Consume the token at hand if its kind is one of `p`. Mirrors `match_any`. -/
def accept? (p : Kind → Bool) : Reader σ (Option Token) := fun s =>
  match head? s with
  | none => .ok none s
  | some t => if p t.kind then .ok (some t) (advance s) else .ok none s

/-- The token at hand, blamed for a problem. -/
def blamed (s : σ) (p : Problem) : Blame := ⟨p, position s, head? s⟩

/-- Give up at the token at hand. -/
def fail {α : Type} (p : Problem) : Reader σ α := fun s => .error (.fatal (blamed s p)) s

def outOfFuel {α : Type} : Reader σ α := fun s => .error .outOfFuel s

/-- Consume the token that has to come now. Mirrors `consume`. -/
def expect (what : Missing) : Reader σ Token := fun s =>
  match head? s with
  | none => .error (.fatal (blamed s (.missing what))) s
  | some t =>
    if t.kind = what.kind then .ok t (advance s)
    else .error (.fatal (blamed s (.missing what))) s

/-- The token at hand, blamed for a problem that may be recorded later. -/
def blame (p : Problem) : Reader σ Blame := fun s => .ok (blamed s p) s

/-- Record a problem without giving up. Mirrors `report`. -/
def record (b : Blame) : Reader σ Unit := fun s => .ok () (ReadState.record s b)

/-- Record a problem of the token at hand if the condition holds. -/
def reportIf (c : Bool) (p : Problem) : Reader σ Unit := fun s =>
  .ok () (if c then ReadState.record s (blamed s p) else s)

/-- Whether a function body is being read. -/
def inFunction : Reader σ Bool := fun s => .ok (0 < functions s) s

/-- Read a function body. It counts as one more around the position while it is read, whatever
comes of it. Mirrors `function_depth` in `function_declaration`. -/
@[inline]
def enterFunction {α : Type} (body : Reader σ α) : Reader σ α := fun s =>
  match body (withFunctions s (functions s + 1)) with
  | .ok a s => .ok a (withFunctions s (functions s - 1))
  | .error e s => .error e (withFunctions s (functions s - 1))

/-- Read a statement. A fatal problem is recorded, the tokens up to the next
statement boundary are skipped, and there is no statement. Mirrors
`recovering_declaration`. -/
@[inline]
def recovering {α : Type} (statement : Reader σ α) : Reader σ (Option α) := fun s =>
  match statement s with
  | .ok a s => .ok (some a) s
  | .error (.fatal b) s => .ok none (resynced (ReadState.record s b))
  | .error .outOfFuel s => .error .outOfFuel s

end Parse

/-! ## The tokens still to be read -/

structure ParseState where
  /-- The tokens still to be read. -/
  rest : List Token
  /-- How many tokens have been read. -/
  position : Nat
  /-- How many function bodies enclose the position. -/
  functions : Nat
  /-- The problems met so far, first one first. -/
  problems : Array Blame

abbrev Parse := Reader ParseState

/-- Skip to a likely statement boundary: at least one token, and on to the token
after a semicolon, to a keyword that starts a statement, or to the end. The
result is the number of tokens skipped and the rest. Mirrors `synchronize`. -/
def resync : List Token → Nat × List Token
  | [] => (0, [])
  | [_] => (1, [])
  | t :: u :: rest =>
    if t.kind = .semicolon || u.kind.startsStatement then (1, u :: rest)
    else
      let (n, rest) := resync (u :: rest)
      (n + 1, rest)

namespace ParseState

/-- The token at hand, blamed for a problem. -/
def blame (s : ParseState) (p : Problem) : Blame := ⟨p, s.position, s.rest.head?⟩

def record (s : ParseState) (b : Blame) : ParseState := { s with problems := s.problems.push b }

/-- Skip the token at hand. -/
def advance (s : ParseState) : ParseState :=
  match s.rest with
  | [] => s
  | _ :: rest => { s with rest, position := s.position + 1 }

/-- Skip to a statement boundary. -/
def resynced (s : ParseState) : ParseState :=
  { s with rest := (resync s.rest).2, position := s.position + (resync s.rest).1 }

end ParseState

instance : ReadState ParseState where
  head? s := s.rest.head?
  position s := s.position
  advance := ParseState.advance
  resynced := ParseState.resynced
  functions s := s.functions
  withFunctions s n := { s with functions := n }
  record := ParseState.record

namespace Parse

variable {α : Type} (s : ParseState)

/-! What the steps of readers do to such a state. -/

theorem peek?_apply : peek? s = .ok s.rest.head? s := rfl

theorem check_apply (k : Kind) : check k s = .ok (s.rest.head?.any (·.kind = k)) s := rfl

theorem skip_apply : skip s = .ok () s.advance := rfl

theorem accept?_apply (p : Kind → Bool) : accept? p s =
    match s.rest with
    | [] => .ok none s
    | t :: _ => if p t.kind then .ok (some t) s.advance else .ok none s := by
  obtain ⟨_ | _⟩ := s <;> rfl

theorem fail_apply (p : Problem) :
    (fail p : Parse α) s = .error (.fatal (s.blame p)) s := rfl

theorem expect_apply (what : Missing) : expect what s =
    match s.rest with
    | [] => .error (.fatal (s.blame (.missing what))) s
    | t :: _ =>
      if t.kind = what.kind then .ok t s.advance
      else .error (.fatal (s.blame (.missing what))) s := by
  obtain ⟨_ | _⟩ := s <;> rfl

theorem blame_apply (p : Problem) : Parse.blame p s = .ok (s.blame p) s := rfl

theorem record_apply (b : Blame) : Parse.record b s = .ok () (s.record b) := rfl

theorem reportIf_apply (c : Bool) (p : Problem) :
    reportIf c p s = .ok () (if c then s.record (s.blame p) else s) := rfl

theorem inFunction_apply : inFunction s = .ok (0 < s.functions) s := rfl

theorem enterFunction_apply (body : Parse α) : enterFunction body s =
    match body { s with functions := s.functions + 1 } with
    | .ok a s => .ok a { s with functions := s.functions - 1 }
    | .error e s => .error e { s with functions := s.functions - 1 } := by
  simp only [enterFunction, ReadState.functions, ReadState.withFunctions]
  cases body { s with functions := s.functions + 1 } <;> rfl

theorem recovering_apply (statement : Parse α) : recovering statement s =
    match statement s with
    | .ok a s => .ok (some a) s
    | .error (.fatal b) s => .ok none (s.record b).resynced
    | .error .outOfFuel s => .error .outOfFuel s := by
  unfold recovering
  rcases statement s with _ | ⟨_ | _, _⟩ <;> rfl

end Parse

end Treewalk
