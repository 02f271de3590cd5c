import Treewalk.Source.Piece

/-!
# Tokens and lexical errors of a source text

Scanning walks over the pieces of a text and counts lines: an item stands on
the line that its text ends on. Lexemes become tokens, faulty pieces become
errors, blanks and comments disappear, and an end token comes last.

Results:

* `readings_eq_append`: the readings of a text end with its end token.
-/
namespace Treewalk

/-- What is wrong with a piece of the source. -/
inductive LexProblem where
  | unexpectedCharacter (c : Char)
  | unterminatedString
  | unterminatedComment
  deriving DecidableEq, Repr

def LexProblem.message : LexProblem → String
  | .unexpectedCharacter _ => "Unexpected character."
  | .unterminatedString => "Unterminated string."
  | .unterminatedComment => "Unterminated block comment."

structure LexError where
  line : Nat
  problem : LexProblem
  deriving DecidableEq, Repr

/-- The full text of a syntax error. -/
def syntaxErrorText (line : Nat) (location message : String) : String :=
  "[line " ++ toString line ++ "] Error" ++ location ++ ": " ++ message

def LexError.text (e : LexError) : String := syntaxErrorText e.line "" e.problem.message

/-- The number that digits with an optional fraction denote, rounded to the
nearest one that can be represented. -/
def numeralValue (cs : List Char) : Float :=
  let digits := cs.filter Piece.isDigit
  let value := digits.foldl (fun n c => 10 * n + (c.toNat - '0'.toNat)) 0
  Float.ofScientific value true ((cs.dropWhile (· ≠ '.')).length - 1)

/-- The value of a lexeme: numbers denote themselves, strings the text between
their quotes. -/
def literalOf (kind : Kind) (cs : List Char) : Option Literal :=
  match kind with
  | .number => some (.number (numeralValue cs))
  | .string => some (.string (String.ofList (cs.drop 1).dropLast))
  | _ => none

/-- One step of scanning: a token or an error. -/
abbrev Reading := Except LexError Token

/-- What a piece that ends on the given line contributes. -/
def Piece.reading? (line : Nat) (p : Piece) : Option Reading :=
  match p.shape with
  | .blank | .lineComment | .blockComment => none
  | .lexeme kind => some (.ok ⟨kind, String.ofList p.text, literalOf kind p.text, line⟩)
  | .unexpected => some (.error ⟨line, .unexpectedCharacter p.first⟩)
  | .unterminatedString => some (.error ⟨line, .unterminatedString⟩)
  | .unterminatedComment => some (.error ⟨line, .unterminatedComment⟩)

/-- How many lines a piece ends. -/
def Piece.breaks (p : Piece) : Nat := p.text.count '\n'

/-- The readings of a sequence of pieces that starts on the given line. -/
def readingsFrom : Nat → List Piece → List Reading
  | line, [] => [.ok (Token.eof line)]
  | line, p :: ps =>
    let line := line + p.breaks
    match p.reading? line with
    | none => readingsFrom line ps
    | some r => r :: readingsFrom line ps

/-- Every token and error of a source text in order, the end token last: the results of
`next_token`, called up to the end token. -/
def readings (source : String) : List Reading := readingsFrom 1 (pieces source.toList)

/-- The line a source text ends on. -/
def endLine (source : String) : Nat := 1 + source.toList.count '\n'

/-- The readings of a source text, where reading on past the end gives `extra`
more end tokens. -/
def readingsPast (source : String) (extra : Nat) : List Reading :=
  readings source ++ List.replicate extra (.ok (Token.eof (endLine source)))

/-- The tokens and the errors of a source text, each in order. -/
structure Scan where
  tokens : List Token
  errors : List LexError

/-- Mirrors `scan_tokens`. -/
def scan (source : String) : Scan :=
  let rs := readings source
  { tokens := rs.filterMap fun r => r.toOption
    errors := rs.filterMap fun
      | .ok _ => none
      | .error e => some e }

/-- The readings end with the end token, on the line that the pieces end on. -/
theorem readingsFrom_eq_append (line : Nat) (ps : List Piece) :
    ∃ rs, readingsFrom line ps =
      rs ++ [.ok (Token.eof (line + (ps.flatMap Piece.text).count '\n'))] := by
  induction ps generalizing line with
  | nil => exact ⟨[], by simp [readingsFrom]⟩
  | cons p ps ih =>
    obtain ⟨rs, h⟩ := ih (line + p.breaks)
    have e : line + p.breaks + (ps.flatMap Piece.text).count '\n' =
        line + ((p :: ps).flatMap Piece.text).count '\n' := by
      simp [Piece.breaks, Nat.add_assoc]
    rw [e] at h
    simp only [readingsFrom]
    split
    · exact ⟨rs, h⟩
    · next r _ => exact ⟨r :: rs, by rw [h]; rfl⟩

/-- The readings of a text end with its end token. -/
theorem readings_eq_append (source : String) :
    ∃ rs, readings source = rs ++ [.ok (Token.eof (endLine source))] := by
  have h := readingsFrom_eq_append 1 (pieces source.toList)
  rwa [text_pieces] at h

end Treewalk
