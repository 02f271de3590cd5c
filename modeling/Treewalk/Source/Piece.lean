import Treewalk.Token.Basic

/-!
# Pieces of a source text

A source text is a sequence of non-empty pieces: blanks, comments, lexemes and
three kinds of faulty pieces. `extent` looks at the text after a piece's first
character and says what the piece is and how many further characters belong to
it; `pieces` cuts a whole text.

Results:

* `text_pieces`: the pieces of a text, put together, are the text.
-/
namespace Treewalk

/-- What a piece of the source is. -/
inductive Shape where
  /-- One space, tab, carriage return or line feed. -/
  | blank
  /-- From two slashes to the end of the line. -/
  | lineComment
  /-- From a slash and a star to the first star and slash after them. -/
  | blockComment
  | lexeme (kind : Kind)
  /-- A character that no lexeme starts with. -/
  | unexpected
  /-- A string without a closing quote, to the end of the source. -/
  | unterminatedString
  /-- A block comment without an end, to the end of the source. -/
  | unterminatedComment
  deriving DecidableEq, Repr

/-- A piece of the source: its first character and the ones after it. -/
structure Piece where
  shape : Shape
  first : Char
  more : List Char
  deriving DecidableEq, Repr

namespace Piece

def text (p : Piece) : List Char := p.first :: p.more

/-- The ASCII digits. Mirrors `is_digit`. -/
def isDigit (c : Char) : Bool := '0' ≤ c && c ≤ '9'

/-- An ASCII letter or an underscore. Mirrors `is_identifier_start`. -/
def startsWord (c : Char) : Bool := ('a' ≤ c && c ≤ 'z') || ('A' ≤ c && c ≤ 'Z') || c = '_'

/-- Mirrors `is_identifier_char`. -/
def inWord (c : Char) : Bool := startsWord c || isDigit c

/-- How many characters at the start satisfy `p`. -/
def run (p : Char → Bool) (cs : List Char) : Nat := (cs.takeWhile p).length

/-- Length of a comment body up to and including the first star and slash. Mirrors
`skip_block_comment`. -/
def commentEnd? : List Char → Option Nat
  | [] => none
  | '*' :: '/' :: _ => some 2
  | _ :: cs => (commentEnd? cs).map (· + 1)

/-- Length of the fraction at the start of a text: a point and at least one digit,
or nothing. -/
def fraction : List Char → Nat
  | '.' :: c :: cs => if isDigit c then 2 + run isDigit cs else 0
  | _ => 0

/-- How many digits, with an optional fraction, the text starts with. Mirrors `read_number`. -/
def numeral (cs : List Char) : Nat :=
  let n := run isDigit cs
  n + fraction (cs.drop n)

/-- The keyword or identifier that consists of the given characters. Mirrors
`read_identifier_or_keyword`. -/
def wordKind (word : List Char) : Kind :=
  (Kind.keyword? (String.ofList word)).getD .identifier

/-- An operator that a following equals sign makes another one. -/
def withEqual (one two : Kind) : List Char → Shape × Nat
  | '=' :: _ => (.lexeme two, 1)
  | _ => (.lexeme one, 0)

/-- What starts with a slash. Mirrors the comments in `skip_trivia`. -/
def afterSlash : List Char → Shape × Nat
  | '/' :: cs => (.lineComment, 1 + run (· ≠ '\n') cs)
  | '*' :: cs =>
    match commentEnd? cs with
    | some n => (.blockComment, 1 + n)
    | none => (.unterminatedComment, 1 + cs.length)
  | _ => (.lexeme .slash, 0)

/-- What starts with a quote. Mirrors `read_string`. -/
def afterQuote (cs : List Char) : Shape × Nat :=
  match cs.findIdx? (· = '"') with
  | some i => (.lexeme .string, i + 1)
  | none => (.unterminatedString, cs.length)

/-- What the piece that starts with `c` is, and how many of the characters that
follow belong to it. Mirrors `next_token`, and `skip_trivia` for what is no token. -/
def extent (c : Char) (cs : List Char) : Shape × Nat :=
  match c with
  | ' ' | '\r' | '\t' | '\n' => (.blank, 0)
  | '(' => (.lexeme .leftParen, 0)
  | ')' => (.lexeme .rightParen, 0)
  | '{' => (.lexeme .leftBrace, 0)
  | '}' => (.lexeme .rightBrace, 0)
  | ',' => (.lexeme .comma, 0)
  | '.' => (.lexeme .dot, 0)
  | '-' => (.lexeme .minus, 0)
  | '+' => (.lexeme .plus, 0)
  | ';' => (.lexeme .semicolon, 0)
  | '*' => (.lexeme .star, 0)
  | '?' => (.lexeme .question, 0)
  | ':' => (.lexeme .colon, 0)
  | '!' => withEqual .bang .bangEqual cs
  | '=' => withEqual .equal .equalEqual cs
  | '<' => withEqual .less .lessEqual cs
  | '>' => withEqual .greater .greaterEqual cs
  | '/' => afterSlash cs
  | '"' => afterQuote cs
  | c =>
    if isDigit c then (.lexeme .number, numeral cs)
    else if startsWord c then
      let n := run inWord cs
      (.lexeme (wordKind (c :: cs.take n)), n)
    else (.unexpected, 0)

end Piece

/-- Cut a text into its pieces. -/
def pieces : List Char → List Piece
  | [] => []
  | c :: cs =>
    let (shape, n) := Piece.extent c cs
    ⟨shape, c, cs.take n⟩ :: pieces (cs.drop n)
termination_by cs => cs.length
decreasing_by
  simp only [List.length_cons, List.length_drop]
  omega

theorem pieces_cons (c : Char) (cs : List Char) :
    pieces (c :: cs) = ⟨(Piece.extent c cs).1, c, cs.take (Piece.extent c cs).2⟩ ::
      pieces (cs.drop (Piece.extent c cs).2) := by
  rw [pieces]

/-- The pieces of a text, put together, are the text. -/
theorem text_pieces (cs : List Char) : (pieces cs).flatMap Piece.text = cs := by
  fun_induction pieces cs with
  | case1 => rfl
  | case2 c cs shape n h ih => simp [List.flatMap_cons, Piece.text, ih]

end Treewalk
