import Treewalk.Tree.Parser.Statement

/-!
# Reading programs

`parse` reads a whole token sequence up to its first end token; the tokens after
that one do not matter. It gives the statements if there is no syntax error, and
all syntax errors otherwise.
-/
namespace Treewalk

/-- Fuel that suffices for the given number of tokens: reading nests less than
this deep per token. -/
def Parse.fuel (tokens : Nat) : Nat := 32 * (tokens + 1)

/-- The tokens of a program: all before the first end token. -/
def programTokens (tokens : List Token) : List Token := tokens.takeWhile (·.kind ≠ .eof)

/-- The token that ends a program: its first end token, or one on the line of
the last token. -/
def endToken (tokens : List Token) : Token :=
  (tokens.find? (·.kind = .eof)).getD (Token.eof ((tokens.getLast?.map Token.line).getD 1))

/-- Nothing read yet. -/
def ParseState.initial (tokens : List Token) : ParseState := ⟨tokens, 0, 0, #[]⟩

/-- Read the declarations of a whole program. -/
def readProgram (tokens : List Token) : EStateM.Result Halt ParseState Program :=
  Parse.declarations (Parse.fuel tokens.length) false (.initial tokens)

/-- The statements of a token sequence, or all its syntax errors. Mirrors `parse_program`. -/
def parse (tokens : List Token) : Except (List ParseError) Program :=
  let errors (s : ParseState) := s.problems.toList.map (·.error (endToken tokens))
  match readProgram (programTokens tokens) with
  | .ok program s => if s.problems.isEmpty then .ok program else .error (errors s)
  | .error _ s => .error (errors s)

end Treewalk
