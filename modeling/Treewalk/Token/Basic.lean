import Treewalk.Decimal.Layout
import Treewalk.Token.Kind

/-!
# Literals and tokens

A token is a kind with its spelling, its value if it is a number or a string,
and the line it ends on.
-/
namespace Treewalk

/-- A constant as it stands in the source. -/
inductive Literal where
  | nil
  | bool (b : Bool)
  | number (x : Float)
  | string (s : String)
  deriving BEq, Repr

/-- Numbers in source text and trees are always written out in full; a tie
between two shortest decimals goes up. -/
def Literal.layout : Decimal.Layout := ⟨fun _ => true, .up, "inf"⟩

/-- The literal as it is shown in token and tree listings; strings are shown
as they are. -/
def Literal.text : Literal → String
  | .nil => "nil"
  | .bool b => if b then "true" else "false"
  | .number x => Literal.layout.text x
  | .string s => s

structure Token where
  kind : Kind
  lexeme : String
  literal : Option Literal
  line : Nat
  deriving BEq, Repr

namespace Token

/-- The token that ends every program. -/
def eof (line : Nat) : Token := ⟨.eof, "", none, line⟩

/-- Kind, spelling and value, with `nil` for no value. -/
def text (t : Token) : String :=
  t.kind.name ++ " " ++ t.lexeme ++ " " ++ (t.literal.getD .nil).text

end Token

end Treewalk
