import Treewalk.Text
import Treewalk.Tree.Basic

/-!
# Run-time values

Values are compared by content, except that a callable equals only itself: each
one carries the number it got when it was made.
-/
namespace Treewalk

/-- The number of a scope in the store. -/
abbrev ScopeId := Nat

/-- A function as it was declared. -/
structure Declaration where
  name : Token
  params : List Token
  body : List Stmt

inductive Callable where
  /-- The native function that reads the clock. -/
  | clock
  /-- A declared function with the scope it was declared in. -/
  | function (declaration : Declaration) (closure : ScopeId)

inductive Value where
  | nil
  | bool (b : Bool)
  | number (x : Float)
  | string (s : String)
  /-- `id` tells this callable from all others. -/
  | callable (id : Nat) (target : Callable)

namespace Callable

def name : Callable → String
  | clock => "clock"
  | function d _ => d.name.lexeme

/-- How many arguments a call needs. -/
def arity : Callable → Nat
  | clock => 0
  | function d _ => d.params.length

def text : Callable → String
  | clock => "<native fn>"
  | function d _ => "<fn " ++ d.name.lexeme ++ ">"

/-- The callable described for someone who looks into the machine. -/
def description : Callable → String
  | clock => "Clock"
  | c@(function ..) =>
    "Function \x7b name: " ++ Text.quoted c.name ++ ", arity: " ++ toString c.arity ++ " \x7d"

end Callable

namespace Value

def ofLiteral : Literal → Value
  | .nil => nil
  | .bool b => bool b
  | .number x => number x
  | .string s => string s

/-- Only `nil` and `false` count as false. Mirrors `is_truthy`. -/
def truthy : Value → Bool
  | nil => false
  | bool b => b
  | _ => true

def beq : Value → Value → Bool
  | nil, nil => true
  | bool a, bool b => a == b
  | number a, number b => a == b
  | string a, string b => a == b
  | callable a _, callable b _ => a == b
  | _, _ => false

instance : BEq Value := ⟨beq⟩

/-- Printed numbers are written out from `10^-5` up to `10^16` and have an exponent
outside of that range; a tie between two shortest decimals goes to the even one. Mirrors
`format_number`, which has its digits from the library `ryu`: the layout is the one that
library documents, without its `.0` after whole numbers. -/
def layout : Decimal.Layout := ⟨fun point => -5 < point && point ≤ 16, .toEven, "Infinity"⟩

/-- The value as it is printed. -/
def text : Value → String
  | nil => "nil"
  | bool b => if b then "true" else "false"
  | number x => layout.text x
  | string s => s
  | callable _ c => c.text

/-- The value as it would stand in a program: strings between quotes. Mirrors
`to_code_string`. -/
def code : Value → String
  | string s => "\"" ++ s ++ "\""
  | v => v.text

end Value

end Treewalk
