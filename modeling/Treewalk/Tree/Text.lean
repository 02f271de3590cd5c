import Treewalk.Tree.Basic

/-!
# Trees as text

Every tree is shown as a parenthesised form with its operator or keyword first,
so that precedence and grouping are explicit. Strings stand between quotes;
nothing is escaped.
-/
namespace Treewalk

/-- A parenthesised form: a head, then every part after a space. Mirrors `parenthesize`. -/
def parenthesized (head : String) (parts : List String) : String :=
  "(" ++ parts.foldl (fun text part => text ++ " " ++ part) head ++ ")"

/-- A literal as it stands in the source. -/
def Literal.quoted : Literal → String
  | .string s => "\"" ++ s ++ "\""
  | l => l.text

mutual

/-- Mirrors `render_expr`. -/
def Expr.text : Expr → String
  | .literal l => l.quoted
  | .grouping e => parenthesized "group" [e.text]
  | .unary op e => parenthesized op.lexeme [e.text]
  | .binary l op r => parenthesized op.lexeme [l.text, r.text]
  | .logical l op r => parenthesized op.lexeme [l.text, r.text]
  | .ternary _ c t f => parenthesized "?:" [c.text, t.text, f.text]
  | .name t => t.lexeme
  | .assign t e => parenthesized "=" [t.lexeme, e.text]
  | .call f _ args => parenthesized "call" (f.text :: Expr.texts args)

def Expr.texts : List Expr → List String
  | [] => []
  | e :: es => e.text :: Expr.texts es

end

/-- The text of an optional part, if it is there. -/
def Expr.textOf? (e : Option Expr) : List String := (e.map Expr.text).toList

mutual

/-- Mirrors `render_stmt`, and `print_block` for a list of statements. -/
def Stmt.text : Stmt → String
  | .expr e => parenthesized ";" [e.text]
  | .print e => parenthesized "print" [e.text]
  | .var t e => parenthesized "var" (t.lexeme :: Expr.textOf? e)
  | .block b => parenthesized "block" (Stmt.texts b)
  | .ifThen c t => parenthesized "if" [c.text, t.text]
  | .ifElse c t f => parenthesized "if" [c.text, t.text, f.text]
  | .whileLoop c b => parenthesized "while" [c.text, b.text]
  | .function t ps b =>
    let params := "(" ++ " ".intercalate (ps.map Token.lexeme) ++ ")"
    parenthesized "fun" (t.lexeme :: params :: Stmt.texts b)
  | .ret _ e => parenthesized "return" (Expr.textOf? e)

def Stmt.texts : List Stmt → List String
  | [] => []
  | s :: ss => s.text :: Stmt.texts ss

end

/-- A program, one top-level statement to a line. -/
def Program.text (p : Program) : String := "\n".intercalate (Stmt.texts p)

end Treewalk
