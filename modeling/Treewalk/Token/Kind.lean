/-!
# Kinds of tokens

`Kind.keyword?` tells keywords from identifiers, `Kind.startsStatement` marks
the keywords at which reading can resume after a malformed statement.
-/
namespace Treewalk

inductive Kind where
  | leftParen | rightParen | leftBrace | rightBrace
  | comma | dot | minus | plus | semicolon | slash | star | question | colon
  | bang | bangEqual | equal | equalEqual | greater | greaterEqual | less | lessEqual
  | identifier | string | number
  | andKw | classKw | elseKw | falseKw | funKw | forKw | ifKw | nilKw | orKw | printKw
  | returnKw | superKw | thisKw | trueKw | varKw | whileKw
  | eof
  deriving DecidableEq, Repr

namespace Kind

/-- The kind's name in token listings. -/
def name : Kind → String
  | leftParen => "LEFT_PAREN"
  | rightParen => "RIGHT_PAREN"
  | leftBrace => "LEFT_BRACE"
  | rightBrace => "RIGHT_BRACE"
  | comma => "COMMA"
  | dot => "DOT"
  | minus => "MINUS"
  | plus => "PLUS"
  | semicolon => "SEMICOLON"
  | slash => "SLASH"
  | star => "STAR"
  | question => "QUESTION"
  | colon => "COLON"
  | bang => "BANG"
  | bangEqual => "BANG_EQUAL"
  | equal => "EQUAL"
  | equalEqual => "EQUAL_EQUAL"
  | greater => "GREATER"
  | greaterEqual => "GREATER_EQUAL"
  | less => "LESS"
  | lessEqual => "LESS_EQUAL"
  | identifier => "IDENTIFIER"
  | string => "STRING"
  | number => "NUMBER"
  | andKw => "AND"
  | classKw => "CLASS"
  | elseKw => "ELSE"
  | falseKw => "FALSE"
  | funKw => "FUN"
  | forKw => "FOR"
  | ifKw => "IF"
  | nilKw => "NIL"
  | orKw => "OR"
  | printKw => "PRINT"
  | returnKw => "RETURN"
  | superKw => "SUPER"
  | thisKw => "THIS"
  | trueKw => "TRUE"
  | varKw => "VAR"
  | whileKw => "WHILE"
  | eof => "EOF"

def all : List Kind :=
  [leftParen, rightParen, leftBrace, rightBrace, comma, dot, minus, plus, semicolon, slash, star,
   question, colon, bang, bangEqual, equal, equalEqual, greater, greaterEqual, less, lessEqual,
   identifier, string, number, andKw, classKw, elseKw, falseKw, funKw, forKw, ifKw, nilKw, orKw,
   printKw, returnKw, superKw, thisKw, trueKw, varKw, whileKw, eof]

theorem mem_all (k : Kind) : k ∈ all := by cases k <;> decide

/-- The kind with the given name. -/
def ofName? (s : String) : Option Kind := all.find? (·.name == s)

def keywords : List (String × Kind) :=
  [("and", andKw), ("class", classKw), ("else", elseKw), ("false", falseKw), ("fun", funKw),
   ("for", forKw), ("if", ifKw), ("nil", nilKw), ("or", orKw), ("print", printKw),
   ("return", returnKw), ("super", superKw), ("this", thisKw), ("true", trueKw), ("var", varKw),
   ("while", whileKw)]

/-- The keyword spelled `word`, if there is one. Mirrors `lookup_keyword`. -/
def keyword? (word : String) : Option Kind := keywords.lookup word

/-- Whether a statement can begin with this keyword. Mirrors `starts_statement`. -/
def startsStatement : Kind → Bool
  | classKw | funKw | varKw | forKw | ifKw | whileKw | printKw | returnKw => true
  | _ => false

end Kind

end Treewalk
