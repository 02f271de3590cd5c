import Treewalk.Proofs.Grammar.Phrase

/-!
# The grammar of statements

Derivations of declarations and statements, over the phrases for expressions:

    declaration → "fun" IDENTIFIER "(" parameters? ")" block | variable | statement
    variable    → "var" IDENTIFIER ( "=" expression )? ";"
    statement   → expression ";" | block
                | "print" expression ";" | "return" expression? ";"
                | "while" "(" expression ")" statement
                | "if" "(" expression ")" statement ( "else" statement )?
                | "for" "(" ( variable | expression ";" | ";" ) expression? ";"
                        expression? ")" statement
    block       → "{" declaration* "}"

A program is a sequence of declarations, `Decls`. The grammar alone lets an
`else` belong to any `if` before it; `Nearest` picks the derivations in which it
belongs to the last one that can still take it. Like those of phrases, the
`violations` of a derivation are the places where it breaks a static rule; a
`return` needs a function body around it.
-/
namespace Treewalk

namespace Grammar

/-- An expression. -/
abbrev Exp := Phrase (.assignment .full)

structure VarClause where
  keyword : Tok .varKw
  name : Tok .identifier
  initial : Option (Tok .equal × Exp)
  semicolon : Tok .semicolon

structure ExprClause where
  value : Exp
  semicolon : Tok .semicolon

/-- The first clause of a `for` loop. -/
inductive FirstClause where
  | absent (semicolon : Tok .semicolon)
  | var (clause : VarClause)
  | expr (clause : ExprClause)

inductive Parameters where
  | one (only : Tok .identifier)
  | more (first : Tok .identifier) (comma : Tok .comma) (rest : Parameters)

mutual

inductive Statement where
  | expr (clause : ExprClause)
  | forLoop (keyword : Tok .forKw) (opening : Tok .leftParen) (first : FirstClause)
      (condition : Option Exp) (semicolon : Tok .semicolon) (last : Option Exp)
      (closing : Tok .rightParen) (body : Statement)
  | ifThen (keyword : Tok .ifKw) (opening : Tok .leftParen) (condition : Exp)
      (closing : Tok .rightParen) (whenTrue : Statement)
  | ifElse (keyword : Tok .ifKw) (opening : Tok .leftParen) (condition : Exp)
      (closing : Tok .rightParen) (whenTrue : Statement) (otherwise : Tok .elseKw)
      (whenFalse : Statement)
  | print (keyword : Tok .printKw) (value : Exp) (semicolon : Tok .semicolon)
  | ret (keyword : Tok .returnKw) (value : Option Exp) (semicolon : Tok .semicolon)
  | whileLoop (keyword : Tok .whileKw) (opening : Tok .leftParen) (condition : Exp)
      (closing : Tok .rightParen) (body : Statement)
  | block (opening : Tok .leftBrace) (body : Decls) (closing : Tok .rightBrace)

inductive Decl where
  | function (keyword : Tok .funKw) (name : Tok .identifier) (opening : Tok .leftParen)
      (params : Option Parameters) (closing : Tok .rightParen) (before : Tok .leftBrace)
      (body : Decls) (after : Tok .rightBrace)
  | var (clause : VarClause)
  | statement (only : Statement)

inductive Decls where
  | nil
  | cons (first : Decl) (others : Decls)

end

/-! ## Tokens -/

/-- The tokens of something that may be left out. -/
def optional (d : Option Exp) : List Token := (d.map Phrase.tokens).getD []

/-- The equals sign and the value of a declaration. -/
def initialTokens : Option (Tok .equal × Exp) → List Token
  | none => []
  | some (equals, value) => equals.1 :: value.tokens

def VarClause.tokens (d : VarClause) : List Token :=
  d.keyword.1 :: d.name.1 :: (initialTokens d.initial ++ [d.semicolon.1])

def ExprClause.tokens (d : ExprClause) : List Token := d.value.tokens ++ [d.semicolon.1]

def FirstClause.tokens : FirstClause → List Token
  | .absent semicolon => [semicolon.1]
  | .var d => d.tokens
  | .expr d => d.tokens

def Parameters.tokens : Parameters → List Token
  | .one t => [t.1]
  | .more t comma rest => t.1 :: comma.1 :: rest.tokens

def parameterTokens (d : Option Parameters) : List Token := (d.map Parameters.tokens).getD []

mutual

def Statement.tokens : Statement → List Token
  | .expr d => d.tokens
  | .forLoop keyword opening first condition semicolon last closing body =>
    keyword.1 :: opening.1 :: (first.tokens ++ (optional condition ++ semicolon.1 ::
      (optional last ++ closing.1 :: body.tokens)))
  | .ifThen keyword opening condition closing whenTrue =>
    keyword.1 :: opening.1 :: (condition.tokens ++ closing.1 :: whenTrue.tokens)
  | .ifElse keyword opening condition closing whenTrue otherwise whenFalse =>
    keyword.1 :: opening.1 :: (condition.tokens ++ closing.1 :: (whenTrue.tokens ++
      otherwise.1 :: whenFalse.tokens))
  | .print keyword value semicolon => keyword.1 :: (value.tokens ++ [semicolon.1])
  | .ret keyword value semicolon => keyword.1 :: (optional value ++ [semicolon.1])
  | .whileLoop keyword opening condition closing body =>
    keyword.1 :: opening.1 :: (condition.tokens ++ closing.1 :: body.tokens)
  | .block opening body closing => opening.1 :: (body.tokens ++ [closing.1])

def Decl.tokens : Decl → List Token
  | .function keyword name opening params closing before body after =>
    keyword.1 :: name.1 :: opening.1 :: (parameterTokens params ++ closing.1 :: before.1 ::
      (body.tokens ++ [after.1]))
  | .var d => d.tokens
  | .statement d => d.tokens

def Decls.tokens : Decls → List Token
  | .nil => []
  | .cons first others => first.tokens ++ others.tokens

end

/-! ## Trees -/

def VarClause.tree (d : VarClause) : Stmt := .var d.name.1 (d.initial.map (·.2.tree))

def ExprClause.tree (d : ExprClause) : Stmt := .expr d.value.tree

def FirstClause.tree : FirstClause → Option Stmt
  | .absent _ => none
  | .var d => some d.tree
  | .expr d => some d.tree

def Parameters.names : Parameters → List Token
  | .one t => [t.1]
  | .more t _ rest => t.1 :: rest.names

def parameterNames (d : Option Parameters) : List Token := (d.map Parameters.names).getD []

mutual

def Statement.tree : Statement → Stmt
  | .expr d => d.tree
  | .forLoop _ _ first condition _ last _ body =>
    -- The last clause comes after the body in each round, the first one before all rounds.
    let round := match last with
      | none => body.tree
      | some e => .block [body.tree, .expr e.tree]
    let loop := match condition with
      | none => .whileLoop (.literal (.bool true)) round
      | some c => .whileLoop c.tree round
    match first with
    | .absent _ => loop
    | .var d => .block [d.tree, loop]
    | .expr d => .block [d.tree, loop]
  | .ifThen _ _ condition _ whenTrue => .ifThen condition.tree whenTrue.tree
  | .ifElse _ _ condition _ whenTrue _ whenFalse =>
    .ifElse condition.tree whenTrue.tree whenFalse.tree
  | .print _ value _ => .print value.tree
  | .ret keyword value _ => .ret keyword.1 (value.map Phrase.tree)
  | .whileLoop _ _ condition _ body => .whileLoop condition.tree body.tree
  | .block _ body _ => .block body.trees

def Decl.tree : Decl → Stmt
  | .function _ name _ params _ _ body _ => .function name.1 (parameterNames params) body.trees
  | .var d => d.tree
  | .statement d => d.tree

def Decls.trees : Decls → List Stmt
  | .nil => []
  | .cons first others => first.tree :: others.trees

end

theorem Statement.tree_forLoop (keyword : Tok .forKw) (opening : Tok .leftParen)
    (first : FirstClause) (condition : Option Exp) (semicolon : Tok .semicolon)
    (last : Option Exp) (closing : Tok .rightParen) (body : Statement) :
    (Statement.forLoop keyword opening first condition semicolon last closing body).tree =
      Stmt.forLoop first.tree (condition.map Phrase.tree) (last.map Phrase.tree) body.tree := by
  cases first <;> cases condition <;> cases last <;> rfl

/-! ## The nearest `if` -/

/-- Whether an `else` after the statement could belong to an `if` inside it. -/
def Statement.open : Statement → Bool
  | .ifThen .. => true
  | .ifElse _ _ _ _ _ _ whenFalse => whenFalse.open
  | .forLoop _ _ _ _ _ _ _ body => body.open
  | .whileLoop _ _ _ _ body => body.open
  | _ => false

mutual

/-- Every `else` belongs to the nearest `if` that can still take one. -/
def Statement.Nearest : Statement → Prop
  | .forLoop _ _ _ _ _ _ _ body => body.Nearest
  | .ifThen _ _ _ _ whenTrue => whenTrue.Nearest
  | .ifElse _ _ _ _ whenTrue _ whenFalse =>
    whenTrue.open = false ∧ whenTrue.Nearest ∧ whenFalse.Nearest
  | .whileLoop _ _ _ _ body => body.Nearest
  | .block _ body _ => body.Nearest
  | .expr _ | .print .. | .ret .. => True

def Decl.Nearest : Decl → Prop
  | .function _ _ _ _ _ _ body _ => body.Nearest
  | .var _ => True
  | .statement d => d.Nearest

def Decls.Nearest : Decls → Prop
  | .nil => True
  | .cons first others => first.Nearest ∧ others.Nearest

end

/-! ## Static rules -/

def optionalViolations (d : Option Exp) (n : Nat) : List Blame :=
  (d.map (·.violations n)).getD []

def VarClause.violations (d : VarClause) (n : Nat) : List Blame :=
  (d.initial.map (·.2.violations (n + 3))).getD []

def ExprClause.violations (d : ExprClause) (n : Nat) : List Blame := d.value.violations n

def FirstClause.violations : FirstClause → Nat → List Blame
  | .absent _, _ => []
  | .var d, n => d.violations n
  | .expr d, n => d.violations n

/-- The violations of parameters after `count` others. -/
def Parameters.violations : Parameters → Nat → Nat → List Blame
  | .one t, count, n => countViolations count .tooManyParameters n (some t.1)
  | .more t _ rest, count, n =>
    countViolations count .tooManyParameters n (some t.1) ++ rest.violations (count + 1) (n + 2)

def parameterViolations (d : Option Parameters) (n : Nat) : List Blame :=
  (d.map (·.violations 0 n)).getD []

/-- A `return` has to stand in a function body. -/
def returnViolations (functions n : Nat) (keyword : Token) : List Blame :=
  if functions = 0 then [⟨.topLevelReturn, n, some keyword⟩] else []

mutual

/-- The violations of a statement inside the given number of function bodies that
starts at the given position. -/
def Statement.violations : Statement → Nat → Nat → List Blame
  | .expr d, _, n => d.violations n
  | .forLoop _ _ first condition _ last _ body, fs, n =>
    let afterFirst := n + 2 + first.tokens.length
    let afterCondition := afterFirst + (optional condition).length + 1
    first.violations (n + 2) ++ optionalViolations condition afterFirst ++
      optionalViolations last afterCondition ++
      body.violations fs (afterCondition + (optional last).length + 1)
  | .ifThen _ _ condition _ whenTrue, fs, n =>
    condition.violations (n + 2) ++ whenTrue.violations fs (n + 2 + condition.tokens.length + 1)
  | .ifElse _ _ condition _ whenTrue _ whenFalse, fs, n =>
    let afterCondition := n + 2 + condition.tokens.length + 1
    condition.violations (n + 2) ++ whenTrue.violations fs afterCondition ++
      whenFalse.violations fs (afterCondition + whenTrue.tokens.length + 1)
  | .print _ value _, _, n => value.violations (n + 1)
  | .ret keyword value _, fs, n =>
    returnViolations fs n keyword.1 ++ optionalViolations value (n + 1)
  | .whileLoop _ _ condition _ body, fs, n =>
    condition.violations (n + 2) ++ body.violations fs (n + 2 + condition.tokens.length + 1)
  | .block _ body _, fs, n => body.violations fs (n + 1)

def Decl.violations : Decl → Nat → Nat → List Blame
  | .function _ _ _ params _ _ body _, fs, n =>
    parameterViolations params (n + 3) ++
      body.violations (fs + 1) (n + 3 + (parameterTokens params).length + 2)
  | .var d, _, n => d.violations n
  | .statement d, fs, n => d.violations fs n

def Decls.violations : Decls → Nat → Nat → List Blame
  | .nil, _, _ => []
  | .cons first others, fs, n =>
    first.violations fs n ++ others.violations fs (n + first.tokens.length)

end

/-! ## The first token, and what comes after the last -/

theorem Parameters.head : (d : Parameters) → ∃ t ts, d.tokens = t :: ts ∧ t.kind = .identifier
  | .one t => ⟨t.1, [], rfl, t.2⟩
  | .more t _ _ => ⟨t.1, _, rfl, t.2⟩

theorem ExprClause.head (d : ExprClause) :
    ∃ t ts, d.tokens = t :: ts ∧ startsExpression t.kind = true := head_append d.value.head

/-- The tokens that a statement other than an expression starts with. -/
def opensStatement (k : Kind) : Bool :=
  k = .forKw || k = .ifKw || k = .printKw || k = .returnKw || k = .whileKw || k = .leftBrace

/-- No expression starts with one of these. -/
theorem not_opening {k : Kind} (h : startsExpression k = true) : opensStatement k = false := by
  cases k <;> first | rfl | cases h

/-- The tokens that a declaration can start with. -/
def startsDeclaration (k : Kind) : Bool :=
  startsExpression k || opensStatement k || k = .varKw || k = .funKw

theorem Statement.head (d : Statement) :
    ∃ t ts, d.tokens = t :: ts ∧ (startsExpression t.kind || opensStatement t.kind) = true := by
  cases d with
  | expr d =>
    obtain ⟨t, ts, e, ht⟩ := d.head
    exact ⟨t, ts, by rw [Statement.tokens, e], by simp [ht]⟩
  | forLoop keyword | ifThen keyword | ifElse keyword | print keyword | ret keyword
  | whileLoop keyword | block keyword =>
    exact ⟨keyword.1, _, by rw [Statement.tokens], by rw [keyword.2]; rfl⟩

theorem Decl.head (d : Decl) :
    ∃ t ts, d.tokens = t :: ts ∧ startsDeclaration t.kind = true := by
  cases d with
  | function keyword => exact ⟨keyword.1, _, by rw [Decl.tokens], by rw [keyword.2]; rfl⟩
  | var d => exact ⟨d.keyword.1, _, rfl, by rw [d.keyword.2]; rfl⟩
  | statement d =>
    obtain ⟨t, ts, e, ht⟩ := d.head
    exact ⟨t, ts, by rw [Decl.tokens, e], by simp [startsDeclaration, ht]⟩

/-- No declaration starts with `else` or a closing brace. -/
theorem not_separating {k : Kind} (h : startsDeclaration k = true) :
    k ≠ .elseKw ∧ k ≠ .rightBrace := by
  cases k <;> first | decide | cases h

/-- No `else` is ahead. -/
def NoElse (rest : List Token) : Prop := ∀ t ∈ rest.head?, t.kind ≠ .elseKw

/-- What comes after all declarations: a closing brace in a block, otherwise nothing. -/
def Ends : Bool → List Token → Prop
  | true, rest => ∃ t ts, rest = t :: ts ∧ t.kind = .rightBrace
  | false, rest => rest = []

theorem Ends.noElse {inBlock : Bool} {rest : List Token} (h : Ends inBlock rest) :
    NoElse rest := by
  cases inBlock with
  | true =>
    obtain ⟨t, ts, rfl, ht⟩ := h
    intro u hu
    cases hu
    rw [ht]
    decide
  | false =>
    cases h
    intro u hu
    cases hu

/-- No `else` comes after a declaration. -/
theorem Decls.noElse (d : Decls) {inBlock : Bool} {rest : List Token} (h : Ends inBlock rest) :
    NoElse (d.tokens ++ rest) := by
  cases d with
  | nil => exact h.noElse
  | cons first others =>
    obtain ⟨t, ts, e, ht⟩ := first.head
    rw [Decls.tokens, e]
    intro u hu
    cases hu
    exact (not_separating ht).1

end Grammar

end Treewalk
