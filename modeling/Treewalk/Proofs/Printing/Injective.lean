import Treewalk.Proofs.Printing.Trees

/-!
# The text of a program determines it

A form can be taken apart into a tree again: heads and the number of parts tell the constructs
from each other, and a token is found again from its spelling or, where the tree does not show
it, from the place it stands in. What cannot be found again are lines.

Results:

* `Expr.form_expr`, `Stmt.form_stmt`: a tree is found again in its form.
* `text_determines_program`: accepted programs with the same text are the same up to lines.
-/
namespace Treewalk

open Lexical Grammar

/-! ## Trees read off forms -/

/-- The expression with this head and these parts. Calls do not show their parenthesis, and the
head of a conditional is not its operator. -/
def Expr.assemble (head : String) (parts : List Expr) : Expr :=
  match head, parts with
  | "group", [e] => .grouping e
  | "?:", [c, t, f] => .ternary (Token.alone "?") c t f
  | "=", [.name t, value] => .assign t value
  | "call", callee :: args => .call callee (Token.alone ")") args
  | _, [right] => .unary (Token.alone head) right
  | _, [left, right] =>
    let op := Token.alone head
    if op.kind.isLogical then .logical left op right else .binary left op right
  | _, _ => .literal .nil

mutual

def Form.expr : Form → Expr
  | .word w =>
    let t := Token.alone w
    if t.kind = .identifier then .name t else .literal (constant t)
  | .number x => .literal (.number x)
  | .quoted s => .literal (.string s)
  | .group (.word head :: parts) => Expr.assemble head (Form.exprs parts)
  | .group _ => .literal .nil

def Form.exprs : List Form → List Expr
  | [] => []
  | f :: fs => f.expr :: Form.exprs fs

end

/-- The token that a word names. -/
def Form.token : Form → Token
  | .word w => Token.alone w
  | _ => Token.eof 0

mutual

def Form.stmt : Form → Stmt
  | .group (.word ";" :: [e]) => .expr e.expr
  | .group (.word "print" :: [e]) => .print e.expr
  | .group (.word "var" :: t :: initial) => .var t.token (initial.head?.map Form.expr)
  | .group (.word "if" :: [c, t]) => .ifThen c.expr t.stmt
  | .group (.word "if" :: [c, t, f]) => .ifElse c.expr t.stmt f.stmt
  | .group (.word "while" :: [c, b]) => .whileLoop c.expr b.stmt
  | .group (.word "fun" :: t :: .group ps :: b) =>
    .function t.token (ps.map Form.token) (Form.stmts b)
  | .group (.word "return" :: value) => .ret (Token.alone "return") (value.head?.map Form.expr)
  | .group (.word "block" :: b) => .block (Form.stmts b)
  | _ => .block []

def Form.stmts : List Form → List Stmt
  | [] => []
  | f :: fs => f.stmt :: Form.stmts fs

end

/-! ## Expressions -/

theorem Token.Scanned.lexeme_ne {t : Token} (h : t.Scanned) {k : Kind} {w : String}
    (hw : Lexeme k w.toList) (hk : t.kind ≠ k) : t.lexeme ≠ w := by
  rintro rfl
  exact hk (h.spelling.kind_unique hw)

/-- The heads of groups and calls are names, so no operator is spelled like them. -/
theorem Token.Scanned.lexeme_ne_head {op : Token} (h : op.Scanned)
    (hname : op.kind ≠ .identifier) : op.lexeme ≠ "group" ∧ op.lexeme ≠ "call" :=
  ⟨h.lexeme_ne (.of_word (by decide) (by decide) (by decide)) hname,
    h.lexeme_ne (.of_word (by decide) (by decide) (by decide)) hname⟩

theorem Expr.assemble_one {op : Token} (h : op.Scanned) (hname : op.kind ≠ .identifier)
    (right : Expr) : Expr.assemble op.lexeme [right] = .unary (op.relabel blank) right := by
  obtain ⟨hgroup, hcall⟩ := h.lexeme_ne_head hname
  rw [← Token.alone_lexeme h]
  unfold Expr.assemble
  split <;> simp_all

theorem Expr.assemble_two {op : Token} (h : op.Scanned) (hname : op.kind ≠ .identifier)
    (hequal : op.kind ≠ .equal) (left right : Expr) :
    Expr.assemble op.lexeme [left, right] = if op.kind.isLogical then
      .logical left (op.relabel blank) right else .binary left (op.relabel blank) right := by
  obtain ⟨-, hcall⟩ := h.lexeme_ne_head hname
  have hassign : op.lexeme ≠ "=" := h.lexeme_ne (.symbol (by decide)) hequal
  have hkind : (op.relabel blank).kind = op.kind := rfl
  rw [← hkind, ← Token.alone_lexeme h]
  unfold Expr.assemble
  split <;> simp_all

theorem Literal.form_expr (l : Literal) : l.form.expr = .literal l := by
  have hword : ∀ {k : Kind} {w : String}, Lexeme k w.toList → k ≠ .identifier →
      (Form.word w).expr = .literal (constant ⟨k, w, literalOf k w.toList, 0⟩) := by
    intro k w hw hk
    simp [Form.expr, Token.alone_eq hw, hk]
  cases l with
  | nil =>
    exact hword (k := .nilKw) (.of_word (by decide) (by decide) (by decide)) (by decide)
  | bool b =>
    cases b with
    | true =>
      exact hword (k := .trueKw) (.of_word (by decide) (by decide) (by decide)) (by decide)
    | false =>
      exact hword (k := .falseKw) (.of_word (by decide) (by decide) (by decide)) (by decide)
  | number x | string s => rfl

theorem Token.form_expr {t : Token} (h : t.Scanned ∧ t.kind = .identifier) :
    t.form.expr = .name (t.relabel blank) := by
  have hkind : (t.relabel blank).kind = .identifier := h.2
  rw [Token.form, Form.expr, Token.alone_lexeme h.1]
  exact if_pos hkind

/-- Operators are no names and do not assign. -/
theorem Kind.not_name_of_operator {k : Kind}
    (h : k.isUnary = true ∨ k.isBinary = true ∨ k.isLogical = true) :
    k ≠ .identifier ∧ k ≠ .equal := by
  constructor <;> (rintro rfl; simp [Kind.isUnary, Kind.isBinary, Kind.isLogical] at h)

theorem Kind.not_logical_of_binary {k : Kind} (h : k.isBinary = true) : k.isLogical = false := by
  cases k <;> first | rfl | cases h

mutual

/-- An expression is found again in its form. -/
theorem Expr.form_expr : (e : Expr) → e.Everywhere (Expr.Sourced Token.Scanned) →
    e.form.expr = e.relabel blank
  | .literal l, _ => l.form_expr
  | .grouping e, h => congrArg Expr.grouping (e.form_expr h.2)
  | .unary op e, h => by
    obtain ⟨hname, -⟩ := Kind.not_name_of_operator (.inl h.1.2)
    show Expr.assemble op.lexeme [e.form.expr] = _
    rw [Expr.assemble_one h.1.1 hname, e.form_expr h.2]
    rfl
  | .binary l op r, h => by
    obtain ⟨hname, hequal⟩ := Kind.not_name_of_operator (.inr (.inl h.1.2))
    show Expr.assemble op.lexeme [l.form.expr, r.form.expr] = _
    rw [Expr.assemble_two h.1.1 hname hequal, Kind.not_logical_of_binary h.1.2,
      l.form_expr h.2.1, r.form_expr h.2.2]
    rfl
  | .logical l op r, h => by
    obtain ⟨hname, hequal⟩ := Kind.not_name_of_operator (.inr (.inr h.1.2))
    show Expr.assemble op.lexeme [l.form.expr, r.form.expr] = _
    rw [Expr.assemble_two h.1.1 hname hequal, h.1.2, l.form_expr h.2.1, r.form_expr h.2.2]
    rfl
  | .ternary op c t f, h => by
    have hop := h.1.1.alone_kind (w := "?") (h.1.2 ▸ .symbol (by decide)) (h.1.2 ▸ rfl)
    show Expr.ternary (Token.alone "?") c.form.expr t.form.expr f.form.expr = _
    rw [hop, c.form_expr h.2.1, t.form_expr h.2.2.1, f.form_expr h.2.2.2]
    rfl
  | .name _, h => Token.form_expr h
  | .assign t e, h => by
    show Expr.assemble "=" [t.form.expr, e.form.expr] = _
    rw [Token.form_expr h.1, e.form_expr h.2]
    rfl
  | .call f paren args, h => by
    have hparen := h.1.1.alone_kind (w := ")") (h.1.2 ▸ .symbol (by decide)) (h.1.2 ▸ rfl)
    show Expr.call f.form.expr (Token.alone ")") (Form.exprs (Expr.forms args)) = _
    rw [hparen, f.form_expr h.2.1, Expr.forms_exprs args h.2.2]
    rfl

theorem Expr.forms_exprs : (es : List Expr) → Expr.EverywhereAll (Expr.Sourced Token.Scanned) es →
    Form.exprs (Expr.forms es) = Expr.relabelAll blank es
  | [], _ => rfl
  | e :: es, h => by
    rw [Expr.forms, Form.exprs, e.form_expr h.1, Expr.forms_exprs es h.2]
    rfl

end

/-! ## Statements -/

theorem Expr.formOf_expr {value : Option Expr}
    (h : ∀ e ∈ value.toList, e.Everywhere (Expr.Sourced Token.Scanned)) :
    (Expr.formOf? value).head?.map Form.expr = value.map (Expr.relabel blank) := by
  cases value with
  | none => rfl
  | some e => exact congrArg some (e.form_expr (h e (.head _)))

theorem Token.forms_token {ts : List Token} (h : ∀ t ∈ ts, t.Scanned ∧ t.kind = .identifier) :
    (ts.map Token.form).map Form.token = ts.map (Token.relabel blank) := by
  rw [List.map_map]
  exact List.map_congr_left fun t ht => Token.alone_lexeme (h t ht).1

mutual

/-- A statement is found again in its form. -/
theorem Stmt.form_stmt : (s : Stmt) → s.Everywhere (Stmt.Sourced Token.Scanned) →
    s.form.stmt = s.relabel blank
  | .expr e, h => congrArg Stmt.expr (e.form_expr (h.2 e (.head _)))
  | .print e, h => congrArg Stmt.print (e.form_expr (h.2 e (.head _)))
  | .var t e, h =>
    congrArg₂ Stmt.var (Token.alone_lexeme h.1.1) (Expr.formOf_expr h.2)
  | .block b, h => congrArg Stmt.block (Stmt.forms_stmts b h.2)
  | .ifThen c t, h =>
    congrArg₂ Stmt.ifThen (c.form_expr (h.1.2 c (.head _))) (t.form_stmt h.2)
  | .ifElse c t f, h => by
    show Stmt.ifElse c.form.expr t.form.stmt f.form.stmt = _
    rw [c.form_expr (h.1.2 c (.head _)), t.form_stmt h.2.1, f.form_stmt h.2.2]
    rfl
  | .whileLoop c b, h =>
    congrArg₂ Stmt.whileLoop (c.form_expr (h.1.2 c (.head _))) (b.form_stmt h.2)
  | .function t ps b, h => by
    obtain ⟨hname, hparams⟩ := List.forall_mem_cons.mp h.1.1
    show Stmt.function (Token.alone t.lexeme) ((ps.map Token.form).map Form.token)
      (Form.stmts (Stmt.forms b)) = _
    rw [Token.alone_lexeme hname.1, Token.forms_token hparams, Stmt.forms_stmts b h.2]
    rfl
  | .ret keyword e, h => by
    have hkeyword := h.1.1.alone_kind (w := "return")
      (h.1.2 ▸ .of_word (by decide) (by decide) (by decide)) (h.1.2 ▸ rfl)
    show Stmt.ret (Token.alone "return") ((Expr.formOf? e).head?.map Form.expr) = _
    rw [hkeyword, Expr.formOf_expr h.2]
    rfl

theorem Stmt.forms_stmts : (ss : List Stmt) → Stmt.EverywhereAll (Stmt.Sourced Token.Scanned) ss →
    Form.stmts (Stmt.forms ss) = Stmt.relabelAll blank ss
  | [], _ => rfl
  | s :: ss, h => by
    rw [Stmt.forms, Form.stmts, s.form_stmt h.1, Stmt.forms_stmts ss h.2]
    rfl

end

/-! ## Programs -/

/-- Two accepted programs whose numbers are finite and whose texts are the same are the same up
to the lines of their tokens. -/
theorem text_determines_program {a b : String} {p q : Program}
    (hp : parse (scan a).tokens = .ok p) (hq : parse (scan b).tokens = .ok q) (hpf : p.Finite)
    (hqf : q.Finite) (h : Program.text p = Program.text q) :
    Stmt.relabelAll blank p = Stmt.relabelAll blank q := by
  have hps := parse_sourced hp Token.scanned_of_programTokens
  have hqs := parse_sourced hq Token.scanned_of_programTokens
  have hend : Form.Closes '\n' [] := ⟨by decide, nofun, nofun⟩
  have htext := congrArg String.toList h
  rw [Program.toList_text, Program.toList_text] at htext
  have hforms : Stmt.forms p = Stmt.forms q :=
    (Form.joined_inj (Stmt.readableAll p hps hpf) (Stmt.readableAll q hqs hqf) hend hend
      (congrArg (· ++ []) htext)).1
  rw [← Stmt.forms_stmts p hps, ← Stmt.forms_stmts q hqs, hforms]

/-- A loop written in two ways, with other blanks and other spellings of the numbers. -/
theorem text_determines_program_loops :
    let a := "fun f(x) { return -x - 1.5; } for (;;) print f(2) ? \"a) (b\" : nil;"
    let b := "fun f(x) { return - x - 1.50; }\nwhile (true)\n  print f(2.0) ? \"a) (b\" : nil;"
    ∃ p q, parse (scan a).tokens = .ok p ∧ parse (scan b).tokens = .ok q ∧ p.Finite ∧ q.Finite ∧
      Program.text p = Program.text q ∧ Stmt.relabelAll blank p = Stmt.relabelAll blank q := by
  intro a b
  let text := "(fun f (x) (return (- (- x) 1.5)))\n" ++
    "(while true (print (?: (call f 2) \"a) (b\" nil)))"
  have hread : ∀ source : String, (parse (scan source).tokens).toOption.map
      (fun p => (decide p.Finite, Program.text p)) = some (true, text) →
      ∃ p, parse (scan source).tokens = .ok p ∧ p.Finite ∧ Program.text p = text := by
    intro source h
    cases hparse : parse (scan source).tokens with
    | error es =>
      rw [hparse] at h
      cases h
    | ok p =>
      rw [hparse] at h
      obtain ⟨hfinite, htext⟩ := Prod.mk.inj (Option.some.inj h)
      exact ⟨p, rfl, of_decide_eq_true hfinite, htext⟩
  obtain ⟨p, hp, hpf, hpt⟩ := hread a (by decide +kernel)
  obtain ⟨q, hq, hqf, hqt⟩ := hread b (by decide +kernel)
  have htext : Program.text p = Program.text q := hpt.trans hqt.symm
  exact ⟨p, q, hp, hq, hpf, hqf, htext, text_determines_program hp hq hpf hqf htext⟩

end Treewalk
