import Treewalk.Proofs.Grammar.Sourced
import Treewalk.Proofs.Printing.Spelling
import Treewalk.Tree.Text

/-!
# Trees as forms

A tree is shown as a form, with a head and the parts after it. The forms of accepted programs
can be told apart by their text: heads, names and operators are words that no number looks
like, and the strings of a text have no quotes in them.

Results:

* `Expr.toList_text`, `Stmt.toList_text`, `Program.toList_text`: the text of a tree is that of
  its form.
* `Expr.readable`, `Stmt.readable`: the forms of accepted programs can be read.
-/
namespace Treewalk

open Lexical Grammar

/-! ## Trees as forms -/

def Literal.form : Literal → Form
  | .number x => .number x
  | .string s => .quoted s
  | l => .word l.text

/-- A head and the parts after it. -/
def Form.headed (head : String) (parts : List Form) : Form := .group (.word head :: parts)

/-- The name of a token. -/
def Token.form (t : Token) : Form := .word t.lexeme

mutual

def Expr.form : Expr → Form
  | .literal l => l.form
  | .grouping e => .headed "group" [e.form]
  | .unary op e => .headed op.lexeme [e.form]
  | .binary l op r => .headed op.lexeme [l.form, r.form]
  | .logical l op r => .headed op.lexeme [l.form, r.form]
  | .ternary _ c t f => .headed "?:" [c.form, t.form, f.form]
  | .name t => t.form
  | .assign t e => .headed "=" [t.form, e.form]
  | .call f _ args => .headed "call" (f.form :: Expr.forms args)

def Expr.forms : List Expr → List Form
  | [] => []
  | e :: es => e.form :: Expr.forms es

end

def Expr.formOf? (e : Option Expr) : List Form := (e.map Expr.form).toList

mutual

def Stmt.form : Stmt → Form
  | .expr e => .headed ";" [e.form]
  | .print e => .headed "print" [e.form]
  | .var t e => .headed "var" (t.form :: Expr.formOf? e)
  | .block b => .headed "block" (Stmt.forms b)
  | .ifThen c t => .headed "if" [c.form, t.form]
  | .ifElse c t f => .headed "if" [c.form, t.form, f.form]
  | .whileLoop c b => .headed "while" [c.form, b.form]
  | .function t ps b => .headed "fun" (t.form :: .group (ps.map Token.form) :: Stmt.forms b)
  | .ret _ e => .headed "return" (Expr.formOf? e)

def Stmt.forms : List Stmt → List Form
  | [] => []
  | s :: ss => s.form :: Stmt.forms ss

end

/-! ## Their text -/

theorem toList_intercalate {sep : String} {c : Char} (hsep : sep.toList = [c])
    {parts : List String} {fs : List Form} (h : parts.map String.toList = fs.map Form.chars) :
    (sep.intercalate parts).toList = Form.joined c fs := by
  rw [String.toList_intercalate, hsep, h]
  clear h
  cases fs with
  | nil => rfl
  | cons f fs =>
    show [c].intercalate (f.chars :: fs.map Form.chars) = f.chars ++ Form.tails c fs
    induction fs generalizing f with
    | nil => simp [Form.tails]
    | cons g fs ih => simp [List.intercalate_cons_cons, ih, Form.tails]

theorem toList_foldl : ∀ {parts : List String} {fs : List Form} (text : String),
    parts.map String.toList = fs.map Form.chars →
    (parts.foldl (fun text part => text ++ " " ++ part) text).toList =
      text.toList ++ Form.tails ' ' fs
  | [], [], text, _ => by simp [Form.tails]
  | part :: parts, f :: fs, text, h => by
    obtain ⟨hpart, hparts⟩ := List.cons.inj h
    rw [List.foldl_cons, toList_foldl _ hparts]
    simp [Form.tails, hpart]

theorem toList_parenthesized {head : String} {parts : List String} {fs : List Form}
    (h : parts.map String.toList = fs.map Form.chars) :
    (parenthesized head parts).toList = (Form.headed head fs).chars := by
  simp [parenthesized, toList_foldl head h, Form.headed, Form.chars, Form.joined]

theorem Literal.toList_quoted (l : Literal) : l.quoted.toList = l.form.chars := by
  cases l with
  | string s => simp [Literal.quoted, Literal.form, Form.chars]
  | _ => rfl

mutual

theorem Expr.toList_text : (e : Expr) → e.text.toList = e.form.chars
  | .literal l => l.toList_quoted
  | .grouping e | .unary _ e => toList_parenthesized (by simp [e.toList_text])
  | .binary l _ r | .logical l _ r =>
    toList_parenthesized (by simp [l.toList_text, r.toList_text])
  | .ternary _ c t f =>
    toList_parenthesized (by simp [c.toList_text, t.toList_text, f.toList_text])
  | .name _ => rfl
  | .assign t e => toList_parenthesized (by simp [e.toList_text, Token.form, Form.chars])
  | .call f _ args => toList_parenthesized (by simp [f.toList_text, Expr.toList_texts args])

theorem Expr.toList_texts : (es : List Expr) →
    (Expr.texts es).map String.toList = (Expr.forms es).map Form.chars
  | [] => rfl
  | e :: es => by simp [Expr.texts, Expr.forms, e.toList_text, Expr.toList_texts es]

end

theorem Expr.toList_textOf (e : Option Expr) :
    (Expr.textOf? e).map String.toList = (Expr.formOf? e).map Form.chars := by
  cases e with
  | none => rfl
  | some e => simp [Expr.textOf?, Expr.formOf?, e.toList_text]

theorem toList_params (ps : List Token) :
    ("(" ++ " ".intercalate (ps.map Token.lexeme) ++ ")").toList =
      (Form.group (ps.map Token.form)).chars := by
  have hnames : (ps.map Token.lexeme).map String.toList = (ps.map Token.form).map Form.chars := by
    simp [Token.form, Form.chars]
  have hspaced := toList_intercalate (show " ".toList = [' '] from rfl) hnames
  simp only [String.toList_append, hspaced]
  rfl

mutual

theorem Stmt.toList_text : (s : Stmt) → s.text.toList = s.form.chars
  | .expr e | .print e => toList_parenthesized (by simp [e.toList_text])
  | .var t e =>
    toList_parenthesized (by simp [Expr.toList_textOf e, Token.form, Form.chars])
  | .block b => toList_parenthesized (Stmt.toList_texts b)
  | .ifThen c t | .whileLoop c t =>
    toList_parenthesized (by simp [c.toList_text, t.toList_text])
  | .ifElse c t f =>
    toList_parenthesized (by simp [c.toList_text, t.toList_text, f.toList_text])
  | .function t ps b =>
    toList_parenthesized (by
      simp only [List.map_cons, toList_params, Stmt.toList_texts b]
      rfl)
  | .ret _ e => toList_parenthesized (Expr.toList_textOf e)

theorem Stmt.toList_texts : (ss : List Stmt) →
    (Stmt.texts ss).map String.toList = (Stmt.forms ss).map Form.chars
  | [] => rfl
  | s :: ss => by simp [Stmt.texts, Stmt.forms, s.toList_text, Stmt.toList_texts ss]

end

/-- The text of a program: its forms, with line breaks between them. -/
theorem Program.toList_text (p : Program) :
    (Program.text p).toList = Form.joined '\n' (Stmt.forms p) :=
  toList_intercalate rfl (Stmt.toList_texts p)

/-! ## Readable forms -/

/-- The expression itself is no infinite number and no NaN. -/
def Expr.Finite : Expr → Prop
  | .literal (.number x) => x.isFinite = true
  | _ => True

/-- So are the expressions in the statement, up to those in statements in it. -/
def Stmt.Finite (s : Stmt) : Prop := ∀ e ∈ s.exprs, e.Everywhere Expr.Finite

/-- All numbers in the program are finite. -/
def Program.Finite (p : Program) : Prop := Stmt.EverywhereAll Stmt.Finite p

instance : DecidablePred Expr.Finite
  | .literal (.number x) => inferInstanceAs (Decidable (x.isFinite = true))
  | .literal .nil | .literal (.bool _) | .literal (.string _) | .grouping _ | .unary _ _
  | .binary _ _ _ | .logical _ _ _ | .ternary _ _ _ _ | .name _ | .assign _ _
  | .call _ _ _ => .isTrue trivial

instance : DecidablePred Stmt.Finite := fun s =>
  inferInstanceAs (Decidable (∀ e ∈ s.exprs, e.Everywhere Expr.Finite))

instance (p : Program) : Decidable p.Finite :=
  inferInstanceAs (Decidable (Stmt.EverywhereAll Stmt.Finite p))

/-- The value of a string has no quotes in it. -/
theorem Token.Scanned.not_mem_string {t : Token} (h : t.Scanned) {s : String}
    (hs : constant t = .string s) : '"' ∉ s.toList := by
  have hvalue := h.value
  unfold constant at hs
  split at hs
  · cases hs
  · cases hs
  · cases hs
  · rw [hvalue] at hs
    unfold literalOf at hs
    split at hs
    · cases hs
    · rename_i hkind
      obtain ⟨cs, hcs, hspelling⟩ := Lexeme.of_string (hkind ▸ h.spelling)
      rw [hspelling] at hs
      obtain rfl : String.ofList cs = s := by simpa using hs
      rwa [String.toList_ofList]
    · cases hs

theorem Literal.readable {l : Literal} (h : (Expr.literal l).Sourced Token.Scanned)
    (hf : (Expr.literal l).Finite) : l.form.Readable := by
  cases l with
  | nil => rfl
  | bool b => cases b <;> rfl
  | number x => exact hf
  | string s =>
    obtain hbool | ⟨t, ht, -, hl⟩ := h
    · cases hbool
    · exact ht.not_mem_string hl.symm

theorem isWord_of_operator {k : Kind}
    (h : k.isUnary = true ∨ k.isBinary = true ∨ k.isLogical = true) : Token.isWord k = true := by
  cases k <;> first | rfl | simp [Kind.isUnary, Kind.isBinary, Kind.isLogical] at h

theorem Token.readable_name {t : Token} (h : t.Scanned ∧ t.kind = .identifier) :
    t.form.Readable :=
  h.1.bare (h.2 ▸ rfl)

mutual

theorem Expr.readable : (e : Expr) → e.Everywhere (Expr.Sourced Token.Scanned) →
    e.Everywhere Expr.Finite → e.form.Readable
  | .literal _, h, hf => Literal.readable h hf
  | .grouping e, h, hf => ⟨rfl, e.readable h.2 hf.2, trivial⟩
  | .unary _ e, h, hf =>
    ⟨h.1.1.bare (isWord_of_operator (.inl h.1.2)), e.readable h.2 hf.2, trivial⟩
  | .binary l _ r, h, hf =>
    ⟨h.1.1.bare (isWord_of_operator (.inr (.inl h.1.2))), l.readable h.2.1 hf.2.1,
      r.readable h.2.2 hf.2.2, trivial⟩
  | .logical l _ r, h, hf =>
    ⟨h.1.1.bare (isWord_of_operator (.inr (.inr h.1.2))), l.readable h.2.1 hf.2.1,
      r.readable h.2.2 hf.2.2, trivial⟩
  | .ternary _ c t f, h, hf => ⟨rfl, c.readable h.2.1 hf.2.1, t.readable h.2.2.1 hf.2.2.1,
      f.readable h.2.2.2 hf.2.2.2, trivial⟩
  | .name _, h, _ => Token.readable_name h
  | .assign _ e, h, hf => ⟨rfl, Token.readable_name h.1, e.readable h.2 hf.2, trivial⟩
  | .call f _ args, h, hf => 
    ⟨rfl, f.readable h.2.1 hf.2.1, Expr.readableAll args h.2.2 hf.2.2⟩

theorem Expr.readableAll : (es : List Expr) → Expr.EverywhereAll (Expr.Sourced Token.Scanned) es →
    Expr.EverywhereAll Expr.Finite es → Form.ReadableAll (Expr.forms es)
  | [], _, _ => trivial
  | e :: es, h, hf => ⟨e.readable h.1 hf.1, Expr.readableAll es h.2 hf.2⟩

end

theorem Expr.readable_formOf {value : Option Expr}
    (h : ∀ e ∈ value.toList, e.Everywhere (Expr.Sourced Token.Scanned))
    (hf : ∀ e ∈ value.toList, e.Everywhere Expr.Finite) :
    Form.ReadableAll (Expr.formOf? value) := by
  cases value with
  | none => trivial
  | some e => exact ⟨e.readable (h e (.head _)) (hf e (.head _)), trivial⟩

theorem Token.readable_names : {ts : List Token} →
    (∀ t ∈ ts, t.Scanned ∧ t.kind = .identifier) → Form.ReadableAll (ts.map Token.form)
  | [], _ => trivial
  | _ :: _, h =>
    have h := List.forall_mem_cons.mp h
    ⟨Token.readable_name h.1, Token.readable_names h.2⟩

mutual

theorem Stmt.readable : (s : Stmt) → s.Everywhere (Stmt.Sourced Token.Scanned) →
    s.Everywhere Stmt.Finite → s.form.Readable
  | .expr e, h, hf | .print e, h, hf =>
    ⟨rfl, e.readable (h.2 e (.head _)) (hf e (.head _)), trivial⟩
  | .var _ _, h, hf => ⟨rfl, Token.readable_name h.1, Expr.readable_formOf h.2 hf⟩
  | .block b, h, hf => ⟨rfl, Stmt.readableAll b h.2 hf.2⟩
  | .ifThen c t, h, hf | .whileLoop c t, h, hf =>
    ⟨rfl, c.readable (h.1.2 c (.head _)) (hf.1 c (.head _)), t.readable h.2 hf.2, trivial⟩
  | .ifElse c t f, h, hf =>
    ⟨rfl, c.readable (h.1.2 c (.head _)) (hf.1 c (.head _)), t.readable h.2.1 hf.2.1,
      f.readable h.2.2 hf.2.2, trivial⟩
  | .function _ _ b, h, hf =>
    have hnames := List.forall_mem_cons.mp h.1.1
    ⟨rfl, Token.readable_name hnames.1, Token.readable_names hnames.2,
      Stmt.readableAll b h.2 hf.2⟩
  | .ret _ _, h, hf => ⟨rfl, Expr.readable_formOf h.2 hf⟩

theorem Stmt.readableAll : (ss : List Stmt) →
    Stmt.EverywhereAll (Stmt.Sourced Token.Scanned) ss →
    Stmt.EverywhereAll Stmt.Finite ss → Form.ReadableAll (Stmt.forms ss)
  | [], _, _ => trivial
  | s :: ss, h, hf => ⟨s.readable h.1 hf.1, Stmt.readableAll ss h.2 hf.2⟩

end

end Treewalk
