import Treewalk.Tree.Basic

/-!
# Properties of whole trees

A property of single expressions or statements holds `Everywhere` in a tree if it holds
of the tree and of all expressions or statements in it, function bodies included.

Results:

* `Expr.everywhereAll_iff`, `Stmt.everywhereAll_iff`: lists of trees.
* `Expr.Everywhere.parts`, `Stmt.Everywhere.parts`: the parts of a tree with a property
  have it.
* `Expr.Everywhere.imp`, `Stmt.Everywhere.imp`: a weaker property.
* `Stmt.Everywhere.and`: a tree with two properties.
* `Stmt.forLoop_everywhere`: a `for` loop has a property if what it is made of has it.
-/
namespace Treewalk

/-! ## Parts -/

/-- The expressions that stand directly in an expression. -/
def Expr.parts : Expr → List Expr
  | .literal _ | .name _ => []
  | .grouping e | .unary _ e | .assign _ e => [e]
  | .binary left _ right | .logical left _ right => [left, right]
  | .ternary _ c t f => [c, t, f]
  | .call callee _ args => callee :: args

/-- The statements that stand directly in a statement, up to those in function bodies. -/
def Stmt.parts : Stmt → List Stmt
  | .block body => body
  | .ifThen _ t => [t]
  | .ifElse _ t f => [t, f]
  | .whileLoop _ body => [body]
  | .expr _ | .print _ | .var _ _ | .function _ _ _ | .ret _ _ => []

/-- The expressions that stand directly in a statement. -/
def Stmt.exprs : Stmt → List Expr
  | .expr e | .print e => [e]
  | .var _ initial => initial.toList
  | .ifThen c _ | .ifElse c _ _ | .whileLoop c _ => [c]
  | .ret _ value => value.toList
  | .block _ | .function _ _ _ => []

/-! ## Expressions -/

section Expressions

variable (P : Expr → Prop)

mutual

/-- The property holds of an expression and of all expressions in it. -/
def Expr.Everywhere : Expr → Prop
  | .literal l => P (.literal l)
  | .grouping e => P (.grouping e) ∧ e.Everywhere
  | .unary op right => P (.unary op right) ∧ right.Everywhere
  | .binary left op right => P (.binary left op right) ∧ left.Everywhere ∧ right.Everywhere
  | .logical left op right => P (.logical left op right) ∧ left.Everywhere ∧ right.Everywhere
  | .ternary op c t f => P (.ternary op c t f) ∧ c.Everywhere ∧ t.Everywhere ∧ f.Everywhere
  | .name t => P (.name t)
  | .assign t value => P (.assign t value) ∧ value.Everywhere
  | .call callee paren args =>
    P (.call callee paren args) ∧ callee.Everywhere ∧ Expr.EverywhereAll args

def Expr.EverywhereAll : List Expr → Prop
  | [] => True
  | e :: es => e.Everywhere ∧ Expr.EverywhereAll es

end

mutual

/-- Whether a property that can be checked holds everywhere can be checked. -/
def Expr.decidableEverywhere [DecidablePred P] : (e : Expr) → Decidable (e.Everywhere P)
  | .literal l => inferInstanceAs (Decidable (P (.literal l)))
  | .name t => inferInstanceAs (Decidable (P (.name t)))
  | .grouping e =>
    have := e.decidableEverywhere
    inferInstanceAs (Decidable (P (.grouping e) ∧ e.Everywhere P))
  | .unary op e =>
    have := e.decidableEverywhere
    inferInstanceAs (Decidable (P (.unary op e) ∧ e.Everywhere P))
  | .binary l op r =>
    have := l.decidableEverywhere
    have := r.decidableEverywhere
    inferInstanceAs (Decidable (P (.binary l op r) ∧ l.Everywhere P ∧ r.Everywhere P))
  | .logical l op r =>
    have := l.decidableEverywhere
    have := r.decidableEverywhere
    inferInstanceAs (Decidable (P (.logical l op r) ∧ l.Everywhere P ∧ r.Everywhere P))
  | .ternary op c t f =>
    have := c.decidableEverywhere
    have := t.decidableEverywhere
    have := f.decidableEverywhere
    inferInstanceAs (Decidable
      (P (.ternary op c t f) ∧ c.Everywhere P ∧ t.Everywhere P ∧ f.Everywhere P))
  | .assign t e =>
    have := e.decidableEverywhere
    inferInstanceAs (Decidable (P (.assign t e) ∧ e.Everywhere P))
  | .call f paren args =>
    have := f.decidableEverywhere
    have := Expr.decidableEverywhereAll args
    inferInstanceAs (Decidable
      (P (.call f paren args) ∧ f.Everywhere P ∧ Expr.EverywhereAll P args))

def Expr.decidableEverywhereAll [DecidablePred P] :
    (es : List Expr) → Decidable (Expr.EverywhereAll P es)
  | [] => .isTrue trivial
  | e :: es =>
    have := e.decidableEverywhere
    have := Expr.decidableEverywhereAll es
    inferInstanceAs (Decidable (e.Everywhere P ∧ Expr.EverywhereAll P es))

end

instance [DecidablePred P] (e : Expr) : Decidable (e.Everywhere P) := e.decidableEverywhere P

variable {P}

theorem Expr.everywhereAll_iff {es : List Expr} :
    Expr.EverywhereAll P es ↔ ∀ e ∈ es, e.Everywhere P := by
  induction es with
  | nil => simp [Expr.EverywhereAll]
  | cons e es ih => simp [Expr.EverywhereAll, ih]

mutual

theorem Expr.Everywhere.imp {Q : Expr → Prop} (h : ∀ e, P e → Q e) :
    {e : Expr} → e.Everywhere P → e.Everywhere Q
  | .literal _, he | .name _, he => h _ he
  | .grouping _, he | .unary _ _, he | .assign _ _, he => ⟨h _ he.1, he.2.imp h⟩
  | .binary _ _ _, he | .logical _ _ _, he => ⟨h _ he.1, he.2.1.imp h, he.2.2.imp h⟩
  | .ternary _ _ _ _, he => ⟨h _ he.1, he.2.1.imp h, he.2.2.1.imp h, he.2.2.2.imp h⟩
  | .call _ _ _, he => ⟨h _ he.1, he.2.1.imp h, Expr.EverywhereAll.imp h he.2.2⟩

theorem Expr.EverywhereAll.imp {Q : Expr → Prop} (h : ∀ e, P e → Q e) :
    {es : List Expr} → Expr.EverywhereAll P es → Expr.EverywhereAll Q es
  | [], _ => trivial
  | _ :: _, hes => ⟨hes.1.imp h, Expr.EverywhereAll.imp h hes.2⟩

end

theorem Expr.Everywhere.self {e : Expr} (h : e.Everywhere P) : P e := by
  cases e with
  | literal _ | name _ => exact h
  | _ => exact h.1

theorem Expr.Everywhere.parts {e : Expr} (h : e.Everywhere P) :
    ∀ part ∈ e.parts, part.Everywhere P := by
  intro part hpart
  cases e with
  | literal l | name t => cases hpart
  | grouping e | unary op e | assign t e =>
    obtain rfl := List.mem_singleton.mp hpart
    exact h.2
  | binary l op r | logical l op r =>
    simp only [Expr.parts, List.mem_cons, List.not_mem_nil, or_false] at hpart
    obtain rfl | rfl := hpart
    · exact h.2.1
    · exact h.2.2
  | ternary op c t f =>
    simp only [Expr.parts, List.mem_cons, List.not_mem_nil, or_false] at hpart
    obtain rfl | rfl | rfl := hpart
    · exact h.2.1
    · exact h.2.2.1
    · exact h.2.2.2
  | call callee paren args =>
    obtain rfl | hpart := List.mem_cons.mp hpart
    · exact h.2.1
    · exact Expr.everywhereAll_iff.mp h.2.2 part hpart

end Expressions

/-! ## Statements -/

section Statements

variable (P : Stmt → Prop)

mutual

/-- The property holds of a statement and of all statements in it. -/
def Stmt.Everywhere : Stmt → Prop
  | .expr e => P (.expr e)
  | .print e => P (.print e)
  | .var name initial => P (.var name initial)
  | .block body => P (.block body) ∧ Stmt.EverywhereAll body
  | .ifThen c t => P (.ifThen c t) ∧ t.Everywhere
  | .ifElse c t f => P (.ifElse c t f) ∧ t.Everywhere ∧ f.Everywhere
  | .whileLoop c body => P (.whileLoop c body) ∧ body.Everywhere
  | .function name params body => P (.function name params body) ∧ Stmt.EverywhereAll body
  | .ret keyword value => P (.ret keyword value)

def Stmt.EverywhereAll : List Stmt → Prop
  | [] => True
  | s :: ss => s.Everywhere ∧ Stmt.EverywhereAll ss

end

mutual

def Stmt.decidableEverywhere [DecidablePred P] : (s : Stmt) → Decidable (s.Everywhere P)
  | .expr e => inferInstanceAs (Decidable (P (.expr e)))
  | .print e => inferInstanceAs (Decidable (P (.print e)))
  | .var name initial => inferInstanceAs (Decidable (P (.var name initial)))
  | .ret keyword value => inferInstanceAs (Decidable (P (.ret keyword value)))
  | .block body =>
    have := Stmt.decidableEverywhereAll body
    inferInstanceAs (Decidable (P (.block body) ∧ Stmt.EverywhereAll P body))
  | .ifThen c t =>
    have := t.decidableEverywhere
    inferInstanceAs (Decidable (P (.ifThen c t) ∧ t.Everywhere P))
  | .ifElse c t f =>
    have := t.decidableEverywhere
    have := f.decidableEverywhere
    inferInstanceAs (Decidable (P (.ifElse c t f) ∧ t.Everywhere P ∧ f.Everywhere P))
  | .whileLoop c body =>
    have := body.decidableEverywhere
    inferInstanceAs (Decidable (P (.whileLoop c body) ∧ body.Everywhere P))
  | .function name params body =>
    have := Stmt.decidableEverywhereAll body
    inferInstanceAs (Decidable (P (.function name params body) ∧ Stmt.EverywhereAll P body))

def Stmt.decidableEverywhereAll [DecidablePred P] :
    (ss : List Stmt) → Decidable (Stmt.EverywhereAll P ss)
  | [] => .isTrue trivial
  | s :: ss =>
    have := s.decidableEverywhere
    have := Stmt.decidableEverywhereAll ss
    inferInstanceAs (Decidable (s.Everywhere P ∧ Stmt.EverywhereAll P ss))

end

instance [DecidablePred P] (ss : List Stmt) : Decidable (Stmt.EverywhereAll P ss) :=
  Stmt.decidableEverywhereAll P ss

variable {P} {Q : Stmt → Prop}

theorem Stmt.everywhereAll_iff {ss : List Stmt} :
    Stmt.EverywhereAll P ss ↔ ∀ s ∈ ss, s.Everywhere P := by
  induction ss with
  | nil => simp [Stmt.EverywhereAll]
  | cons s ss ih => simp [Stmt.EverywhereAll, ih]

theorem Stmt.Everywhere.self {s : Stmt} (h : s.Everywhere P) : P s := by
  cases s with
  | expr _ | print _ | var _ _ | ret _ _ => exact h
  | _ => exact h.1

theorem Stmt.Everywhere.parts {s : Stmt} (h : s.Everywhere P) :
    ∀ part ∈ s.parts, part.Everywhere P := by
  intro part hpart
  cases s with
  | expr _ | print _ | var _ _ | function _ _ _ | ret _ _ => cases hpart
  | block body => exact Stmt.everywhereAll_iff.mp h.2 part hpart
  | ifThen c t | whileLoop c t =>
    obtain rfl := List.mem_singleton.mp hpart
    exact h.2
  | ifElse c t f =>
    simp only [Stmt.parts, List.mem_cons, List.not_mem_nil, or_false] at hpart
    obtain rfl | rfl := hpart
    · exact h.2.1
    · exact h.2.2

mutual

theorem Stmt.Everywhere.imp (h : ∀ s, P s → Q s) : {s : Stmt} → s.Everywhere P → s.Everywhere Q
  | .expr _, hs | .print _, hs | .var _ _, hs | .ret _ _, hs => h _ hs
  | .block _, hs | .function _ _ _, hs => ⟨h _ hs.1, Stmt.EverywhereAll.imp h hs.2⟩
  | .ifThen _ _, hs | .whileLoop _ _, hs => ⟨h _ hs.1, hs.2.imp h⟩
  | .ifElse _ _ _, hs => ⟨h _ hs.1, hs.2.1.imp h, hs.2.2.imp h⟩

theorem Stmt.EverywhereAll.imp (h : ∀ s, P s → Q s) :
    {ss : List Stmt} → Stmt.EverywhereAll P ss → Stmt.EverywhereAll Q ss
  | [], _ => trivial
  | _ :: _, hss => ⟨hss.1.imp h, Stmt.EverywhereAll.imp h hss.2⟩

end

mutual

theorem Stmt.Everywhere.and : {s : Stmt} → s.Everywhere P → s.Everywhere Q →
    s.Everywhere fun s => P s ∧ Q s
  | .expr _, h, h' | .print _, h, h' | .var _ _, h, h' | .ret _ _, h, h' => ⟨h, h'⟩
  | .block _, h, h' | .function _ _ _, h, h' =>
    ⟨⟨h.1, h'.1⟩, Stmt.EverywhereAll.and h.2 h'.2⟩
  | .ifThen _ _, h, h' | .whileLoop _ _, h, h' => ⟨⟨h.1, h'.1⟩, h.2.and h'.2⟩
  | .ifElse _ _ _, h, h' => ⟨⟨h.1, h'.1⟩, h.2.1.and h'.2.1, h.2.2.and h'.2.2⟩

theorem Stmt.EverywhereAll.and : {ss : List Stmt} → Stmt.EverywhereAll P ss →
    Stmt.EverywhereAll Q ss → Stmt.EverywhereAll (fun s => P s ∧ Q s) ss
  | [], _, _ => trivial
  | _ :: _, h, h' => ⟨h.1.and h'.1, Stmt.EverywhereAll.and h.2 h'.2⟩

end

/-- A `for` loop is made of its clauses, its body, a loop and blocks. -/
theorem Stmt.forLoop_everywhere {first : Option Stmt} {condition last : Option Expr} {body : Stmt}
    (hfirst : ∀ s ∈ first, s.Everywhere P) (hlast : ∀ e ∈ last, P (.expr e))
    (hblock : ∀ ss, P (.block ss))
    (hloop : ∀ round, P (.whileLoop (condition.getD (.literal (.bool true))) round))
    (hbody : body.Everywhere P) : (Stmt.forLoop first condition last body).Everywhere P := by
  unfold Stmt.forLoop
  cases last <;> cases first
  · exact ⟨hloop _, hbody⟩
  · exact ⟨hblock _, hfirst _ rfl, ⟨hloop _, hbody⟩, trivial⟩
  · exact ⟨hloop _, hblock _, hbody, hlast _ rfl, trivial⟩
  · exact ⟨hblock _, hfirst _ rfl, ⟨hloop _, hblock _, hbody, hlast _ rfl, trivial⟩, trivial⟩

end Statements

end Treewalk
