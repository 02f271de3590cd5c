import Treewalk.Proofs.Fuel
import Treewalk.Proofs.Decimal.Numeral
import Treewalk.Proofs.Grammar.Alone
import Treewalk.Proofs.Lexical.Respelling
import Treewalk.Proofs.Printing.Numbers
import Treewalk.Proofs.Session.Protocol

/-!
# Constants read back

The text of a value that is no callable is a constant of the language, or a minus sign before
one. It is cut into these lexemes again where a semicolon follows, they are an expression on
their own, and its value is the one that was written down. Only an exponent is no part of the
number before it; it starts like a name, and no expression goes on with a name.

Results:

* `readsAs_code`: the lexemes of the text of a value.
* `analyze_code`: this text and a semicolon are one expression, with the same value.
* `flaws_exponential`: with an exponent, they are a syntax error.
-/
namespace Treewalk

open Lexical Grammar

/-! ## Tokens of pieces -/

/-- The token is what the piece is scanned as, on one line or another. -/
def Piece.Spells (p : Piece) (t : Token) : Prop := p.token? = some (t.kind, t.lexeme, t.literal)

/-- The tokens of a program that is made of these pieces. -/
def tokensFrom (line : Nat) (ps : List Piece) : List Token :=
  programTokens ((readingsFrom line ps).filterMap fun r => r.toOption)

theorem tokensFrom_lexeme {p : Piece} {k : Kind} (hshape : p.shape = .lexeme k) (hk : k ≠ .eof)
    (ps : List Piece) (line : Nat) : tokensFrom line (p :: ps) =
      ⟨k, String.ofList p.text, literalOf k p.text, line + p.breaks⟩ ::
        tokensFrom (line + p.breaks) ps := by
  have hok (t : Token) : (Except.ok t : Reading).toOption = some t := rfl
  simp [tokensFrom, programTokens, readingsFrom, Piece.reading?, hshape, hok, hk]

/-- The tokens start with those of the first pieces. -/
theorem tokensFrom_append {ps : List Piece} (hps : ∀ p ∈ ps, Spelled p) (rest : List Piece)
    (line : Nat) : ∃ ts line', List.Forall₂ Piece.Spells ps ts ∧
      tokensFrom line (ps ++ rest) = ts ++ tokensFrom line' rest := by
  induction ps generalizing line with
  | nil => exact ⟨[], line, .nil, rfl⟩
  | cons p ps ih =>
    obtain ⟨⟨k, hshape, hlexeme⟩, hps⟩ := List.forall_mem_cons.mp hps
    obtain ⟨ts, line', hts, htokens⟩ := ih hps (line + p.breaks)
    let t : Token := ⟨k, String.ofList p.text, literalOf k p.text, line + p.breaks⟩
    refine ⟨t :: ts, line', .cons ?_ hts, ?_⟩
    · simp [Piece.Spells, Piece.token?, hshape, t]
    · rw [List.cons_append, tokensFrom_lexeme hshape hlexeme.kind_ne_eof, htokens,
        List.cons_append]

theorem tokens_split {source : String} {ps : List Piece} (h : Split source.toList ps) :
    programTokens (scan source).tokens = tokensFrom 1 ps := by
  rw [h.eq_pieces]
  rfl

theorem errors_split {source : String} {ps : List Piece} (hps : ∀ p ∈ ps, Spelled p)
    (h : Split source.toList ps) : (scan source).errors = [] := by
  rw [← List.map_eq_nil_iff (f := LexError.problem), scan_problems, ← h.eq_pieces,
    List.filterMap_eq_nil_iff]
  intro p hp
  obtain ⟨k, hshape, -⟩ := hps p hp
  simp [Piece.problem?, hshape]

/-! ## Pieces with a value -/

/-- The pieces are lexemes of an operand that has this value, on any machine. -/
structure ReadsAs (ps : List Piece) (v : Value) : Prop where
  spelled : ∀ p ∈ ps, Spelled p
  operand : ∀ ts, List.Forall₂ Piece.Spells ps ts → ∃ d : Phrase .unary, d.tokens = ts ∧
    d.Static ∧ ∃ fuel, ∀ cfg m, evaluate cfg fuel d.tree m = .ok v m

theorem exists_piece {k : Kind} {w : List Char} (h : Lexeme k w) :
    ∃ p : Piece, p.shape = .lexeme k ∧ p.text = w := by
  obtain ⟨c, cs, rfl⟩ := List.exists_cons_of_ne_nil h.ne_nil
  exact ⟨⟨.lexeme k, c, cs⟩, rfl, rfl⟩

/-- A constant is read as what it denotes. -/
theorem readsAs_constant {p : Piece} {k : Kind} (hshape : p.shape = .lexeme k)
    (hlexeme : Lexeme k p.text) (hk : isConstant k = true) {l : Literal}
    (hl : ∀ t : Token, t.kind = k → t.literal = literalOf k p.text → constant t = l) :
    ReadsAs [p] (.ofLiteral l) := by
  refine ⟨List.forall_mem_singleton.mpr ⟨k, hshape, hlexeme⟩, fun ts hts => ?_⟩
  obtain ⟨t, us, hspells, hnil, rfl⟩ := List.forall₂_cons_left_iff.mp hts
  obtain rfl := List.forall₂_nil_left_iff.mp hnil
  simp only [Piece.Spells, Piece.token?, hshape, Option.some.injEq, Prod.mk.injEq] at hspells
  obtain ⟨hkind, -, hliteral⟩ := hspells
  obtain rfl := hl t hkind.symm hliteral.symm
  have hconstant : isConstant t.kind = true := hkind ▸ hk
  refine ⟨operand ⟨t, hconstant⟩, tokens_operand _, static_operand _, 1, fun cfg m => ?_⟩
  rw [tree_operand]
  rfl

/-- The minus sign as a piece. -/
def minus : Piece := ⟨.lexeme .minus, '-', []⟩

/-- A minus sign before the lexemes of a number. -/
theorem ReadsAs.negated {ps : List Piece} {x : Float} (h : ReadsAs ps (.number x)) :
    ReadsAs (minus :: ps) (.number (-x)) := by
  have hminus : Spelled minus := ⟨.minus, rfl, .symbol (by decide)⟩
  refine ⟨List.forall_mem_cons.mpr ⟨hminus, h.spelled⟩, fun ts hts => ?_⟩
  obtain ⟨t, us, hspells, hus, rfl⟩ := List.forall₂_cons_left_iff.mp hts
  obtain ⟨d, rfl, hstatic, fuel, hvalue⟩ := h.operand us hus
  obtain ⟨kind, lexeme, literal, line⟩ := t
  obtain rfl : kind = .minus := (Prod.mk.inj (Option.some.inj hspells)).1.symm
  refine ⟨.signed ⟨⟨.minus, lexeme, literal, line⟩, rfl⟩ d, by rw [Phrase.tokens],
    by rwa [Phrase.Static], fuel + 1, fun cfg m => ?_⟩
  rw [Phrase.tree]
  show (evaluate cfg fuel d.tree >>= _) m = _
  rw [bind_of_ok (hvalue cfg m)]
  rfl

theorem split_negated {cs : List Char} {ps : List Piece} (h : Split cs ps) :
    Split ('-' :: cs) (minus :: ps) :=
  .cons (p := minus) (fits_only (by decide) (.inl (by decide)) (by decide)) h

/-! ## Programs of one operand -/

/-- The semicolon as a piece. -/
def semicolon : Piece := ⟨.lexeme .semicolon, ';', []⟩

theorem split_semicolon : Split [';'] [semicolon] :=
  .cons (p := semicolon) (fits_only (by decide) (.inl (by decide)) (by decide)) .nil

variable {source : String} {ps rest : List Piece} {v : Value}

/-- An operand and a semicolon are one expression, with the value of the operand. -/
theorem analyze_readsAs (h : ReadsAs ps v) (hsplit : Split source.toList (ps ++ [semicolon])) :
    ∃ e, Session.analyze source = ([], some [.expr e]) ∧
      ∃ fuel, ∀ cfg m, evaluate cfg fuel e m = .ok v m := by
  obtain ⟨ts, line, hts, htokens⟩ := tokensFrom_append h.spelled [semicolon] 1
  obtain ⟨d, rfl, hstatic, hvalue⟩ := h.operand ts hts
  have hspelled : ∀ p ∈ ps ++ [semicolon], Spelled p :=
    List.forall_mem_append.mpr ⟨h.spelled,
      List.forall_mem_singleton.mpr ⟨.semicolon, rfl, .symbol (by decide)⟩⟩
  rw [← tokens_split hsplit, tokensFrom_lexeme rfl (by decide)] at htokens
  refine ⟨d.tree, analyze_eq.mpr ⟨errors_split hspelled hsplit, ?_⟩, hvalue⟩
  exact parse_alone hstatic ⟨_, rfl⟩ htokens

/-- A name after an operand is a syntax error. -/
theorem flaws_interrupted (h : ReadsAs ps v) {q : Piece} (hq : q.shape = .lexeme .identifier)
    (hsplit : Split source.toList (ps ++ q :: rest)) : Session.flaws source ≠ [] := by
  intro hflaws
  obtain ⟨p, hp⟩ := Session.analyze_eq_of_flaws hflaws
  obtain ⟨ts, line, hts, htokens⟩ := tokensFrom_append h.spelled (q :: rest) 1
  obtain ⟨d, rfl, -⟩ := h.operand ts hts
  rw [← tokens_split hsplit, tokensFrom_lexeme hq (by decide)] at htokens
  exact parse_interrupted htokens (stops_cons.mpr rfl) (show Kind.identifier ≠ _ by decide) p
    (analyze_eq.mp hp).2

/-! ## The texts of values -/

/-- A numeral that stands before something else, perhaps after a minus sign. -/
theorem readsAs_numeral {w cs : List Char} (hw : Lexeme .number w) (negative : Prop)
    [Decidable negative] (hcs : ∀ c ∈ cs.head?, Piece.isDigit c = false ∧ c ≠ '.')
    (hrest : Split cs rest) :
    ∃ ps, ReadsAs ps (.number (if negative then -numeralValue w else numeralValue w)) ∧
      Split ((if negative then '-' :: w else w) ++ cs) (ps ++ rest) := by
  obtain ⟨p, hshape, rfl⟩ := exists_piece hw
  have hreads : ReadsAs [p] (.number (numeralValue p.text)) :=
    readsAs_constant (l := .number (numeralValue p.text)) hshape hw rfl fun t hkind hliteral => by
      rw [constant, hkind, hliteral]
      rfl
  have hsplit : Split (p.text ++ cs) (p :: rest) := .cons (hshape ▸ fits_before hw hcs) hrest
  by_cases h : negative
  · exact ⟨[minus, p], by simpa [h] using hreads.negated, by simpa [h] using split_negated hsplit⟩
  · exact ⟨[p], by simpa [h] using hreads, by simpa [h] using hsplit⟩

/-- The value is `nil`, a boolean, a string, or a finite number without an exponent. -/
def Value.Constant : Value → Prop
  | .nil | .bool _ | .string _ => True
  | .number x => IsFinite x ∧ 'e' ∉ (Value.number x).text.toList
  | .callable _ _ => False

/-- The value is a finite number with an exponent. -/
def Value.Exponential : Value → Prop
  | .number x => IsFinite x ∧ 'e' ∈ (Value.number x).text.toList
  | _ => False

/-- A keyword that is a constant. -/
theorem readsAs_keyword (c : Char) (cs : List Char) (k : Kind) (hc : Piece.startsWord c = true)
    (hword : Piece.wordKind (c :: (cs ++ [';']).take (Piece.run Piece.inWord (cs ++ [';']))) = k)
    (hlength : Piece.run Piece.inWord (cs ++ [';']) = cs.length) (hk : isConstant k = true)
    {l : Literal} (hl : ∀ t : Token, t.kind = k → constant t = l) :
    ∃ ps, ReadsAs ps (.ofLiteral l) ∧ Split (c :: cs ++ [';']) (ps ++ [semicolon]) := by
  have hfits := fits_word hc (cs ++ [';'])
  rw [hword, hlength, List.take_left, List.drop_left] at hfits
  refine ⟨[⟨.lexeme k, c, cs⟩], readsAs_constant rfl ?_ hk fun t ht _ => hl t ht,
    .cons (p := ⟨.lexeme k, c, cs⟩) hfits split_semicolon⟩
  cases hfits with
  | lexeme hopen hlexeme longest => exact hlexeme

theorem readsAs_string {s : String} (h : '"' ∉ s.toList) : ∃ ps, ReadsAs ps (.string s) ∧
    Split ((Value.string s).code.toList ++ [';']) (ps ++ [semicolon]) := by
  let p : Piece := ⟨.lexeme .string, '"', s.toList ++ ['"']⟩
  have hreads : ReadsAs [p] (.ofLiteral (.string s)) := by
    refine readsAs_constant rfl (.string h) rfl fun t hkind hliteral => ?_
    rw [constant, hkind, hliteral]
    simp [literalOf, Piece.text, p]
  have hsplit : Split (p.text ++ [';']) ([p] ++ [semicolon]) :=
    .cons (p := p) (fits_string h) split_semicolon
  refine ⟨[p], hreads, ?_⟩
  simpa [Value.code, Piece.text, p] using hsplit

/-- The text of a finite number is a minus sign, or none, before what it is without a sign. -/
theorem toList_code {x : Float} (h : IsFinite x) : (Value.number x).code.toList =
    if ¬ x.toBits >>> 63 = 0 then '-' :: magnitude x else magnitude x := by
  rw [ite_not]
  exact text_finite h

theorem exponent_mem_iff {x : Float} (h : IsFinite x) :
    'e' ∈ (Value.number x).text.toList ↔ 'e' ∈ magnitude x := by
  rw [text_finite h]
  split <;> simp

/-- The lexemes of the text of a value, before a semicolon. -/
theorem readsAs_code (h : v.Constant) (hquote : v.Unquoted) :
    ∃ ps, ReadsAs ps v ∧ Split (v.code.toList ++ [';']) (ps ++ [semicolon]) := by
  cases v with
  | nil =>
    exact readsAs_keyword 'n' ['i', 'l'] .nilKw (l := .nil) (by decide) rfl rfl rfl
      fun t ht => by rw [constant, ht]
  | bool b =>
    cases b with
    | true =>
      exact readsAs_keyword 't' ['r', 'u', 'e'] .trueKw (l := .bool true) (by decide) rfl rfl rfl
        fun t ht => by rw [constant, ht]
    | false =>
      exact readsAs_keyword 'f' ['a', 'l', 's', 'e'] .falseKw (l := .bool false) (by decide) rfl
        rfl rfl fun t ht => by rw [constant, ht]
  | string s => exact readsAs_string hquote
  | callable id c => exact h.elim
  | number x =>
    obtain ⟨hfinite, hexponent⟩ := h
    rw [exponent_mem_iff hfinite] at hexponent
    have hnumeral : Lexeme .number (magnitude x) := by
      obtain hnumeral | ⟨w, exponent, -, heq⟩ := spelled_magnitude x
      · exact hnumeral
      · exact absurd (by simp [heq]) hexponent
    have hpoint : ∀ point, Value.layout.positional point = true → -5 ≤ point ∧ point ≤ 20 := by
      intro point hpoint
      simp only [Value.layout, Bool.and_eq_true, decide_eq_true_eq] at hpoint
      omega
    have hvalue := Decimal.numeralValue_digits hexponent hpoint
    rw [← ite_not] at hvalue
    have hend : ∀ c ∈ [';'].head?, Piece.isDigit c = false ∧ c ≠ '.' := by
      rintro c ⟨⟩
      decide
    obtain ⟨ps, hreads, hsplit⟩ := readsAs_numeral hnumeral (¬ x.toBits >>> 63 = 0) hend
      split_semicolon
    refine ⟨ps, hvalue ▸ hreads, ?_⟩
    rwa [toList_code hfinite]

/-! ## Exponents -/

/-- No keyword is an `e` and something that does not start like `else`. -/
theorem wordKind_exponent {cs : List Char} (h : ∀ c ∈ cs.head?, c ≠ 'l') :
    Piece.wordKind ('e' :: cs) = .identifier := by
  have hkeywords : ∀ s ∈ keywords, s.1.head? = some 'e' → s.1.tail.head? = some 'l' := by decide
  obtain hname | hkeyword := wordKind_cases ('e' :: cs)
  · exact hname
  · exact absurd rfl (h 'l' (hkeywords _ hkeyword rfl))

/-- An exponent starts like a name. -/
theorem split_exponent (exponent : Int) (cs : List Char) : ∃ q rest, q.shape = .lexeme .identifier ∧
    Split ('e' :: ((toString exponent).toList ++ ';' :: cs)) (q :: rest) := by
  generalize hus : (toString exponent).toList ++ ';' :: cs = us
  have hhead : ∀ c ∈ us.head?, c ≠ 'l' := by
    obtain ⟨ds, hds, hi⟩ := toList_intText exponent
    rintro c hc rfl
    obtain hi | hi := hi
    · rw [← hus, hi] at hc
      cases ds with
      | nil => cases hc
      | cons d ds =>
        cases hc
        exact absurd (hds 'l' (.head _)) (by decide)
    · rw [← hus, hi] at hc
      cases hc
  have hkind : Piece.wordKind ('e' :: us.take (Piece.run Piece.inWord us)) = .identifier := by
    refine wordKind_exponent fun c hc => hhead c ?_
    rw [List.head?_take] at hc
    split at hc
    · cases hc
    · exact hc
  refine ⟨_, _, ?_, pieces_cons 'e' us ▸ split_pieces ('e' :: us)⟩
  exact congrArg Shape.lexeme hkind

/-- The text of a finite number with an exponent cannot be read. -/
theorem flaws_exponential (hv : v.Exponential) : Session.flaws (v.code ++ ";") ≠ [] := by
  obtain ⟨x, rfl, h, he⟩ : ∃ x, v = .number x ∧ IsFinite x ∧ 'e' ∈ v.text.toList := by
    cases v with
    | number x => exact ⟨x, rfl, hv⟩
    | _ => exact hv.elim
  rw [exponent_mem_iff h] at he
  obtain hnumeral | ⟨w, exponent, hw, heq⟩ := spelled_magnitude x
  · obtain hdigit | hpoint := number_chars hnumeral _ he
    · cases hdigit
    · cases hpoint
  · obtain ⟨q, rest, hq, hrest⟩ := split_exponent exponent []
    have hend : ∀ c ∈ ('e' :: ((toString exponent).toList ++ [';'])).head?,
        Piece.isDigit c = false ∧ c ≠ '.' := by
      rintro c ⟨⟩
      decide
    obtain ⟨ps, hreads, hsplit⟩ := readsAs_numeral hw (¬ x.toBits >>> 63 = 0) hend hrest
    have htext : ((Value.number x).code ++ ";").toList =
        (if ¬ x.toBits >>> 63 = 0 then '-' :: w else w) ++
          'e' :: ((toString exponent).toList ++ [';']) := by
      rw [String.toList_append, toList_code h, heq]
      split <;> simp
    exact flaws_interrupted hreads hq (htext ▸ hsplit)

/-- A constant and a semicolon are one expression, with the value that was written down. -/
theorem analyze_code (h : v.Constant) (hquote : v.Unquoted) : ∃ e,
    Session.analyze (v.code ++ ";") = ([], some [.expr e]) ∧
      ∃ fuel, ∀ cfg m, evaluate cfg fuel e m = .ok v m := by
  obtain ⟨ps, hreads, hsplit⟩ := readsAs_code h hquote
  exact analyze_readsAs hreads (by rwa [String.toList_append])

end Treewalk
