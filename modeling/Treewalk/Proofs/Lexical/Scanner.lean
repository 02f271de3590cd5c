import Treewalk.Proofs.Lexical.LineBreak

/-!
# Scanning character by character

A scanner holds the characters ahead and the line it is on. It takes one character after the
other and adds up lines as it passes the line breaks: between lexemes, inside block comments and
inside strings. It never looks further ahead than two characters.

So a token or an error gets the line the scanner is on when it is made, while `readingsFrom` adds
up the line breaks of whole pieces. Both ways give the same readings.

Results:

* `skipTrivia_of_blank`, `skipTrivia_lineComment`, `skipTrivia_blockComment`: what is skipped
  is one piece after the other.
* `reads_extent`: what is read where no comment starts is the next piece.
* `scanFrom_eq`, `scanCharacters_eq`: the readings of a scanner are those of the pieces ahead.
-/
namespace Treewalk

namespace Lexical

open Piece

/-! ## The scanner -/

/-- A place in a source text. -/
structure Scanner where
  ahead : List Char
  line : Nat

/-- How scanning a part of the text has ended. -/
abbrev Scanner.End (α : Type) := EStateM.Result LexError Scanner α

/-- Skip the body of a block comment up to and including the first star and slash. -/
def skipBlockComment : Nat → List Char → Scanner.End Unit
  | line, [] => .error ⟨line, .unterminatedComment⟩ ⟨[], line⟩
  | line, '*' :: '/' :: cs => .ok () ⟨cs, line⟩
  | line, '\n' :: cs => skipBlockComment (line + 1) cs
  | line, _ :: cs => skipBlockComment line cs

theorem skipBlockComment_length {line : Nat} {cs : List Char} {s : Scanner}
    (h : skipBlockComment line cs = .ok () s) : s.ahead.length ≤ cs.length := by
  fun_induction skipBlockComment line cs with
  | case1 => cases h
  | case2 line cs =>
    cases h
    simp only [List.length_cons]
    omega
  | case3 line cs ih | case4 line c cs _ _ ih => exact Nat.le_succ_of_le (ih h)

/-- Skip blanks and comments. -/
def skipTrivia : Nat → List Char → Scanner.End Unit
  | line, ' ' :: cs => skipTrivia line cs
  | line, '\r' :: cs => skipTrivia line cs
  | line, '\t' :: cs => skipTrivia line cs
  | line, '\n' :: cs => skipTrivia (line + 1) cs
  | line, '/' :: '/' :: cs =>
    have := (List.dropWhile_suffix (l := cs) (· ≠ '\n')).length_le
    skipTrivia line (cs.dropWhile (· ≠ '\n'))
  | line, '/' :: '*' :: cs =>
    match h : skipBlockComment line cs with
    | .ok () s =>
      have := skipBlockComment_length h
      skipTrivia s.line s.ahead
    | .error e s => .error e s
  | line, cs => .ok () ⟨cs, line⟩
termination_by _ cs => cs.length
decreasing_by all_goals simp only [List.length_cons]; omega

/-- Read a string up to its closing quote, after the characters of `lexeme`. -/
def readString : List Char → Nat → List Char → Scanner.End Token
  | _, line, [] => .error ⟨line, .unterminatedString⟩ ⟨[], line⟩
  | lexeme, line, '"' :: cs =>
    let lexeme := lexeme ++ ['"']
    -- The value stands between the quotes.
    let value := String.ofList (lexeme.drop 1).dropLast
    .ok ⟨.string, String.ofList lexeme, some (.string value), line⟩ ⟨cs, line⟩
  | lexeme, line, '\n' :: cs => readString (lexeme ++ ['\n']) (line + 1) cs
  | lexeme, line, c :: cs => readString (lexeme ++ [c]) line cs

/-- Read the digits that follow the first one, and a fraction if there is one. -/
def readNumber (first : Char) (line : Nat) (cs : List Char) : Scanner.End Token :=
  let number (lexeme cs : List Char) : Scanner.End Token :=
    .ok ⟨.number, String.ofList lexeme, some (.number (numeralValue lexeme)), line⟩ ⟨cs, line⟩
  let whole := first :: cs.takeWhile isDigit
  match cs.dropWhile isDigit with
  | '.' :: d :: ds =>
    if isDigit d then
      number (whole ++ '.' :: (d :: ds).takeWhile isDigit) ((d :: ds).dropWhile isDigit)
    else number whole ('.' :: d :: ds)
  | cs => number whole cs

def readWord (first : Char) (line : Nat) (cs : List Char) : Scanner.End Token :=
  let word := first :: cs.takeWhile inWord
  .ok ⟨wordKind word, String.ofList word, none, line⟩ ⟨cs.dropWhile inWord, line⟩

/-- A token of one character. -/
def single (kind : Kind) (line : Nat) (c : Char) (cs : List Char) : Scanner.End Token :=
  .ok ⟨kind, String.ofList [c], none, line⟩ ⟨cs, line⟩

/-- A token that an equals sign after it makes another one. -/
def double (one two : Kind) (line : Nat) (c : Char) : List Char → Scanner.End Token
  | '=' :: cs => .ok ⟨two, String.ofList [c, '='], none, line⟩ ⟨cs, line⟩
  | cs => single one line c cs

/-- Read the token that starts with `c`. -/
def readToken (line : Nat) (c : Char) (cs : List Char) : Scanner.End Token :=
  match c with
  | '(' => single .leftParen line c cs
  | ')' => single .rightParen line c cs
  | '{' => single .leftBrace line c cs
  | '}' => single .rightBrace line c cs
  | ',' => single .comma line c cs
  | '.' => single .dot line c cs
  | '-' => single .minus line c cs
  | '+' => single .plus line c cs
  | ';' => single .semicolon line c cs
  | '/' => single .slash line c cs
  | '*' => single .star line c cs
  | '?' => single .question line c cs
  | ':' => single .colon line c cs
  | '!' => double .bang .bangEqual line c cs
  | '=' => double .equal .equalEqual line c cs
  | '<' => double .less .lessEqual line c cs
  | '>' => double .greater .greaterEqual line c cs
  | '"' => readString [c] line cs
  | c =>
    if isDigit c then readNumber c line cs
    else if startsWord c then readWord c line cs
    else .error ⟨line, .unexpectedCharacter c⟩ ⟨cs, line⟩

/-- Read the next token, the end token at the end. -/
def nextToken (s : Scanner) : Scanner.End Token :=
  match skipTrivia s.line s.ahead with
  | .error e s => .error e s
  | .ok () s =>
    match s.ahead with
    | [] => .ok (Token.eof s.line) s
    | c :: cs => readToken s.line c cs

/-! ## Trivia -/

variable {line n : Nat} {c : Char} {cs : List Char}

theorem drop_run (p : Char → Bool) (cs : List Char) : cs.drop (run p cs) = cs.dropWhile p := by
  induction cs with
  | nil => rfl
  | cons c cs ih =>
    cases hc : p c with
    | true => simpa [run, hc] using ih
    | false => simp [run, hc]

theorem take_run (p : Char → Bool) (cs : List Char) : cs.take (run p cs) = cs.takeWhile p :=
  (List.prefix_iff_eq_take.mp (List.takeWhile_prefix p)).symm

/-- Line breaks are added up one character after the other. -/
theorem count_step (line : Nat) (c : Char) (cs : List Char) :
    line + [c].count '\n' + cs.count '\n' = line + (c :: cs).count '\n' := by
  rw [Nat.add_assoc, ← List.count_append]
  rfl

/-- A character that does not end the comment. -/
theorem skipBlockComment_cons (h : ∀ ds, c = '*' → cs = '/' :: ds → False) :
    skipBlockComment line (c :: cs) = skipBlockComment (line + [c].count '\n') cs := by
  by_cases hc : c = '\n'
  · subst hc
    rw [skipBlockComment]
    rfl
  · rw [skipBlockComment.eq_4 _ _ _ h hc, List.count_singleton, if_neg (by simpa using hc),
      Nat.add_zero]

theorem skipBlockComment_of_some (h : commentEnd? cs = some n) :
    skipBlockComment line cs = .ok () ⟨cs.drop n, line + (cs.take n).count '\n'⟩ := by
  fun_induction commentEnd? cs generalizing line n with
  | case1 => cases h
  | case2 cs =>
    cases h
    rfl
  | case3 c cs hend ih =>
    obtain ⟨m, hm, rfl⟩ := Option.map_eq_some_iff.mp h
    rw [skipBlockComment_cons hend, ih hm, count_step, List.drop_succ_cons, List.take_succ_cons]

theorem skipBlockComment_of_none (h : commentEnd? cs = none) :
    skipBlockComment line cs = .error ⟨line + cs.count '\n', .unterminatedComment⟩
      ⟨[], line + cs.count '\n'⟩ := by
  fun_induction commentEnd? cs generalizing line with
  | case1 => rfl
  | case2 => cases h
  | case3 c cs hend ih =>
    rw [skipBlockComment_cons hend, ih (Option.map_eq_none_iff.mp h), count_step]

theorem skipTrivia_of_blank (h : isBlank c = true) :
    skipTrivia line (c :: cs) = skipTrivia (line + [c].count '\n') cs := by
  simp only [isBlank, Bool.or_eq_true, decide_eq_true_eq, or_assoc] at h
  obtain rfl | rfl | rfl | rfl := h <;> (rw [skipTrivia]; rfl)

theorem skipTrivia_lineComment (line : Nat) (cs : List Char) :
    skipTrivia line ('/' :: '/' :: cs) = skipTrivia line (cs.dropWhile (· ≠ '\n')) := by
  rw [skipTrivia]

theorem skipTrivia_blockComment (h : commentEnd? cs = some n) :
    skipTrivia line ('/' :: '*' :: cs) =
      skipTrivia (line + (cs.take n).count '\n') (cs.drop n) := by
  rw [skipTrivia]
  split
  · rename_i s hs
    cases hs.symm.trans (skipBlockComment_of_some h)
    rfl
  · rename_i e s hs
    cases hs.symm.trans (skipBlockComment_of_some h)

theorem skipTrivia_unterminated (h : commentEnd? cs = none) :
    skipTrivia line ('/' :: '*' :: cs) =
      .error ⟨line + cs.count '\n', .unterminatedComment⟩ ⟨[], line + cs.count '\n'⟩ := by
  rw [skipTrivia]
  split
  · rename_i s hs
    cases hs.symm.trans (skipBlockComment_of_none h)
  · rename_i e s hs
    cases hs.symm.trans (skipBlockComment_of_none h)
    rfl

/-- Nothing is skipped where neither a blank nor a comment starts. -/
theorem skipTrivia_stops (hb : isBlank c = false) (hopen : ¬ OpensComment (c :: cs)) :
    skipTrivia line (c :: cs) = .ok () ⟨c :: cs, line⟩ := by
  rw [skipTrivia]
  case x_2 | x_3 | x_4 | x_5 => rintro ds ⟨⟩; cases hb
  all_goals rintro ds ⟨⟩; simp [OpensComment] at hopen

/-! ## Progress -/

/-- Not more than `n` characters are left, and less after an error. -/
def Leaves (n : Nat) {α : Type} : Scanner.End α → Prop
  | .ok _ s => s.ahead.length ≤ n
  | .error _ s => s.ahead.length < n

theorem Leaves.mono {m : Nat} {α : Type} {r : Scanner.End α} (h : Leaves n r) (hle : n ≤ m) :
    Leaves m r := by
  cases r <;> simp only [Leaves] at h ⊢ <;> omega

theorem skipBlockComment_leaves (line : Nat) (cs : List Char) :
    Leaves (cs.length + 1) (skipBlockComment line cs) := by
  fun_induction skipBlockComment line cs with
  | case1 | case2 => simp [Leaves]; try omega
  | case3 line cs ih | case4 line c cs _ _ ih => exact ih.mono (Nat.le_succ _)

theorem skipTrivia_leaves (line : Nat) (cs : List Char) :
    Leaves cs.length (skipTrivia line cs) := by
  fun_induction skipTrivia line cs with
  | case1 line cs ih | case2 line cs ih | case3 line cs ih | case4 line cs ih =>
    exact ih.mono (Nat.le_succ _)
  | case5 line cs hle ih => exact ih.mono (by simp only [List.length_cons]; omega)
  | case6 line cs s _ hle ih => exact ih.mono (by simp only [List.length_cons]; omega)
  | case7 line cs e s h =>
    have hleaves := skipBlockComment_leaves line cs
    rw [h] at hleaves
    exact hleaves.mono (Nat.le_succ _)
  | case8 line cs => exact Nat.le_refl _

theorem readString_length (lexeme : List Char) (line : Nat) (cs : List Char) :
    (after (readString lexeme line cs)).ahead.length ≤ cs.length := by
  fun_induction readString lexeme line cs with
  | case1 => exact Nat.le_refl _
  | case2 => exact Nat.le_succ _
  | case3 _ line cs ih | case4 _ line c cs _ _ ih => exact Nat.le_succ_of_le ih

theorem dropWhile_length (p : Char → Bool) (cs : List Char) :
    (cs.dropWhile p).length ≤ cs.length := (List.dropWhile_suffix p).length_le

theorem readNumber_length (first : Char) (line : Nat) (cs : List Char) :
    (after (readNumber first line cs)).ahead.length ≤ cs.length := by
  have hdigits := dropWhile_length isDigit cs
  unfold readNumber
  dsimp only
  split
  · rename_i d ds hrest
    have hmore := dropWhile_length isDigit (d :: ds)
    rw [hrest, List.length_cons] at hdigits
    split
    · exact Nat.le_trans hmore (Nat.le_of_succ_le hdigits)
    · exact hdigits
  · exact hdigits

theorem readToken_length (line : Nat) (c : Char) (cs : List Char) :
    (after (readToken line c cs)).ahead.length ≤ cs.length := by
  unfold readToken
  split
  case h_18 => exact readString_length _ _ _
  case h_19 =>
    split
    · exact readNumber_length _ _ _
    · split
      · exact dropWhile_length _ _
      · exact Nat.le_refl _
  case h_14 | h_15 | h_16 | h_17 => unfold double; split <;> simp [single, after]
  all_goals exact Nat.le_refl _

/-- A token before the end and an error both take at least one character. -/
theorem nextToken_length (s : Scanner) :
    match nextToken s with
    | .ok t s' => t.kind ≠ .eof → s'.ahead.length < s.ahead.length
    | .error _ s' => s'.ahead.length < s.ahead.length := by
  have htrivia := skipTrivia_leaves s.line s.ahead
  unfold nextToken
  cases hs : skipTrivia s.line s.ahead with
  | error e s₁ =>
    rw [hs] at htrivia
    exact htrivia
  | ok _ s₁ =>
    rw [hs] at htrivia
    dsimp only
    cases hahead : s₁.ahead with
    | nil => exact fun h => absurd rfl h
    | cons c cs =>
      have hle : (c :: cs).length ≤ s.ahead.length := hahead ▸ htrivia
      have hlength := readToken_length s₁.line c cs
      dsimp only
      generalize readToken s₁.line c cs = r at hlength ⊢
      cases r with
      | ok t s' => exact fun _ => Nat.lt_of_lt_of_le (Nat.lt_succ_of_le hlength) hle
      | error e s' => exact Nat.lt_of_lt_of_le (Nat.lt_succ_of_le hlength) hle

/-- All readings from a place on, up to the end token. -/
def scanFrom (s : Scanner) : List Reading :=
  match h : nextToken s with
  | .ok t s' =>
    if heof : t.kind = .eof then [.ok t]
    else
      have : s'.ahead.length < s.ahead.length := by
        have hlength := nextToken_length s
        rw [h] at hlength
        exact hlength heof
      .ok t :: scanFrom s'
  | .error e s' =>
    have : s'.ahead.length < s.ahead.length := by
      have hlength := nextToken_length s
      rw [h] at hlength
      exact hlength
    .error e :: scanFrom s'
termination_by s.ahead.length

/-! ## Pieces -/

/-- The piece that starts with `c`. -/
def piece (c : Char) (cs : List Char) : Piece :=
  ⟨(extent c cs).1, c, cs.take (extent c cs).2⟩

/-- Where the scanner is after that piece. -/
def past (line : Nat) (c : Char) (cs : List Char) : Scanner :=
  ⟨cs.drop (extent c cs).2, line + (piece c cs).breaks⟩

/-- How the reading of a piece ends. -/
def made (s : Scanner) : Reading → Scanner.End Token
  | .ok t => .ok t s
  | .error e => .error e s

theorem readString_cons {lexeme : List Char} (h : c ≠ '"') :
    readString lexeme line (c :: cs) =
      readString (lexeme ++ [c]) (line + [c].count '\n') cs := by
  by_cases hc : c = '\n'
  · subst hc
    rw [readString]
    rfl
  · rw [readString.eq_4 _ _ _ _ h hc, List.count_singleton, if_neg (by simpa using hc),
      Nat.add_zero]

/-- A string up to its closing quote. -/
theorem readString_closed {lexeme body rest : List Char} (h : '"' ∉ body) :
    readString lexeme line (body ++ '"' :: rest) =
      let text := lexeme ++ (body ++ ['"'])
      let line := line + body.count '\n'
      .ok ⟨.string, String.ofList text, some (.string (String.ofList (text.drop 1).dropLast)), line⟩
        ⟨rest, line⟩ := by
  induction body generalizing lexeme line with
  | nil => rfl
  | cons c body ih =>
    obtain ⟨hc, hbody⟩ := not_or.mp (mt List.mem_cons.mpr h)
    rw [List.cons_append, readString_cons (Ne.symm hc), ih hbody, count_step, List.append_assoc,
      List.singleton_append, List.cons_append]

theorem readString_open {lexeme body : List Char} (h : '"' ∉ body) :
    readString lexeme line body =
      let line := line + body.count '\n'
      .error ⟨line, .unterminatedString⟩ ⟨[], line⟩ := by
  induction body generalizing lexeme line with
  | nil => rfl
  | cons c body ih =>
    obtain ⟨hc, hbody⟩ := not_or.mp (mt List.mem_cons.mpr h)
    rw [readString_cons (Ne.symm hc), ih hbody, count_step]

theorem readNumber_eq (first : Char) (line : Nat) (cs : List Char) :
    let text := first :: cs.take (numeral cs)
    readNumber first line cs =
      .ok ⟨.number, String.ofList text, some (.number (numeralValue text)), line⟩
        ⟨cs.drop (numeral cs), line⟩ := by
  have htake : cs.take (numeral cs) =
      cs.takeWhile isDigit ++ (cs.dropWhile isDigit).take (fraction (cs.dropWhile isDigit)) := by
    rw [numeral, List.take_add, take_run, drop_run]
  have hdrop : cs.drop (numeral cs) =
      (cs.dropWhile isDigit).drop (fraction (cs.dropWhile isDigit)) := by
    rw [numeral, ← List.drop_drop, drop_run]
  unfold readNumber
  dsimp only
  rw [htake, hdrop]
  generalize cs.dropWhile isDigit = rest
  split
  · rename_i d ds
    by_cases hd : isDigit d = true
    · simp only [fraction, hd, if_true, Nat.add_comm 2, List.take_succ_cons, List.drop_succ_cons,
        take_run, drop_run, List.takeWhile_cons_of_pos, List.dropWhile_cons_of_pos, List.cons_append]
    · simp [fraction, hd]
  · rename_i hnot
    have hzero : fraction rest = 0 := by
      unfold fraction
      split
      · exact absurd rfl (hnot _ _)
      · rfl
    simp [hzero]

/-- Lexemes other than strings hold no line breaks. -/
theorem Lexeme.no_break {k : Kind} {w : List Char} (h : Lexeme k w) (hk : k ≠ .string) :
    w.count '\n' = 0 := by
  refine List.count_eq_zero.mpr fun hmem => ?_
  cases h with
  | symbol h => exact (show ∀ s ∈ symbols, '\n' ∉ s.1 by decide) _ h hmem
  | word hc hcs =>
    obtain rfl | hmem := List.mem_cons.mp hmem
    · cases hc
    · cases hcs _ hmem
  | whole _ h => cases h _ hmem
  | decimal _ h _ h' =>
    obtain hmem | hmem := List.mem_append.mp hmem
    · cases h _ hmem
    · obtain hmem | hmem := List.mem_cons.mp hmem
      · cases hmem
      · cases h' _ hmem
  | string => exact hk rfl

/-- What is read from `c` on is the piece of that shape and length. -/
def Reads (line : Nat) (c : Char) (cs : List Char) (found : Shape × Nat) : Prop :=
  let p : Piece := ⟨found.1, c, cs.take found.2⟩
  let s : Scanner := ⟨cs.drop found.2, line + p.breaks⟩
  ∃ r, p.reading? s.line = some r ∧ readToken line c cs = made s r

/-- A lexeme on one line. -/
theorem reads_lexeme {k : Kind} (h : Lexeme k (c :: cs.take n)) (hk : k ≠ .string)
    (hread : readToken line c cs = .ok ⟨k, String.ofList (c :: cs.take n),
      literalOf k (c :: cs.take n), line⟩ ⟨cs.drop n, line⟩) : Reads line c cs (.lexeme k, n) := by
  refine ⟨_, rfl, ?_⟩
  dsimp only [Piece.breaks, Piece.text]
  rw [hread, h.no_break hk]
  rfl

theorem reads_quote (line : Nat) (cs : List Char) : Reads line '"' cs (afterQuote cs) := by
  unfold afterQuote
  split
  · rename_i i hi
    obtain ⟨body, rest, rfl, hbody, rfl⟩ := findIdx_quote hi
    have htake : (body ++ '"' :: rest).take (body.length + 1) = body ++ ['"'] := by
      rw [← List.singleton_append, ← List.append_assoc, List.take_left' (by simp)]
    have hdrop : (body ++ '"' :: rest).drop (body.length + 1) = rest := by
      rw [← List.singleton_append, ← List.append_assoc, List.drop_left' (by simp)]
    refine ⟨_, rfl, ?_⟩
    dsimp only [Piece.breaks, Piece.text]
    rw [htake, hdrop, show readToken line '"' _ = readString ['"'] line _ from rfl,
      readString_closed hbody]
    have hcount : ('"' :: (body ++ ['"'])).count '\n' = body.count '\n' := by simp
    rw [hcount]
    rfl
  · rename_i hnone
    have hbody : '"' ∉ cs := fun hmem => by simpa using List.findIdx?_eq_none_iff.mp hnone _ hmem
    refine ⟨_, rfl, ?_⟩
    dsimp only [Piece.breaks, Piece.text]
    rw [List.take_length, List.drop_length,
      show readToken line '"' _ = readString ['"'] line _ from rfl, readString_open hbody]
    have hcount : ('"' :: cs).count '\n' = cs.count '\n' := by simp
    rw [hcount]
    rfl

theorem reads_double {one two : Kind} (hone : ∀ w, literalOf one w = none)
    (htwo : ∀ w, literalOf two w = none) (hc : c ≠ '\n')
    (hread : readToken line c cs = double one two line c cs) :
    Reads line c cs (withEqual one two cs) := by
  unfold withEqual
  split
  · refine ⟨_, rfl, hread.trans ?_⟩
    have hcount : [c, '='].count '\n' = 0 := List.count_eq_zero.mpr (by simpa using Ne.symm hc)
    dsimp only [Piece.breaks, Piece.text, double, List.take_succ_cons, List.take_zero]
    rw [hcount, htwo]
    rfl
  · rename_i hne
    refine ⟨_, rfl, hread.trans ?_⟩
    have hcount : [c].count '\n' = 0 := List.count_eq_zero.mpr (by simpa using Ne.symm hc)
    dsimp only [Piece.breaks, Piece.text, List.take_zero]
    rw [hcount, hone, double.eq_2 _ _ _ _ _ hne]
    rfl

/-- Keywords and identifiers have no value. -/
theorem literalOf_word (word cs : List Char) : literalOf (wordKind word) cs = none := by
  have hnumber : wordKind word ≠ .number := wordKind_ne (by decide) (by decide) word
  have hstring : wordKind word ≠ .string := wordKind_ne (by decide) (by decide) word
  unfold literalOf
  split <;> first | contradiction | rfl

theorem reads_extent (line : Nat) (hb : isBlank c = false) (hopen : ¬ OpensComment (c :: cs)) :
    Reads line c cs (extent c cs) := by
  unfold extent
  split
  case h_1 | h_2 | h_3 | h_4 => cases hb
  case h_17 | h_18 | h_19 | h_20 =>
    exact reads_double (fun _ => rfl) (fun _ => rfl) (by decide) rfl
  case h_21 =>
    unfold afterSlash
    split
    · exact absurd (.inl ⟨_, rfl⟩) hopen
    · exact absurd (.inr ⟨_, rfl⟩) hopen
    · exact ⟨_, rfl, rfl⟩
  case h_22 => exact reads_quote line cs
  case h_23 =>
    have hread : readToken line c cs = if isDigit c then readNumber c line cs
        else if startsWord c then readWord c line cs
        else .error ⟨line, .unexpectedCharacter c⟩ ⟨cs, line⟩ := by
      apply readToken.eq_19 <;> assumption
    by_cases hd : isDigit c = true
    · rw [if_pos hd] at hread ⊢
      exact reads_lexeme (lexeme_numeral hd cs) (by decide) (hread.trans (readNumber_eq c line cs))
    · by_cases hw : startsWord c = true
      · rw [if_neg hd, if_pos hw] at hread ⊢
        have htake := take_run inWord cs
        refine reads_lexeme (.word hw (run_take cs)) (wordKind_ne (by decide) (by decide) _) ?_
        rw [hread, readWord, literalOf_word, htake, drop_run]
      · rw [if_neg hd, if_neg hw] at hread ⊢
        refine ⟨_, rfl, hread.trans ?_⟩
        have hc : c ≠ '\n' := by
          rintro rfl
          cases hb
        have hcount : [c].count '\n' = 0 := List.count_eq_zero.mpr (by simpa using Ne.symm hc)
        dsimp only [Piece.breaks, Piece.text, List.take_zero]
        rw [hcount]
        rfl
  all_goals exact ⟨_, rfl, rfl⟩

/-! ## Texts -/

/-- The end token is the last reading. -/
def isEnd : Reading → Bool
  | .ok t => t.kind = .eof
  | .error _ => false

theorem scanFrom_made {s s' : Scanner} {r : Reading} (h : nextToken s = made s' r) :
    scanFrom s = if isEnd r then [r] else r :: scanFrom s' := by
  rw [scanFrom]
  split
  · rename_i t s'' h'
    cases r with
    | ok u =>
      cases h'.symm.trans h
      by_cases ht : t.kind = .eof <;> simp [isEnd, ht]
    | error e => cases h'.symm.trans h
  · rename_i e s'' h'
    cases r with
    | ok t => cases h'.symm.trans h
    | error e =>
      cases h'.symm.trans h
      rfl

theorem nextToken_made (s : Scanner) : ∃ r s', nextToken s = made s' r := by
  cases nextToken s with
  | ok t s' => exact ⟨.ok t, s', rfl⟩
  | error e s' => exact ⟨.error e, s', rfl⟩

/-- What is skipped makes no difference. -/
theorem scanFrom_skips {s : Scanner} (h : skipTrivia line (c :: cs) = skipTrivia s.line s.ahead) :
    scanFrom ⟨c :: cs, line⟩ = scanFrom s := by
  obtain ⟨r, s', hs⟩ := nextToken_made s
  have hnext : nextToken ⟨c :: cs, line⟩ = made s' r := by
    rw [← hs, nextToken, nextToken, h]
  rw [scanFrom_made hnext, scanFrom_made hs]

theorem readingsFrom_skipped {p : Piece} {ps : List Piece}
    (h : p.reading? (line + p.breaks) = none) :
    readingsFrom line (p :: ps) = readingsFrom (line + p.breaks) ps := by
  rw [readingsFrom, h]

theorem readingsFrom_read {p : Piece} {ps : List Piece} {r : Reading}
    (h : p.reading? (line + p.breaks) = some r) :
    readingsFrom line (p :: ps) = r :: readingsFrom (line + p.breaks) ps := by
  rw [readingsFrom, h]

/-- The piece ahead is skipped. -/
theorem scanFrom_skipped (hpiece : (piece c cs).reading? (past line c cs).line = none)
    (hskip : skipTrivia line (c :: cs) = skipTrivia (past line c cs).line (past line c cs).ahead)
    (hrest : scanFrom (past line c cs) =
      readingsFrom (past line c cs).line (pieces (past line c cs).ahead)) :
    scanFrom ⟨c :: cs, line⟩ = readingsFrom line (pieces (c :: cs)) := by
  rw [scanFrom_skips hskip, hrest, pieces_cons]
  exact (readingsFrom_skipped hpiece).symm

/-- No piece is read as an end token. -/
theorem reading?_kind {p : Piece} {rest : List Char} {t : Token} (hp : Fits p.shape p.text rest)
    (h : p.reading? line = some (.ok t)) : t.kind ≠ .eof := by
  unfold Piece.reading? at h
  split at h <;> cases h
  rename_i k hk
  rw [hk] at hp
  cases hp with
  | lexeme _ h _ => exact h.kind_ne_eof

/-- The piece ahead is read. -/
theorem scanFrom_read {r : Reading} (hpiece : (piece c cs).reading? (past line c cs).line = some r)
    (hread : nextToken ⟨c :: cs, line⟩ = made (past line c cs) r)
    (hrest : scanFrom (past line c cs) =
      readingsFrom (past line c cs).line (pieces (past line c cs).ahead)) :
    scanFrom ⟨c :: cs, line⟩ = readingsFrom line (pieces (c :: cs)) := by
  have hend : isEnd r = false := by
    cases r with
    | error => rfl
    | ok t =>
      have hk : t.kind ≠ .eof := reading?_kind (fits_extent c cs) hpiece
      exact decide_eq_false hk
  rw [scanFrom_made hread, hend, if_neg Bool.false_ne_true, hrest, pieces_cons]
  exact (readingsFrom_read hpiece).symm

theorem OpensComment.cases (h : OpensComment (c :: cs)) :
    (∃ ds, c = '/' ∧ cs = '/' :: ds) ∨ ∃ ds, c = '/' ∧ cs = '*' :: ds := by
  obtain ⟨ds, hds⟩ | ⟨ds, hds⟩ := h
  · exact .inl ⟨ds, (List.cons.inj hds).1.symm, (List.cons.inj hds).2.symm⟩
  · exact .inr ⟨ds, (List.cons.inj hds).1.symm, (List.cons.inj hds).2.symm⟩

theorem extent_blockComment {ds : List Char} (h : commentEnd? ds = some n) :
    extent '/' ('*' :: ds) = (.blockComment, 1 + n) := by
  show afterSlash ('*' :: ds) = _
  rw [afterSlash, h]

theorem extent_unterminatedComment {ds : List Char} (h : commentEnd? ds = none) :
    extent '/' ('*' :: ds) = (.unterminatedComment, 1 + ds.length) := by
  show afterSlash ('*' :: ds) = _
  rw [afterSlash, h]

/-- A line comment ends no line. -/
theorem skipTrivia_linePiece (line : Nat) (ds : List Char) :
    skipTrivia line ('/' :: '/' :: ds) =
      skipTrivia (past line '/' ('/' :: ds)).line (past line '/' ('/' :: ds)).ahead := by
  have hextent : extent '/' ('/' :: ds) = (.lineComment, run (· ≠ '\n') ds + 1) := by
    rw [Nat.add_comm]
    rfl
  have hbody : '\n' ∉ ds.take (run (· ≠ '\n') ds) := fun hmem => by
    simpa using run_take ds _ hmem
  have hcount : ('/' :: '/' :: ds.take (run (· ≠ '\n') ds)).count '\n' = 0 :=
    List.count_eq_zero.mpr fun hmem => by
      obtain hmem | hmem := List.mem_cons.mp hmem
      · cases hmem
      · obtain hmem | hmem := List.mem_cons.mp hmem
        · cases hmem
        · exact hbody hmem
  rw [skipTrivia_lineComment, past, piece, hextent]
  dsimp only [Piece.breaks, Piece.text]
  rw [List.take_succ_cons, List.drop_succ_cons, drop_run, hcount]
  rfl

/-- The readings of a scanner are those of the pieces ahead. -/
theorem scanFrom_eq (line : Nat) (cs : List Char) :
    scanFrom ⟨cs, line⟩ = readingsFrom line (pieces cs) := by
  cases cs with
  | nil =>
    have hnext : nextToken ⟨[], line⟩ = made ⟨[], line⟩ (.ok (Token.eof line)) := by
      rw [nextToken, skipTrivia]
      · rfl
      all_goals nofun
    rw [scanFrom_made hnext, pieces, readingsFrom]
    rfl
  | cons c cs =>
    have hrest := scanFrom_eq (past line c cs).line (past line c cs).ahead
    cases hb : isBlank c with
    | true =>
      have hextent := extent_blank hb cs
      refine scanFrom_skipped ?_ ?_ hrest
      · rw [piece, hextent]
        rfl
      · rw [skipTrivia_of_blank hb, past, piece, hextent]
        rfl
    | false =>
      by_cases hopen : OpensComment (c :: cs)
      · obtain ⟨ds, rfl, rfl⟩ | ⟨ds, rfl, rfl⟩ := hopen.cases
        · exact scanFrom_skipped rfl (skipTrivia_linePiece line ds) hrest
        · cases hend : commentEnd? ds with
          | some n =>
            have hextent := extent_blockComment hend
            refine scanFrom_skipped ?_ ?_ hrest
            · rw [piece, hextent]
              rfl
            · rw [skipTrivia_blockComment hend, past, piece, hextent, Nat.add_comm 1 n]
              rfl
          | none =>
            have hextent := extent_unterminatedComment hend
            have hpast : past line '/' ('*' :: ds) = ⟨[], line + ds.count '\n'⟩ := by
              rw [past, piece, hextent, Nat.add_comm 1, List.drop_succ_cons, List.drop_length,
                List.take_succ_cons, List.take_length]
              rfl
            refine scanFrom_read (r := .error ⟨line + ds.count '\n', .unterminatedComment⟩)
              ?_ ?_ hrest
            · rw [hpast, piece, hextent]
              rfl
            · rw [hpast, nextToken, skipTrivia_unterminated hend]
              rfl
      · obtain ⟨r, hpiece, hread⟩ := reads_extent line hb hopen
        refine scanFrom_read hpiece ?_ hrest
        rw [nextToken, skipTrivia_stops hb hopen]
        exact hread
termination_by cs.length
decreasing_by
  simp only [past, List.length_cons, List.length_drop]
  omega

/-- The readings of a source text, made character by character. -/
def scanCharacters (source : String) : List Reading := scanFrom ⟨source.toList, 1⟩

theorem scanCharacters_eq (source : String) : scanCharacters source = readings source :=
  scanFrom_eq 1 source.toList

end Lexical

end Treewalk
