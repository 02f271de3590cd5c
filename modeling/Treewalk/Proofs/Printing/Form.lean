import Treewalk.Proofs.Decimal.Reading
import Treewalk.Proofs.Lexical.Extent

/-!
# Reading parenthesised forms

A form is a word, a number, a quoted text, or forms in parentheses with spaces between them.
Nothing is escaped, and yet the text of a form can be read in one way only, even with other
text after it: words and numbers go up to the next space, line break or parenthesis, and a
quoted text up to the next quote.

Results:

* `chars_inj`: forms that start the same text are the same.
* `joined_inj`: so are sequences of forms.
-/
namespace Treewalk

inductive Form where
  | word (w : String)
  | number (x : Float)
  | quoted (s : String)
  | group (parts : List Form)

namespace Form

mutual

def chars : Form → List Char
  | .word w => w.toList
  | .number x => (Literal.layout.text x).toList
  | .quoted s => '"' :: (s.toList ++ ['"'])
  | .group parts => '(' :: (joined ' ' parts ++ [')'])

/-- Forms with a separator between them. -/
def joined (sep : Char) : List Form → List Char
  | [] => []
  | f :: fs => f.chars ++ tails sep fs

/-- Forms with a separator before each of them. -/
def tails (sep : Char) : List Form → List Char
  | [] => []
  | f :: fs => sep :: (f.chars ++ tails sep fs)

end

/-- What can stand after a form. -/
def ends (c : Char) : Bool := c = ' ' || c = ')' || c = '\n'

/-- What can stand in a word. -/
def plain (c : Char) : Bool := !ends c && c ≠ '(' && c ≠ '"'

/-- Something to be read up to the end of a word. -/
structure Word (w : List Char) : Prop where
  nonempty : w ≠ []
  whole : ∀ c ∈ w, plain c = true

/-- The first character that is no minus sign is a digit. -/
def numeric (w : List Char) : Bool := (w.find? (· ≠ '-')).any Char.isDigit

/-- A word that no number looks like. -/
def bare (w : List Char) : Bool := w ≠ [] && w.all plain && !numeric w

mutual

/-- Words look like words, numbers are finite, and quoted texts have no quotes in them. -/
def Readable : Form → Prop
  | .word w => bare w.toList = true
  | .number x => x.isFinite = true
  | .quoted s => '"' ∉ s.toList
  | .group parts => ReadableAll parts

def ReadableAll : List Form → Prop
  | [] => True
  | f :: fs => f.Readable ∧ ReadableAll fs

end

/-- A form can end where this text follows. -/
def Delimited (rest : List Char) : Prop := ∀ c ∈ rest.head?, ends c = true

/-- A sequence of forms with this separator can end where this text follows. -/
structure Closes (sep : Char) (rest : List Char) : Prop where
  separates : ends sep = true
  delimited : Delimited rest
  apart : ∀ c ∈ rest.head?, c ≠ sep

/-! ## Words and numbers -/

variable {v w rest rest' : List Char}

/-- Texts that are read up to the same sort of character. -/
theorem append_inj_of_stop {p : Char → Bool} (hv : ∀ c ∈ v, p c = true)
    (hw : ∀ c ∈ w, p c = true) (hrest : ∀ c ∈ rest.head?, p c = false)
    (hrest' : ∀ c ∈ rest'.head?, p c = false) (h : v ++ rest = w ++ rest') :
    v = w ∧ rest = rest' := by
  have hlength : v.length = w.length := by
    rw [← Lexical.run_append hv hrest, ← Lexical.run_append hw hrest', h]
  exact List.append_inj h hlength

theorem Delimited.not_plain (h : Delimited rest) : ∀ c ∈ rest.head?, plain c = false := by
  intro c hc
  simp [plain, h c hc]

theorem Word.append_inj (hv : Word v) (hw : Word w) (hrest : Delimited rest)
    (hrest' : Delimited rest') (h : v ++ rest = w ++ rest') : v = w ∧ rest = rest' :=
  append_inj_of_stop hv.whole hw.whole hrest.not_plain hrest'.not_plain h

/-- A word does not start like another form. -/
theorem Word.append_ne (hw : Word w) {c : Char} {cs : List Char} (hc : plain c = false) :
    w ++ rest ≠ c :: cs := by
  obtain ⟨first, more, rfl⟩ := List.exists_cons_of_ne_nil hw.nonempty
  intro h
  have hfirst := hw.whole first (.head _)
  rw [(List.cons.inj h).1, hc] at hfirst
  cases hfirst

theorem Closes.tails {sep : Char} (h : Closes sep rest) (fs : List Form) :
    Delimited (tails sep fs ++ rest) := by
  cases fs with
  | nil => exact h.delimited
  | cons f fs =>
    rintro c ⟨⟩
    exact h.separates

theorem Closes.ne_cons {sep : Char} (h : Closes sep rest) : rest ≠ sep :: rest' := by
  rintro rfl
  exact h.apart sep rfl rfl

theorem plain_of_isDigit {c : Char} (h : c.isDigit = true) : plain c = true := by
  have hne : ∀ d : Char, d.isDigit = false → c ≠ d := by
    rintro d hd rfl
    rw [h] at hd
    cases hd
  simp [plain, ends, hne ' ' (by decide), hne ')' (by decide), hne '\n' (by decide),
    hne '(' (by decide), hne '"' (by decide)]

theorem bare_iff : bare w = true ↔ Word w ∧ numeric w = false := by
  simp only [bare, Bool.and_eq_true, decide_eq_true_eq, List.all_eq_true, Bool.not_eq_true']
  exact ⟨fun h => ⟨⟨h.1.1, h.1.2⟩, h.2⟩, fun h => ⟨⟨h.1.nonempty, h.1.whole⟩, h.2⟩⟩

/-- The text of a number is a word, and looks like a number. -/
theorem word_number {x : Float} (hx : x.isFinite = true) :
    Word (Literal.layout.text x).toList ∧ numeric (Literal.layout.text x).toList = true := by
  rw [Decimal.toList_text hx]
  have hdigits : Decimal.Numeral (Literal.layout.digits
      ((Decimal.Binary.ofBits x.toBits).shortest Literal.layout.tie)) :=
    Decimal.numeral_digits rfl
  generalize Literal.layout.digits ((Decimal.Binary.ofBits x.toBits).shortest
    Literal.layout.tie) = ds at hdigits ⊢
  obtain ⟨⟨c, hc, hdigit⟩, hnumeral⟩ := hdigits
  obtain ⟨cs, rfl⟩ := List.head?_eq_some_iff.mp hc
  have hplain : ∀ d ∈ c :: cs, plain d = true := by
    intro d hd
    obtain hd | rfl := hnumeral d hd
    · exact plain_of_isDigit hd
    · decide
  have hminus : c ≠ '-' := by
    rintro rfl
    exact absurd hdigit (by decide)
  split
  · exact ⟨⟨nofun, hplain⟩, by simp [numeric, hminus, hdigit]⟩
  · exact ⟨⟨nofun, List.forall_mem_cons.mpr ⟨by decide, hplain⟩⟩,
      by simp [numeric, hminus, hdigit]⟩

theorem Readable.word {w : String} (h : (Form.word w).Readable) : Word w.toList :=
  (bare_iff.mp h).1

/-- A word is no number. -/
theorem Readable.word_ne {w : String} (h : (Form.word w).Readable) {x : Float}
    (hx : x.isFinite = true) : w.toList ≠ (Literal.layout.text x).toList := by
  intro e
  have hword := (bare_iff.mp h).2
  rw [e, (word_number hx).2] at hword
  cases hword

/-! ## Forms -/

/-- A form starts with a character that ends no other form. -/
theorem Readable.delimited_ne {f : Form} (hf : f.Readable) (hrest : Delimited rest) :
    rest ≠ f.chars ++ rest' := by
  have hword : ∀ {w : List Char}, Word w → rest ≠ w ++ rest' := by
    rintro w hw rfl
    obtain ⟨c, cs, rfl⟩ := List.exists_cons_of_ne_nil hw.nonempty
    have hends := hrest c rfl
    have hplain := hw.whole c (.head _)
    simp [plain, hends] at hplain
  cases f with
  | word w => exact hword hf.word
  | number x => exact hword (word_number hf).1
  | quoted s | group parts =>
    rintro rfl
    exact absurd (hrest _ rfl) (by decide)

-- The first character tells quoted texts and groups from everything else, and from each other;
-- a word and a number differ in the text up to their end.

mutual

/-- Forms that start the same text are the same. -/
theorem chars_inj : {f g : Form} → f.Readable → g.Readable → {rest rest' : List Char} →
    Delimited rest → Delimited rest' → f.chars ++ rest = g.chars ++ rest' → f = g ∧ rest = rest'
  | .word v, .word w, hf, hg, _, _, hrest, hrest', h => by
    obtain ⟨hw, rfl⟩ := hf.word.append_inj hg.word hrest hrest' h
    exact ⟨congrArg _ (String.toList_inj.mp hw), rfl⟩
  | .word v, .number x, hf, hg, _, _, hrest, hrest', h => by
    exact absurd (hf.word.append_inj (word_number hg).1 hrest hrest' h).1 (hf.word_ne hg)
  | .number x, .word v, hf, hg, _, _, hrest, hrest', h => by
    exact absurd (hg.word.append_inj (word_number hf).1 hrest' hrest h.symm).1 (hg.word_ne hf)
  | .number x, .number y, hf, hg, _, _, hrest, hrest', h => by
    obtain ⟨hw, rfl⟩ := (word_number hf).1.append_inj (word_number hg).1 hrest hrest' h
    exact ⟨congrArg _ (Decimal.text_injective (fun _ => rfl) hf hg (String.toList_inj.mp hw)), rfl⟩
  | .word _, .quoted _, hf, _, _, _, _, _, h | .word _, .group _, hf, _, _, _, _, _, h =>
    absurd h (hf.word.append_ne (by decide))
  | .quoted _, .word _, _, hg, _, _, _, _, h | .group _, .word _, _, hg, _, _, _, _, h =>
    absurd h.symm (hg.word.append_ne (by decide))
  | .number _, .quoted _, hf, _, _, _, _, _, h | .number _, .group _, hf, _, _, _, _, _, h =>
    absurd h ((word_number hf).1.append_ne (by decide))
  | .quoted _, .number _, _, hg, _, _, _, _, h | .group _, .number _, _, hg, _, _, _, _, h =>
    absurd h.symm ((word_number hg).1.append_ne (by decide))
  | .quoted _, .group _, _, _, _, _, _, _, h | .group _, .quoted _, _, _, _, _, _, _, h =>
    absurd (List.cons.inj h).1 (by decide)
  | .quoted s, .quoted t, hf, hg, rest, rest', _, _, h => by
    have hstop : ∀ {cs : List Char}, '"' ∉ cs → ∀ c ∈ cs, decide (c ≠ '"') = true := by
      intro cs hcs c hc
      simpa using fun e : c = '"' => hcs (e ▸ hc)
    simp only [chars, List.cons_append, List.append_assoc, List.cons.injEq, true_and] at h
    obtain ⟨hs, hrest⟩ := append_inj_of_stop (hstop hf) (hstop hg) (by simp) (by simp) h
    exact ⟨congrArg _ (String.toList_inj.mp hs), (List.cons.inj hrest).2⟩
  | .group ps, .group qs, hf, hg, rest, rest', _, _, h => by
    have hclose : ∀ rest : List Char, Closes ' ' (')' :: rest) := fun rest =>
      ⟨by decide, by simp [Delimited, ends], by simp⟩
    simp only [chars, List.cons_append, List.append_assoc, List.cons.injEq, true_and] at h
    obtain ⟨hparts, hrest⟩ := joined_inj hf hg (hclose _) (hclose _) h
    exact ⟨congrArg _ hparts, (List.cons.inj hrest).2⟩

/-- Sequences of forms with the same separator that start the same text are the same. -/
theorem joined_inj {sep : Char} : {fs gs : List Form} → ReadableAll fs → ReadableAll gs →
    {rest rest' : List Char} → Closes sep rest → Closes sep rest' →
    joined sep fs ++ rest = joined sep gs ++ rest' → fs = gs ∧ rest = rest'
  | [], [], _, _, _, _, _, _, h => ⟨rfl, h⟩
  | [], g :: gs, _, hg, _, _, hrest, _, h => by
    simp only [joined, List.append_assoc] at h
    exact absurd h (hg.1.delimited_ne hrest.delimited)
  | f :: fs, [], hf, _, _, _, _, hrest', h => by
    simp only [joined, List.append_assoc] at h
    exact absurd h.symm (hf.1.delimited_ne hrest'.delimited)
  | f :: fs, g :: gs, hf, hg, _, _, hrest, hrest', h => by
    simp only [joined, List.append_assoc] at h
    obtain ⟨rfl, htails⟩ := chars_inj hf.1 hg.1 (hrest.tails fs) (hrest'.tails gs) h
    obtain ⟨rfl, rfl⟩ := tails_inj hf.2 hg.2 hrest hrest' htails
    exact ⟨rfl, rfl⟩

theorem tails_inj {sep : Char} : {fs gs : List Form} → ReadableAll fs → ReadableAll gs →
    {rest rest' : List Char} → Closes sep rest → Closes sep rest' →
    tails sep fs ++ rest = tails sep gs ++ rest' → fs = gs ∧ rest = rest'
  | [], [], _, _, _, _, _, _, h => ⟨rfl, h⟩
  | [], g :: gs, _, _, _, _, hrest, _, h => absurd h hrest.ne_cons
  | f :: fs, [], _, _, _, _, _, hrest', h => absurd h.symm hrest'.ne_cons
  | f :: fs, g :: gs, hf, hg, _, _, hrest, hrest', h => by
    simp only [tails, List.cons_append, List.append_assoc, List.cons.injEq, true_and] at h
    obtain ⟨rfl, htails⟩ := chars_inj hf.1 hg.1 (hrest.tails fs) (hrest'.tails gs) h
    obtain ⟨rfl, rfl⟩ := tails_inj hf.2 hg.2 hrest hrest' htails
    exact ⟨rfl, rfl⟩

end

end Form

end Treewalk
