import Treewalk.Proofs.Decimal.Reading
import Treewalk.Proofs.Lexical.Extent
import Treewalk.Value

/-!
# How numbers are spelled

The text of a finite number is a minus sign, or none, before a numeral of the lexical grammar.
If the number is written with an exponent, an `e` and an integer come after that numeral, and
they are no part of it.

Results:

* `fits_before`: a numeral ends where neither a digit nor a point follows.
* `spelled_magnitude`: the text of a finite number without its sign.
* `quote_not_mem_text`: there is no quote in the text of a number.
-/
namespace Treewalk

namespace Lexical

open Piece Decimal

/-! ## Numerals of the lexical grammar -/

/-- A numeral is digits, perhaps with a point and more digits after them. -/
theorem Lexeme.of_number {w : List Char} (h : Lexeme .number w) : ∃ ds es, ds ≠ [] ∧
    (∀ c ∈ ds, isDigit c = true) ∧ (∀ c ∈ es, isDigit c = true) ∧
      (w = ds ∨ w = ds ++ '.' :: es) := by
  have hsymbols : ∀ s ∈ symbols, s.2 ≠ .number := by decide
  generalize hk : Kind.number = k at h
  cases h with
  | symbol h => exact absurd hk.symm (hsymbols _ h)
  | word => exact absurd hk.symm (wordKind_ne (by decide) (by decide) _)
  | whole ne h => exact ⟨_, [], ne, h, List.forall_mem_nil _, .inl rfl⟩
  | decimal ne h ne' h' => exact ⟨_, _, ne, h, h', .inr rfl⟩
  | string => cases hk

theorem number_chars {w : List Char} (h : Lexeme .number w) :
    ∀ c ∈ w, isDigit c = true ∨ c = '.' := by
  obtain ⟨ds, es, -, hds, hes, rfl | rfl⟩ := h.of_number
  · exact fun c hc => .inl (hds c hc)
  · intro c hc
    obtain hc | hc := List.mem_append.mp hc
    · exact .inl (hds c hc)
    · obtain rfl | hc := List.mem_cons.mp hc
      · exact .inr rfl
      · exact .inl (hes c hc)

theorem number_head {w : List Char} (h : Lexeme .number w) :
    ∃ c cs, w = c :: cs ∧ isDigit c = true := by
  obtain ⟨ds, es, hne, hds, -, hw⟩ := h.of_number
  obtain ⟨c, cs, rfl⟩ := List.exists_cons_of_ne_nil hne
  obtain rfl | rfl := hw
  · exact ⟨c, cs, rfl, hds c (.head _)⟩
  · exact ⟨c, _, rfl, hds c (.head _)⟩

/-- A numeral ends where neither a digit nor a point follows. -/
theorem fits_before {w rest : List Char} (h : Lexeme .number w)
    (hrest : ∀ c ∈ rest.head?, isDigit c = false ∧ c ≠ '.') : Fits (.lexeme .number) w rest := by
  obtain ⟨c, cs, rfl, hc⟩ := number_head h
  have hslash : c ≠ '/' := by
    rintro rfl
    cases hc
  refine fits_lexeme h (.inl hslash) fun k v hv hp => ?_
  have hs := hv.of_cons
  rw [initial_digit hc] at hs
  obtain ⟨rfl, -⟩ := hs
  by_contra hlt
  -- A longer numeral would hold the character after this one.
  obtain ⟨d, ds, rfl⟩ : ∃ d ds, rest = d :: ds := by
    refine List.exists_cons_of_ne_nil ?_
    rintro rfl
    have := hp.length_le
    simp only [List.append_nil] at this
    omega
  obtain ⟨hd, hpoint⟩ := hrest d rfl
  have hmem : d ∈ v := by
    have hpre : cs ++ [d] <+: v := by
      refine List.prefix_of_prefix_length_le ?_ hp ?_
      · exact ⟨ds, by simp⟩
      · simp
        omega
    exact hpre.subset (by simp)
  obtain hdigit | hdot := number_chars hv d (.tail _ hmem)
  · rw [hd] at hdigit
    cases hdigit
  · exact hpoint hdot

/-! ## Digits -/

theorem lexeme_positional {ds : List Char} (hne : ds ≠ []) (hds : ∀ c ∈ ds, isDigit c = true)
    (point : Int) : Lexeme .number (positionalChars ds point) := by
  have hzero : isDigit '0' = true := by decide
  have hzeros : ∀ n, ∀ c ∈ List.replicate n '0', isDigit c = true := by
    intro n c hc
    rw [(List.mem_replicate.mp hc).2]
    exact hzero
  unfold positionalChars
  split
  · have hfirst : ∀ c ∈ ['0'], isDigit c = true := List.forall_mem_singleton.mpr hzero
    refine .decimal (List.cons_ne_nil _ _) hfirst (by simp [hne]) ?_
    exact List.forall_mem_append.mpr ⟨hzeros _, hds⟩
  · rename_i hpoint
    split
    · exact .whole (by simp [hne]) (List.forall_mem_append.mpr ⟨hds, hzeros _⟩)
    · rename_i hlength
      refine .decimal ?_ (fun c hc => hds c (List.mem_of_mem_take hc)) ?_
        fun c hc => hds c (List.mem_of_mem_drop hc)
      · simp only [ne_eq, List.take_eq_nil_iff, not_or]
        exact ⟨by omega, hne⟩
      · simp only [ne_eq, List.drop_eq_nil_iff]
        exact hlength

/-- One digit and perhaps a fraction are a numeral. -/
theorem lexeme_fraction {ds : List Char} (hne : ds ≠ []) (hds : ∀ c ∈ ds, isDigit c = true) :
    Lexeme .number (ds.take 1 ++ if (ds.drop 1).isEmpty then [] else '.' :: ds.drop 1) := by
  have hfirst : ds.take 1 ≠ [] := by simpa using hne
  have htake : ∀ c ∈ ds.take 1, isDigit c = true := fun c hc => hds c (List.mem_of_mem_take hc)
  split
  · rw [List.append_nil]
    exact .whole hfirst htake
  · rename_i hmore
    refine .decimal hfirst htake ?_ fun c hc => hds c (List.mem_of_mem_drop hc)
    simpa using hmore

/-- The text of a decimal is a numeral, or one with an exponent after it. -/
theorem spelled_digits (layout : Layout) (d : Digits) :
    Lexeme .number (layout.digits d) ∨
      ∃ w, ∃ exponent : Int, Lexeme .number w ∧
        layout.digits d = w ++ 'e' :: (toString exponent).toList := by
  have hds : ∀ c ∈ d.chars, isDigit c = true := fun _ => isDigit_chars
  have hne : d.chars ≠ [] := Nat.toDigits_ne_nil
  unfold Layout.digits
  split
  · exact .inl (.whole (List.cons_ne_nil _ _) (List.forall_mem_singleton.mpr rfl))
  · split
    · exact .inl (lexeme_positional hne hds _)
    · exact .inr ⟨_, d.point - 1, lexeme_fraction hne hds, rfl⟩

end Lexical

/-! ## Integers -/

theorem toList_natText (n : Nat) : (toString n).toList = Nat.toDigits 10 n := by
  show (Nat.repr n).toList = _
  simp

/-- The text of an integer is digits, perhaps after a minus sign. -/
theorem toList_intText (i : Int) : ∃ ds, (∀ c ∈ ds, Piece.isDigit c = true) ∧
    ((toString i).toList = ds ∨ (toString i).toList = '-' :: ds) := by
  have hdigits : ∀ n, ∀ c ∈ Nat.toDigits 10 n, Piece.isDigit c = true :=
    fun n c => Nat.isDigit_of_mem_toDigits (by decide) (by decide)
  cases i with
  | ofNat n => exact ⟨_, hdigits n, .inl (toList_natText n)⟩
  | negSucc n =>
    refine ⟨_, hdigits (n + 1), .inr ?_⟩
    show ("-" ++ toString (n + 1)).toList = _
    rw [String.toList_append, toList_natText]
    rfl

/-! ## Numbers -/

open Decimal

/-- The number has a text of digits. -/
def IsFinite (x : Float) : Prop := x.isNaN = false ∧ x.isInf = false

/-- The text of a finite number without its sign. -/
def magnitude (x : Float) : List Char :=
  Value.layout.digits ((Binary.ofBits x.toBits).shortest Value.layout.tie)

/-- A minus sign stands before a number whose sign bit is set. -/
theorem text_finite {x : Float} (h : IsFinite x) : (Value.number x).text.toList =
    if x.toBits >>> 63 = 0 then magnitude x else '-' :: magnitude x := by
  unfold Value.text Layout.text
  simp only [h.1, h.2, Bool.false_eq_true, if_false]
  split <;> simp [magnitude]

/-- The text of a finite number without its sign is a numeral, or one with an exponent after
it. -/
theorem spelled_magnitude (x : Float) : Lexical.Lexeme .number (magnitude x) ∨
    ∃ w, ∃ exponent : Int, Lexical.Lexeme .number w ∧
      magnitude x = w ++ 'e' :: (toString exponent).toList :=
  Lexical.spelled_digits _ _

theorem quote_not_mem_number {w : List Char} (h : Lexical.Lexeme .number w) : '"' ∉ w := by
  intro hmem
  obtain hdigit | hpoint := Lexical.number_chars h _ hmem
  · cases hdigit
  · cases hpoint

theorem quote_not_mem_digits {ds : List Char} (h : ∀ c ∈ ds, Piece.isDigit c = true) :
    '"' ∉ ds := fun hmem => absurd (h _ hmem) (by decide)

theorem quote_not_mem_magnitude (x : Float) : '"' ∉ magnitude x := by
  obtain h | ⟨w, exponent, h, heq⟩ := spelled_magnitude x
  · exact quote_not_mem_number h
  · obtain ⟨ds, hds, hi⟩ := toList_intText exponent
    have hw := quote_not_mem_number h
    have hexponent := quote_not_mem_digits hds
    rw [heq]
    obtain hi | hi := hi <;>
      (rw [hi]; simp only [List.mem_append, List.mem_cons, hw, hexponent]; decide)

/-- The texts of the other numbers. -/
theorem text_of_not_finite {x : Float} (h : ¬ IsFinite x) :
    (Value.number x).text ∈ ["NaN", "Infinity", "-Infinity"] := by
  have hinfinity : Value.layout.infinity = "Infinity" := rfl
  unfold Value.text Layout.text
  dsimp only
  split
  · exact List.mem_cons_self
  · rename_i hnan
    split
    · by_cases hsign : x.toBits >>> 63 = 0 <;> simp [hsign, hinfinity]
    · rename_i hinf
      exact absurd ⟨Bool.eq_false_iff.mpr hnan, Bool.eq_false_iff.mpr hinf⟩ h

/-- There is no quote in the text of a number. -/
theorem quote_not_mem_text (x : Float) : '"' ∉ (Value.number x).text.toList := by
  by_cases hfinite : IsFinite x
  · rw [text_finite hfinite]
    split <;> simp [quote_not_mem_magnitude]
  · have htexts : ∀ text ∈ ["NaN", "Infinity", "-Infinity"], '"' ∉ text.toList := by decide
    exact htexts _ (text_of_not_finite hfinite)

/-- The value is no string with a quote in it. -/
def Value.Unquoted : Value → Prop
  | .string s => '"' ∉ s.toList
  | _ => True

end Treewalk
