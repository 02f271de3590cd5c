import Treewalk.Proofs.Decimal.Rounding

/-!
# Numbers told apart by their texts

A number that is written out without an exponent can be read off its text again, so numbers
with the same text have the same shortest decimal. That decimal tells them apart.

Results:

* `fixed_digits`: the text of a decimal stands for its value.
* `text_injective`: finite numbers with the same text are the same.
* `numeral_digits`: what the text of a decimal looks like.
-/
namespace Treewalk.Decimal

/-! ## Reading digits -/

/-- The number that digits, with an optional point among them, stand for. -/
def fixed (cs : List Char) : ℚ :=
  Nat.ofDigitChars 10 (cs.filter (· ≠ '.')) 0 / 10 ^ (cs.dropWhile (· ≠ '.')).tail.length

theorem filter_point {cs : List Char} (h : '.' ∉ cs) : cs.filter (· ≠ '.') = cs := by
  rw [List.filter_eq_self]
  intro c hc
  simpa using fun e : c = '.' => h (e ▸ hc)

theorem dropWhile_point {cs ds : List Char} (h : '.' ∉ cs) :
    (cs ++ ds).dropWhile (· ≠ '.') = ds.dropWhile (· ≠ '.') := by
  apply List.dropWhile_append_of_pos
  intro c hc
  simpa using fun e : c = '.' => h (e ▸ hc)

theorem fixed_whole {cs : List Char} (h : '.' ∉ cs) : fixed cs = Nat.ofDigitChars 10 cs 0 := by
  have hdrop : (cs ++ []).dropWhile (· ≠ '.') = [] := dropWhile_point h
  rw [List.append_nil] at hdrop
  rw [fixed, filter_point h, hdrop]
  simp

theorem fixed_point {cs ds : List Char} (h : '.' ∉ cs) (h' : '.' ∉ ds) :
    fixed (cs ++ '.' :: ds) = Nat.ofDigitChars 10 (cs ++ ds) 0 / 10 ^ ds.length := by
  rw [fixed, dropWhile_point h, List.filter_append, filter_point h,
    List.filter_cons_of_neg (by simp), filter_point h']
  simp

/-- Digits that are written out stand for what they are. -/
theorem fixed_positional {ds : List Char} (hds : '.' ∉ ds) (point : ℤ) :
    fixed (positionalChars ds point) = Nat.ofDigitChars 10 ds 0 * 10 ^ (point - ds.length) := by
  unfold positionalChars
  split
  · have hzeros : '.' ∉ List.replicate (-point).toNat '0' ++ ds := by
      simp [hds, List.mem_replicate]
    have hexponent : point - ds.length =
        -((List.replicate (-point).toNat '0' ++ ds).length : ℤ) := by
      simp
      omega
    have hpoint : fixed (['0'] ++ '.' :: (List.replicate (-point).toNat '0' ++ ds)) = _ :=
      fixed_point (by decide) hzeros
    have hzero : Nat.ofDigitChars 10 ['0'] 0 = 0 := by decide
    rw [List.singleton_append] at hpoint
    rw [hpoint, hexponent, zpow_neg, zpow_natCast, ← div_eq_mul_inv, Nat.ofDigitChars_append,
      hzero, Nat.ofDigitChars_append, Nat.ofDigitChars_replicate_zero, mul_zero]
  · split
    · rename_i hpoint hlength
      have hzeros : '.' ∉ ds ++ List.replicate (point.toNat - ds.length) '0' := by
        simp [hds, List.mem_replicate]
      have hexponent : point - ds.length = (point.toNat - ds.length : ℕ) := by omega
      rw [fixed_whole hzeros, hexponent, zpow_natCast, Nat.ofDigitChars_append,
        Nat.ofDigitChars_replicate_zero]
      push_cast
      ring
    · rename_i hpoint hlength
      have hexponent : point - ds.length = -((ds.drop point.toNat).length : ℤ) := by
        rw [List.length_drop]
        omega
      rw [fixed_point (fun h => hds (List.mem_of_mem_take h)) fun h => hds (List.mem_of_mem_drop h)]
      rw [List.take_append_drop, hexponent, zpow_neg, zpow_natCast, div_eq_mul_inv]

/-! ## The text of a decimal -/

theorem isDigit_chars {d : Digits} {c : Char} (h : c ∈ d.chars) : c.isDigit = true :=
  Nat.isDigit_of_mem_toDigits (by decide) (by decide) h

theorem point_not_mem_chars (d : Digits) : '.' ∉ d.chars := fun h => by
  have := isDigit_chars h
  simp at this

variable {layout : Layout}

/-- The text of a decimal stands for its value. -/
theorem fixed_digits {d : Digits} (h : layout.positional d.point = true) :
    fixed (layout.digits d) = d.value := by
  unfold Layout.digits
  simp only [h, if_true]
  split
  · rename_i hzero
    have hdigit : Nat.ofDigitChars 10 ['0'] 0 = 0 := by decide
    rw [fixed_whole (by decide), hdigit]
    simp [Digits.value, hzero]
  · rw [fixed_positional (point_not_mem_chars d), Digits.point, Digits.chars,
      Nat.ofDigitChars_ten_toDigits, Digits.value]
    simp

/-- The text starts with a digit, and a point is all that may stand between digits. -/
def Numeral (cs : List Char) : Prop :=
  (∃ c ∈ cs.head?, c.isDigit = true) ∧ ∀ c ∈ cs, c.isDigit = true ∨ c = '.'

theorem numeral_positional {ds : List Char} (hne : ds ≠ []) (hds : ∀ c ∈ ds, c.isDigit = true)
    (point : ℤ) : Numeral (positionalChars ds point) := by
  have hzero : ('0').isDigit = true := by decide
  obtain ⟨first, more, rfl⟩ := List.exists_cons_of_ne_nil hne
  have hfirst := hds first (.head _)
  unfold positionalChars
  split
  · refine ⟨⟨'0', rfl, hzero⟩, fun c hc => ?_⟩
    simp only [List.mem_cons, List.mem_append, List.mem_replicate] at hc
    rcases hc with rfl | rfl | ⟨-, rfl⟩ | hc
    · exact .inl hzero
    · exact .inr rfl
    · exact .inl hzero
    · exact .inl (hds c (List.mem_cons.mpr hc))
  · rename_i hpoint
    split
    · refine ⟨⟨first, rfl, hfirst⟩, fun c hc => .inl ?_⟩
      rcases List.mem_append.mp hc with hc | hc
      · exact hds c hc
      · rw [(List.mem_replicate.mp hc).2]
        exact hzero
    · obtain ⟨n, hn⟩ : ∃ n, point.toNat = n + 1 := ⟨point.toNat - 1, by omega⟩
      rw [hn, List.take_succ_cons]
      refine ⟨⟨first, rfl, hfirst⟩, fun c hc => ?_⟩
      rcases List.mem_append.mp hc with hc | hc
      · rcases List.mem_cons.mp hc with rfl | hc
        · exact .inl hfirst
        · exact .inl (hds c (.tail _ (List.mem_of_mem_take hc)))
      · rcases List.mem_cons.mp hc with rfl | hc
        · exact .inr rfl
        · exact .inl (hds c (List.mem_of_mem_drop hc))

theorem numeral_digits {d : Digits} (h : layout.positional d.point = true) :
    Numeral (layout.digits d) := by
  unfold Layout.digits
  simp only [h, if_true]
  split
  · exact ⟨⟨'0', rfl, by decide⟩, List.forall_mem_singleton.mpr (.inl (by decide))⟩
  · exact numeral_positional Nat.toDigits_ne_nil (fun _ => isDigit_chars) _

/-! ## Numbers -/

/-- The magnitude of a pattern can be read off what it stands for. -/
theorem magnitude_inj {a b : UInt64} (h : Binary.ofBits a = Binary.ofBits b) :
    a.toNat % 2 ^ 63 = b.toNat % 2 ^ 63 := by
  have hhidden : hidden = 2 ^ 52 := by decide
  have hfield : ∀ bits : UInt64, (bits >>> 52).toNat = bits.toNat / 2 ^ 52 := by
    intro bits
    rw [UInt64.toNat_shiftRight, Nat.shiftRight_eq_div_pow]
    rfl
  unfold Binary.ofBits at h
  simp only [hfield, hhidden] at h
  -- The exponent field is zero exactly if the leading bit is missing.
  split at h <;> split at h <;>
    (simp only [Binary.mk.injEq] at h
     omega)

theorem toBits_inj {x y : Float} (h : x.toBits = y.toBits) : x = y := by
  obtain ⟨⟨bits, _⟩⟩ := x
  obtain ⟨⟨bits', _⟩⟩ := y
  obtain rfl : bits = bits' := h
  rfl

theorem not_isNaN_of_isFinite {x : Float} (h : x.isFinite = true) :
    x.isNaN = false ∧ x.isInf = false := by
  have hmodel : x.toModel.unpack.isFinite = true := h
  show x.toModel.unpack.isNaN = false ∧ x.toModel.unpack.isInf = false
  cases hx : x.toModel.unpack with
  | notANumber | infinity s =>
    rw [hx] at hmodel
    cases hmodel
  | _ => exact ⟨rfl, rfl⟩

/-- The text of a finite number: its sign and its shortest decimal. -/
theorem toList_text {x : Float} (hx : x.isFinite = true) :
    (layout.text x).toList = (if x.toBits >>> 63 = 0 then [] else ['-']) ++
      layout.digits ((Binary.ofBits x.toBits).shortest layout.tie) := by
  obtain ⟨hnan, hinf⟩ := not_isNaN_of_isFinite hx
  unfold Layout.text
  simp only [hnan, hinf, Bool.false_eq_true, if_false]
  split <;> simp

/-- The sign bit is the leading one. -/
theorem sign_eq_zero_iff (bits : UInt64) : bits >>> 63 = 0 ↔ bits.toNat < 2 ^ 63 := by
  have hshift : (bits >>> 63).toNat = bits.toNat / 2 ^ 63 := by
    rw [UInt64.toNat_shiftRight, Nat.shiftRight_eq_div_pow]
    rfl
  rw [← UInt64.toNat_inj, hshift, UInt64.toNat_zero]
  omega

section Positional

variable (hall : ∀ point, layout.positional point = true)

include hall

theorem ofBits_eq_of_digits {a b : UInt64}
    (h : layout.digits ((Binary.ofBits a).shortest layout.tie) =
      layout.digits ((Binary.ofBits b).shortest layout.tie)) :
    Binary.ofBits a = Binary.ofBits b := by
  have hvalue := congrArg fixed h
  rw [fixed_digits (hall _), fixed_digits (hall _)] at hvalue
  have ha := (Binary.ofBits a).within_shortest layout.tie
  have hb := (Binary.ofBits b).within_shortest layout.tie
  rw [hvalue] at ha
  exact Binary.within_unique (Binary.normal_ofBits a) (Binary.normal_ofBits b) ha hb

/-- No text of digits starts with a minus sign. -/
theorem digits_ne_minus {d d' : Digits} : layout.digits d ≠ '-' :: layout.digits d' := by
  intro h
  obtain ⟨⟨c, hc, hdigit⟩, -⟩ := numeral_digits (hall d.point)
  rw [h] at hc
  cases hc
  exact absurd hdigit (by decide)

/-- Finite numbers with the same text are the same. -/
theorem text_injective {x y : Float} (hx : x.isFinite = true) (hy : y.isFinite = true)
    (h : layout.text x = layout.text y) : x = y := by
  have hchars := congrArg String.toList h
  rw [toList_text hx, toList_text hy] at hchars
  have hsame : ∀ {a b : UInt64}, (a >>> 63 = 0 ↔ b >>> 63 = 0) →
      Binary.ofBits a = Binary.ofBits b → a = b := by
    intro a b hsign hmagnitude
    have hmod := magnitude_inj hmagnitude
    rw [sign_eq_zero_iff, sign_eq_zero_iff] at hsign
    have ha := a.toNat_lt
    have hb := b.toNat_lt
    exact UInt64.toNat_inj.mp (by omega)
  apply toBits_inj
  by_cases hxs : x.toBits >>> 63 = 0 <;> by_cases hys : y.toBits >>> 63 = 0 <;>
    simp only [hxs, hys, if_true, if_false, List.nil_append, List.singleton_append] at hchars
  · exact hsame (by simp [hxs, hys]) (ofBits_eq_of_digits hall hchars)
  · exact absurd hchars (digits_ne_minus hall)
  · exact absurd hchars.symm (digits_ne_minus hall)
  · exact hsame (by simp [hxs, hys]) (ofBits_eq_of_digits hall (List.cons.inj hchars).2)

end Positional

end Treewalk.Decimal
