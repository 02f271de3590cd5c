import Treewalk.Proofs.Decimal.Nearest
import Treewalk.Source.Scan

/-!
# Numerals read back

A numeral is read as an integer divided by a power of ten: a small integer by a power from a
table, both of them exact, any other one by a power that is computed. Either way the quotient is
rounded once. So a number that was written out without an exponent is read as itself again,
since only one number has the quotient in its rounding interval.

Results:

* `rounds_scientific`: an integer divided by a power of ten is rounded to the nearest number.
* `rounds_numeralValue`: a numeral is read as the number nearest to its value.
* `numeralValue_digits`: the text of a number is read as the number.
-/
namespace Treewalk.Decimal

open Float.Model Float.Model.UnpackedFloat

/-! ## Integers and powers of ten -/

/-- A significand of the right length is not rounded. -/
theorem roundWithAccuracy_exact {m : ℕ} {e : ℤ} (s : Sign) (hlog : m.log2 = 52) (he : -1074 ≤ e)
    (hpos : 0 < m) : roundWithAccuracy Format.binary64 s m e .exact = .finite s m e hpos := by
  have hround : (ExtendedMantissa.ofMantissaAndAccuracy m .exact >>> 0).roundedMantissa = m := rfl
  have h := roundWithAccuracy_eq s (e := e) (k := 0) (j := 0) hlog (by omega) hround hlog (by simpa)
  simpa using h

/-- Small integers are converted exactly. -/
theorem unpack_ofNat {m : ℕ} (hpos : 0 < m) (hm : m < 2 ^ 53) :
    ∃ (p : ℕ) (q : ℤ) (hp : 0 < p), (Float.Model.ofNat m).unpack = .finite .positive p q hp ∧
      (p : ℚ) * 2 ^ q = m := by
  have hlog : m.log2 < 53 := (Nat.log2_lt hpos.ne').mpr hm
  obtain ⟨hle, hlt⟩ := (Nat.log2_eq_iff hpos.ne').mp rfl
  have htarget : Format.binary64.targetExponent (totalExponent m 0) = m.log2 - 52 := by
    simp [Format.targetExponent, totalExponent, Format.mantissaBits, Format.minExponent]
    omega
  have hshift : (0 - ((m.log2 : ℤ) - 52)).toNat = 52 - m.log2 := by omega
  have hfull : Full (m <<< (52 - m.log2)) (m.log2 - 52) := by
    rw [Nat.shiftLeft_eq]
    refine ⟨?_, ?_, by omega, by omega⟩
    · calc 2 ^ 52 = 2 ^ m.log2 * 2 ^ (52 - m.log2) := by rw [← pow_add]; congr 1; omega
        _ ≤ _ := Nat.mul_le_mul_right _ hle
    · calc m * 2 ^ (52 - m.log2) < 2 ^ (m.log2 + 1) * 2 ^ (52 - m.log2) :=
          Nat.mul_lt_mul_of_pos_right hlt (by positivity)
        _ = 2 ^ 53 := by rw [← pow_add]; congr 1; omega
  have hp : 0 < m <<< (52 - m.log2) := by
    have := hfull.leading
    omega
  refine ⟨m <<< (52 - m.log2), m.log2 - 52, hp, ?_, ?_⟩
  · have hround : UnpackedFloat.round Format.binary64 .positive m 0 =
        .finite .positive (m <<< (52 - m.log2)) (m.log2 - 52) hp := by
      unfold UnpackedFloat.round
      simp only [htarget, decreaseExponent, hshift]
      rw [show (0 - ((52 - m.log2 : ℕ) : ℤ)) = m.log2 - 52 by omega]
      refine roundWithAccuracy_exact _ ?_ hfull.least hp
      exact (Nat.log2_eq_iff hp.ne').mpr ⟨hfull.leading, hfull.significand⟩
    show (Float.Model.pack (UnpackedFloat.ofInt _ m)).unpack = _
    unfold UnpackedFloat.ofInt UnpackedFloat.normalize
    rw [Int.compare_eq_gt.mpr (by omega)]
    simp only [Int.toNat_natCast]
    rw [hround, unpack_pack hfull]
  · rw [Nat.shiftLeft_eq]
    push_cast
    rw [← zpow_natCast, mul_assoc, ← zpow_add₀ (by norm_num)]
    rw [show ((52 - m.log2 : ℕ) : ℤ) + (m.log2 - 52) = 0 by omega, zpow_zero, mul_one]

/-- The unpacked number is `10^e`. -/
def isPowerOfTen (e : ℕ) : UnpackedFloat → Bool
  | .finite .positive p q _ => -52 ≤ q && p * 2 ^ (q + 52).toNat = 10 ^ e * 2 ^ 52
  | _ => false

theorem size_table : Float.exactlyRepresentablePowersOfTen.size = 23 := rfl

/-- A power of ten from the table. -/
def tabulated (e : Fin 23) : Float :=
  have hsize : e.val < Float.exactlyRepresentablePowersOfTen.size := by
    rw [size_table]
    exact e.isLt
  Float.exactlyRepresentablePowersOfTen[e.val]

/-- The powers of ten in the table are exact. -/
theorem isPowerOfTen_tabulated : ∀ e : Fin 23,
    isPowerOfTen e (tabulated e).toModel.unpack = true := by
  decide +kernel

theorem eq_of_isPowerOfTen {e : ℕ} {u : UnpackedFloat} (h : isPowerOfTen e u = true) :
    ∃ (p : ℕ) (q : ℤ) (hp : 0 < p), u = .finite .positive p q hp ∧ (p : ℚ) * 2 ^ q = 10 ^ e := by
  unfold isPowerOfTen at h
  split at h
  · rename_i p q hp
    simp only [Bool.and_eq_true, decide_eq_true_eq] at h
    obtain ⟨hq, heq⟩ := h
    refine ⟨p, q, hp, rfl, ?_⟩
    have hcast : (p : ℚ) * 2 ^ (q + 52).toNat = 10 ^ e * 2 ^ 52 := by exact_mod_cast heq
    have hexponent : ((q + 52).toNat : ℤ) = q + 52 := by omega
    rw [← zpow_natCast, hexponent, zpow_add₀ (by norm_num), ← mul_assoc] at hcast
    exact mul_right_cancel₀ (by norm_num) hcast
  · cases h

/-! ## Decimals -/

/-- The number is the one that `q` is rounded to. -/
def Rounds (x : Float) (q : ℚ) : Prop := ∃ v : Binary, Represents x v ∧ v.Normal ∧ v.Within q

theorem Full.normal {m : ℕ} {e : ℤ} (h : Full m e) :
    Binary.Normal ⟨m, e, m = 2 ^ 52 && e ≠ -1074⟩ :=
  ⟨h.least, h.significand, fun _ => h.leading, by simp⟩

theorem rounds_zero : Rounds (.ofModel (.pack (.zero .positive))) 0 := by
  refine ⟨_, represents_zero, ⟨le_rfl, by norm_num, fun h => absurd rfl h, by simp⟩, ?_⟩
  simp [Binary.Within, Binary.low, Binary.high, Binary.quarter]

/-- The result of an operation that rounds. -/
theorem rounds_of_within {u : UnpackedFloat} {q : ℚ}
    (h : ∃ M E hpos, u = .finite .positive M E hpos ∧ Full M E ∧
      Binary.Within ⟨M, E, M = 2 ^ 52 && E ≠ -1074⟩ q) : Rounds (.ofModel (.pack u)) q := by
  obtain ⟨M, E, hpos, rfl, hfull, hwithin⟩ := h
  exact ⟨_, represents_pack hfull hpos, hfull.normal, hwithin⟩

theorem mul_finite {m₁ m₂ : ℕ} {e₁ e₂ : ℤ} (h₁ : 0 < m₁) (h₂ : 0 < m₂) :
    UnpackedFloat.mul Format.binary64 (.finite .positive m₁ e₁ h₁) (.finite .positive m₂ e₂ h₂) =
      roundWithAccuracy Format.binary64 .positive (m₁ * m₂) (e₁ + e₂) .exact := rfl

/-- An integer with some zeros after it, scaled back. -/
theorem rounds_integer {m : ℕ} (hm : 0 < m) (hhigh : (m : ℚ) ≤ 2 ^ (200 : ℤ)) :
    Rounds (.ofModel (.pack (roundWithAccuracy Format.binary64 .positive (m <<< 53 * 1) (-53 + 0)
      .exact))) m := by
  have hbits : m <<< 53 * 1 = m * 2 ^ 53 := by rw [Nat.mul_one, Nat.shiftLeft_eq]
  have hlog : (m * 2 ^ 53).log2 = m.log2 + 53 := by
    obtain ⟨hle, hlt⟩ := (Nat.log2_eq_iff hm.ne').mp rfl
    refine (Nat.log2_eq_iff (by positivity)).mpr ⟨?_, ?_⟩
    · rw [pow_add]
      exact Nat.mul_le_mul_right _ hle
    · rw [show m.log2 + 53 + 1 = m.log2 + 1 + 53 by omega, pow_add]
      exact Nat.mul_lt_mul_of_pos_right hlt (by positivity)
  have hlog' : m.log2 < 201 := by
    refine (Nat.log2_lt hm.ne').mpr ?_
    have : m ≤ 2 ^ 200 := by exact_mod_cast hhigh
    omega
  have hexact : Approximates (m * 2 ^ 53) (m * 2 ^ 53 : ℕ) .exact := rfl
  have hround := rounds_within (e := -53 + 0) .positive (by omega) hexact (by omega) (by omega)
  rw [hbits]
  have hvalue : ((m * 2 ^ 53 : ℕ) : ℚ) * 2 ^ (-53 + 0 : ℤ) = m := by
    push_cast
    rw [mul_assoc]
    norm_num
  rw [hvalue] at hround
  exact rounds_of_within hround

section Scientific

variable {m e : ℕ} (hm : 0 < m) (hlow : (2 : ℚ) ^ (-200 : ℤ) ≤ m / 10 ^ e)
  (hhigh : (m / 10 ^ e : ℚ) ≤ 2 ^ (200 : ℤ))

include hm hlow hhigh

/-- A small integer divided by a small power of ten. -/
theorem rounds_tabulated (hsmall : m < 2 ^ 53) (he : e < 23) :
    Rounds (m.toUInt64.toFloat / tabulated ⟨e, he⟩) (m / 10 ^ e) := by
  obtain ⟨p₁, q₁, hp₁, hm', hvalue₁⟩ := unpack_ofNat hm hsmall
  obtain ⟨p₂, q₂, hp₂, he', hvalue₂⟩ := eq_of_isPowerOfTen (isPowerOfTen_tabulated ⟨e, he⟩)
  have hunpack : m.toUInt64.toFloat.toModel.unpack = .finite .positive p₁ q₁ hp₁ := by
    have hnat : m.toUInt64.toNat = m := Nat.mod_eq_of_lt (by omega)
    show (Float.Model.ofNat m.toUInt64.toNat).unpack = _
    rw [hnat, hm']
  rw [← hvalue₁, ← hvalue₂] at hlow hhigh ⊢
  have hdiv := div_within q₁ q₂ hp₁ hp₂ hlow hhigh
  rw [← hunpack, ← he'] at hdiv
  exact rounds_of_within hdiv

omit hhigh in
/-- The exponent is not cut off. -/
theorem exponent_le : 3 * e ≤ m.log2 + 200 := by
  obtain ⟨-, hlt⟩ := log_bounds hm 0
  rw [zpow_zero, mul_one, add_zero] at hlt
  have h : (2 : ℚ) ^ (-200 + 3 * e : ℤ) < 2 ^ (m.log2 + 1 : ℤ) := by
    calc (2 : ℚ) ^ (-200 + 3 * e : ℤ) = 2 ^ (-200 : ℤ) * 8 ^ e := by
          rw [zpow_add₀ (by norm_num), zpow_mul, zpow_natCast]
          norm_num
      _ ≤ 2 ^ (-200 : ℤ) * 10 ^ e := by gcongr; norm_num
      _ ≤ m := (le_div_iff₀ (by positivity)).mp hlow
      _ < 2 ^ (m.log2 + 1 : ℤ) := hlt
  rw [zpow_lt_zpow_iff_right₀ (by norm_num)] at h
  omega

/-- Any integer divided by any power of ten. -/
theorem rounds_ofScientific :
    Rounds (.ofModel (.ofScientific m (Int.negOfNat e))) (m / 10 ^ e) := by
  have hexponent := exponent_le hm hlow
  have hnat : (Int.negOfNat e) = -(e : ℤ) := Int.negOfNat_eq
  have hlarge : ¬ -(e : ℤ) > 2 ^ Format.binary64.exponentBits := by
    show ¬ -(e : ℤ) > 2 ^ 11
    omega
  have hsmall : ¬ -(e : ℤ) < -((2 ^ Format.binary64.exponentBits : ℤ) + m.log2) := by
    show ¬ -(e : ℤ) < -((2 ^ 11 : ℤ) + m.log2)
    omega
  unfold Float.Model.ofScientific UnpackedFloat.ofScientific
  rw [hnat, dif_neg hm.ne', if_neg hlarge, if_neg hsmall]
  by_cases hzero : e = 0
  · subst hzero
    rw [pow_zero, div_one] at hhigh
    have hbits : Format.binary64.mantissaBits = 53 := rfl
    simp only [Nat.cast_zero, neg_zero, le_refl, if_true, Int.toNat_zero, pow_zero, div_one,
      mul_finite, hbits]
    exact rounds_integer hm hhigh
  · rw [if_neg (by omega)]
    simp only [neg_neg, Int.toNat_natCast]
    have hdiv := div_within 0 0 hm (show 0 < 10 ^ e by positivity) (by simpa using hlow)
      (by simpa using hhigh)
    simp only [zpow_zero, mul_one, Nat.cast_pow, Nat.cast_ofNat] at hdiv
    exact rounds_of_within hdiv

end Scientific

theorem zero_div_tabulated : ∀ e : Fin 23,
    (0 : ℕ).toUInt64.toFloat / tabulated e = .ofModel (.pack (.zero .positive)) := by
  decide +kernel

theorem ofScientific_small {m e : ℕ} (hm : m < 2 ^ 53) (he : e < 23) :
    Float.ofScientific m true e = m.toUInt64.toFloat / tabulated ⟨e, he⟩ := by
  unfold Float.ofScientific
  rw [dif_pos ⟨hm, by omega⟩]
  rfl

theorem ofScientific_large {m e : ℕ} (h : ¬ (m < 2 ^ 53 ∧ e < 23)) :
    Float.ofScientific m true e = .ofModel (.ofScientific m (Int.negOfNat e)) := by
  unfold Float.ofScientific
  rw [dif_neg fun hsmall => h ⟨hsmall.1, by omega⟩]
  rfl

/-- A decimal is rounded to a number, if it is zero or neither too small nor too large. -/
theorem rounds_scientific (m e : ℕ) (hlow : 0 < m → (2 : ℚ) ^ (-200 : ℤ) ≤ m / 10 ^ e)
    (hhigh : (m / 10 ^ e : ℚ) ≤ 2 ^ (200 : ℤ)) :
    Rounds (Float.ofScientific m true e) (m / 10 ^ e) := by
  rcases Nat.eq_zero_or_pos m with rfl | hm
  · rw [Nat.cast_zero, zero_div]
    by_cases he : e < 23
    · rw [ofScientific_small (by norm_num) he, zero_div_tabulated]
      exact rounds_zero
    · rw [ofScientific_large fun h => he h.2]
      exact rounds_zero
  · by_cases h : m < 2 ^ 53 ∧ e < 23
    · rw [ofScientific_small h.1 h.2]
      exact rounds_tabulated hm (hlow hm) hhigh h.1 h.2
    · rw [ofScientific_large h]
      exact rounds_ofScientific hm (hlow hm) hhigh

/-! ## Texts of numbers -/

/-- A numeral is read as the number that its value is rounded to. -/
theorem rounds_numeralValue {cs : List Char} (h : Numeral cs)
    (hlow : 0 < fixed cs → (2 : ℚ) ^ (-200 : ℤ) ≤ fixed cs) (hhigh : fixed cs ≤ 2 ^ (200 : ℤ)) :
    Rounds (numeralValue cs) (fixed cs) := by
  have hfilter : cs.filter Piece.isDigit = cs.filter (· ≠ '.') := by
    refine List.filter_congr fun c hc => ?_
    obtain hdigit | rfl := h.2 c hc
    · have hne : c ≠ '.' := by
        rintro rfl
        cases hdigit
      rw [show Piece.isDigit c = true from hdigit, decide_eq_true hne]
    · rfl
  have hvalue : numeralValue cs = Float.ofScientific
      (Nat.ofDigitChars 10 (cs.filter (· ≠ '.')) 0) true (cs.dropWhile (· ≠ '.')).tail.length := by
    rw [numeralValue, hfilter, List.length_tail, Nat.ofDigitChars_eq_foldl]
  rw [hvalue]
  refine rounds_scientific _ _ (fun hpos => hlow ?_) hhigh
  exact div_pos (by exact_mod_cast hpos) (by positivity)

variable {layout : Layout}

/-- A text without an exponent is a numeral for the value of its digits. -/
theorem numeral_of_not_exponent {d : Digits} (h : 'e' ∉ layout.digits d) :
    Numeral (layout.digits d) ∧ fixed (layout.digits d) = d.value ∧
      (d.mantissa ≠ 0 → layout.positional d.point = true) := by
  cases hpositional : layout.positional d.point with
  | true => exact ⟨numeral_digits hpositional, fixed_digits hpositional, fun _ => rfl⟩
  | false =>
    unfold Layout.digits at h ⊢
    by_cases hzero : d.mantissa = 0
    · have hdigit : Nat.ofDigitChars 10 ['0'] 0 = 0 := by decide
      rw [if_pos hzero, fixed_whole (by decide), hdigit]
      refine ⟨⟨⟨'0', rfl, by decide⟩, List.forall_mem_singleton.mpr (.inl (by decide))⟩, ?_,
        fun hne => absurd hzero hne⟩
      simp [Digits.value, hzero]
    · rw [if_neg hzero, if_neg (by simp [hpositional])] at h
      exact absurd (by simp [exponentChars]) h

/-- A positive decimal lies between the powers of ten at its point. -/
theorem value_bounds {d : Digits} (h : d.mantissa ≠ 0) :
    (10 : ℚ) ^ (d.point - 1) ≤ d.value ∧ d.value < 10 ^ d.point := by
  have hten : (0 : ℚ) < 10 ^ d.exponent := by positivity
  have hlength : 0 < d.chars.length := List.length_pos_iff.mpr Nat.toDigits_ne_nil
  have hhigh : d.mantissa < 10 ^ d.chars.length :=
    (Nat.length_toDigits_le_iff (by norm_num) hlength).mp le_rfl
  have hlow : 10 ^ (d.chars.length - 1) ≤ d.mantissa := by
    rcases Nat.eq_zero_or_pos (d.chars.length - 1) with hone | hmore
    · rw [hone]
      omega
    · by_contra hlt
      have := (Nat.length_toDigits_le_iff (by norm_num) hmore).mpr (not_le.mp hlt)
      have : d.chars.length ≤ d.chars.length - 1 := this
      omega
  have hpoint : d.point - 1 = (d.chars.length - 1 : ℕ) + d.exponent := by
    rw [Digits.point]
    omega
  constructor
  · rw [hpoint, zpow_add₀ (by norm_num), zpow_natCast, Digits.value]
    exact mul_le_mul_of_nonneg_right (by exact_mod_cast hlow) hten.le
  · rw [Digits.point, add_comm, zpow_add₀ (by norm_num), zpow_natCast, Digits.value]
    exact mul_lt_mul_of_pos_right (by exact_mod_cast hhigh) hten

/-- The digits of a finite number, if they are written out not too far from the point, are read
as the number without its sign. -/
theorem numeralValue_digits {x : Float} (h : 'e' ∉ layout.digits
      ((Binary.ofBits x.toBits).shortest layout.tie))
    (hpoint : ∀ point, layout.positional point = true → -5 ≤ point ∧ point ≤ 20) :
    (if x.toBits >>> 63 = 0 then
      numeralValue (layout.digits ((Binary.ofBits x.toBits).shortest layout.tie))
    else -numeralValue (layout.digits ((Binary.ofBits x.toBits).shortest layout.tie))) = x := by
  have hwithin := (Binary.ofBits x.toBits).within_shortest layout.tie
  generalize (Binary.ofBits x.toBits).shortest layout.tie = d at h hwithin ⊢
  obtain ⟨hnumeral, hfixed, hpositional⟩ := numeral_of_not_exponent h
  have hrange : (d.value = 0 ∨ (2 : ℚ) ^ (-200 : ℤ) ≤ d.value) ∧ d.value ≤ 2 ^ (200 : ℤ) := by
    by_cases hzero : d.mantissa = 0
    · have hvalue : d.value = 0 := by simp [Digits.value, hzero]
      exact ⟨.inl hvalue, by rw [hvalue]; positivity⟩
    · obtain ⟨hlow, hhigh⟩ := value_bounds hzero
      obtain ⟨hleast, hgreatest⟩ := hpoint _ (hpositional hzero)
      have hleast' : (10 : ℚ) ^ (-6 : ℤ) ≤ 10 ^ (d.point - 1) :=
        zpow_le_zpow_right₀ (by norm_num) (by omega)
      have hgreatest' : (10 : ℚ) ^ d.point ≤ 10 ^ (20 : ℤ) :=
        zpow_le_zpow_right₀ (by norm_num) hgreatest
      refine ⟨.inr (le_trans ?_ (hleast'.trans hlow)), (hhigh.le.trans hgreatest').trans ?_⟩ <;>
        norm_num
  have hrounds : Rounds (numeralValue (layout.digits d)) d.value := by
    rw [← hfixed] at hrange ⊢
    exact rounds_numeralValue hnumeral (fun hpos => hrange.1.resolve_left hpos.ne') hrange.2
  obtain ⟨v, hrepresents, hnormal, hv⟩ := hrounds
  have hsame := Binary.within_unique hnormal (Binary.normal_ofBits x.toBits) hv hwithin
  exact (hsame ▸ hrepresents).eq

end Treewalk.Decimal
