import Treewalk.Proofs.Decimal.Packing

/-!
# Rounding to the nearest number

Arithmetic computes a significand that is too long, says how far it is below the exact result,
cuts it off and rounds. What comes out is the number in whose rounding interval the exact result
is.

Results:

* `Approximates.nearest`: rounding to an integer, ties to even.
* `rounds_within`: rounding to a number.
* `div_within`: division.
-/
namespace Treewalk.Decimal

open Float.Model Float.Model.UnpackedFloat

/-! ## Integers -/

/-- `m` is the integer below `q`, and `q` is as far above it as the accuracy says. -/
def Approximates (m : ℕ) (q : ℚ) : Accuracy → Prop
  | .exact => q = m
  | .inexact .lt => m < q ∧ q < m + 1 / 2
  | .inexact .eq => q = m + 1 / 2
  | .inexact .gt => m + 1 / 2 < q ∧ q < m + 1

/-- `r` is an integer nearest to `q`, and an even one if there are two. -/
structure Nearest (r : ℕ) (q : ℚ) : Prop where
  ge : r - 1 / 2 ≤ q
  le : q ≤ r + 1 / 2
  odd : r % 2 = 1 → r - 1 / 2 < q ∧ q < r + 1 / 2

theorem Approximates.bounds {m : ℕ} {q : ℚ} {acc : Accuracy} (h : Approximates m q acc) :
    m ≤ q ∧ q < m + 1 := by
  cases acc with
  | exact =>
    have h : q = m := h
    constructor <;> linarith
  | inexact o =>
    cases o with
    | eq =>
      have h : q = m + 1 / 2 := h
      constructor <;> linarith
    | lt => exact ⟨h.1.le, by linarith [h.2]⟩
    | gt => exact ⟨by linarith [h.1], h.2⟩

theorem Approximates.nearest {m : ℕ} {q : ℚ} {acc : Accuracy} (h : Approximates m q acc) :
    Nearest (acc.roundToNearestEven m) q := by
  cases acc with
  | exact =>
    have h : q = m := h
    simp only [Accuracy.roundToNearestEven]
    exact ⟨by linarith, by linarith, fun _ => ⟨by linarith, by linarith⟩⟩
  | inexact o =>
    cases o with
    | eq =>
      have h : q = m + 1 / 2 := h
      simp only [Accuracy.roundToNearestEven]
      rcases Nat.mod_two_eq_zero_or_one m with heven | hodd
      · rw [heven]
        exact ⟨by push_cast; linarith, by push_cast; linarith, by omega⟩
      · rw [hodd]
        exact ⟨by push_cast; linarith, by push_cast; linarith, by omega⟩
    | lt =>
      obtain ⟨hlow, hhigh⟩ := h
      simp only [Accuracy.roundToNearestEven]
      exact ⟨by linarith, by linarith, fun _ => ⟨by linarith, by linarith⟩⟩
    | gt =>
      obtain ⟨hlow, hhigh⟩ := h
      simp only [Accuracy.roundToNearestEven]
      exact ⟨by push_cast; linarith, by push_cast; linarith,
        fun _ => ⟨by push_cast; linarith, by push_cast; linarith⟩⟩

theorem rounded_bounds (m : ℕ) (acc : Accuracy) :
    m ≤ acc.roundToNearestEven m ∧ acc.roundToNearestEven m ≤ m + 1 := by
  cases acc with
  | exact => exact ⟨le_rfl, Nat.le_succ m⟩
  | inexact o => cases o <;> (simp only [Accuracy.roundToNearestEven]; omega)

/-! ## Cutting off bits -/

/-- The significand with its two extra bits says where `q` is. -/
def Locates (em : ExtendedMantissa) (q : ℚ) : Prop := Approximates em.mantissa q em.accuracy

theorem locates_of_approximates {m : ℕ} {q : ℚ} {acc : Accuracy} (h : Approximates m q acc) :
    Locates (.ofMantissaAndAccuracy m acc) q := by
  cases acc with
  | exact => exact h
  | inexact o => cases o <;> exact h

/-- Without its last bit the significand says where half of `q` is. -/
theorem Locates.shiftRightOne {em : ExtendedMantissa} {q : ℚ} (h : Locates em q) :
    Locates em.shiftRightOne (q / 2) := by
  obtain ⟨m, round, sticky⟩ := em
  have hm : (m : ℚ) = 2 * (m / 2 : ℕ) + (m % 2 : ℕ) := by exact_mod_cast (Nat.div_add_mod m 2).symm
  unfold Locates at h ⊢
  rcases Nat.mod_two_eq_zero_or_one m with heven | hodd
  · rw [heven] at hm
    cases round <;> cases sticky <;>
      simp [ExtendedMantissa.shiftRightOne, ExtendedMantissa.accuracy, heven, Approximates]
        at h ⊢ <;>
      grind
  · rw [hodd] at hm
    cases round <;> cases sticky <;>
      simp [ExtendedMantissa.shiftRightOne, ExtendedMantissa.accuracy, hodd, Approximates]
        at h ⊢ <;>
      grind

theorem Locates.shiftRight {em : ExtendedMantissa} {q : ℚ} (h : Locates em q) (k : ℕ) :
    Locates (em >>> k) (q / 2 ^ k) := by
  induction k with
  | zero =>
    rw [pow_zero, div_one]
    exact h
  | succ k ih =>
    rw [pow_succ, ← div_div]
    exact ih.shiftRightOne

theorem mantissa_shiftRight (em : ExtendedMantissa) (k : ℕ) :
    (em >>> k).mantissa = em.mantissa / 2 ^ k := by
  induction k with
  | zero => exact (Nat.div_one _).symm
  | succ k ih =>
    show (em >>> k).mantissa / 2 = _
    rw [ih, Nat.div_div_eq_div_mul, pow_succ]

/-! ## Numbers -/

theorem mantissa_ofMantissaAndAccuracy (m : ℕ) (acc : Accuracy) :
    (ExtendedMantissa.ofMantissaAndAccuracy m acc).mantissa = m := by
  cases acc with
  | exact => rfl
  | inexact o => cases o <;> rfl

/-- A significand with bits to spare is cut to as many as numbers have. -/
theorem shiftToTargetExponent_eq {m : ℕ} {e : ℤ} {k : ℕ} (hlog : m.log2 = 52 + k)
    (he : -1074 ≤ e + k) (acc : Accuracy) :
    shiftToTargetExponent Format.binary64 m e acc =
      (ExtendedMantissa.ofMantissaAndAccuracy m acc >>> k, e + k) := by
  have htarget : Format.binary64.targetExponent (totalExponent m e) = e + k := by
    simp [Format.targetExponent, totalExponent, Format.mantissaBits, Format.minExponent, hlog]
    omega
  have hshift : (e + k - e).toNat = k := by omega
  unfold shiftToTargetExponent
  rw [htarget, shiftToExponent, hshift]

/-- Rounding a significand with bits to spare: cut it, round it, and cut it again if it has
become too long. -/
theorem roundWithAccuracy_eq {m : ℕ} {e : ℤ} {k r j : ℕ} {acc : Accuracy} (s : Sign)
    (hlog : m.log2 = 52 + k) (he : -1074 ≤ e + k)
    (hr : (ExtendedMantissa.ofMantissaAndAccuracy m acc >>> k).roundedMantissa = r)
    (hlogr : r.log2 = 52 + j) (hpos : 0 < r / 2 ^ j) :
    roundWithAccuracy Format.binary64 s m e acc = .finite s (r / 2 ^ j) (e + k + j) hpos := by
  unfold roundWithAccuracy
  rw [shiftToTargetExponent_eq hlog he]
  dsimp only
  rw [hr, shiftToTargetExponent_eq hlogr (by omega)]
  simp only [mantissa_shiftRight, mantissa_ofMantissaAndAccuracy]
  rw [dif_neg hpos.ne']

/-- The leading 53 bits of a significand. -/
theorem leading_bits {n k : ℕ} (hn : n ≠ 0) (hlog : n.log2 = 52 + k) :
    2 ^ 52 ≤ n / 2 ^ k ∧ n / 2 ^ k < 2 ^ 53 := by
  obtain ⟨hle, hlt⟩ := (Nat.log2_eq_iff hn).mp hlog
  rw [Nat.le_div_iff_mul_le (by positivity), Nat.div_lt_iff_lt_mul (by positivity),
    ← pow_add, ← pow_add]
  exact ⟨hle, by rwa [show 53 + k = 52 + k + 1 by omega]⟩

/-- An interval in units of the significand. -/
theorem within_scaled {v : Binary} {p : ℚ} : v.Within (p * 2 ^ v.exponent) ↔
    if v.significand % 2 = 0 then v.low ≤ 4 * p ∧ 4 * p ≤ v.high
    else v.low < 4 * p ∧ 4 * p < v.high := by
  have hquarter : p * 2 ^ v.exponent = 4 * p * v.quarter := by
    rw [Binary.quarter, zpow_sub₀ (by norm_num)]
    norm_num
    ring
  unfold Binary.Within
  rw [hquarter]
  simp only [mul_le_mul_iff_left₀ v.quarter_pos, mul_lt_mul_iff_left₀ v.quarter_pos]

/-- The lower end of an interval, which is nearer where the exponent changes. -/
theorem cast_low {v : Binary} (hv : 0 < v.significand) :
    (v.low : ℚ) = 4 * v.significand - if v.narrowBelow then 1 else 2 := by
  unfold Binary.low
  rw [Nat.cast_sub (by split <;> omega)]
  split <;> push_cast <;> rfl

/-- What is nearest to `p` and no longer than a significand has `p` in its rounding interval. -/
theorem Nearest.within_kept {r : ℕ} {p : ℚ} {e : ℤ} (h : Nearest r p) (hp : 2 ^ 52 ≤ p)
    (hr : 0 < r) : Binary.Within ⟨r, e, r = 2 ^ 52 && e ≠ -1074⟩ (p * 2 ^ e) := by
  have hge := h.ge
  have hle := h.le
  refine within_scaled.mpr ?_
  rw [cast_low hr]
  dsimp only [Binary.high]
  push_cast
  split
  · refine ⟨?_, by linarith⟩
    split
    · -- The number is the least one with its exponent, and `p` is not below it.
      rename_i hnarrow
      have hleast : r = 2 ^ 52 := by simp at hnarrow; exact hnarrow.1
      rw [hleast]
      norm_num
      linarith
    · linarith
  · rename_i hodd
    obtain ⟨hlow, hhigh⟩ := h.odd (by omega)
    refine ⟨?_, by linarith⟩
    rw [if_neg (by simp; omega)]
    linarith

/-- Rounding may carry into one more bit, which is then cut off: the number is the least one of
the next exponent. -/
theorem Nearest.within_carried {p : ℚ} {e : ℤ} (h : Nearest (2 ^ 53) p) :
    Binary.Within ⟨2 ^ 52, e + 1, (2 ^ 52 : ℕ) = 2 ^ 52 && e + 1 ≠ -1074⟩ (p * 2 ^ e) := by
  have hge := h.ge
  have hle := h.le
  have hhalf : p * 2 ^ e = p / 2 * 2 ^ (e + 1) := by
    rw [zpow_add_one₀ (by norm_num)]
    ring
  rw [hhalf]
  refine within_scaled.mpr ?_
  rw [cast_low (by norm_num), if_pos (by norm_num)]
  dsimp only [Binary.high]
  norm_num at hge hle ⊢
  refine ⟨?_, by linarith⟩
  split <;> linarith

/-- What is nearest to `p` has `p` in its rounding interval. -/
theorem Nearest.within {r j : ℕ} {p : ℚ} {e : ℤ} (h : Nearest r p) (hp : 2 ^ 52 ≤ p)
    (hhigh : r ≤ 2 ^ 53) (hlog : r.log2 = 52 + j) :
    Binary.Within ⟨r / 2 ^ j, e + j, r / 2 ^ j = 2 ^ 52 && e + j ≠ -1074⟩ (p * 2 ^ e) := by
  have hr : r ≠ 0 := by
    rintro rfl
    rw [Nat.log2_zero] at hlog
    omega
  obtain ⟨hle, hlt⟩ := (Nat.log2_eq_iff hr).mp hlog
  have hj : j = 0 ∨ j = 1 := by
    by_contra hj
    have : 2 ^ (52 + 2) ≤ 2 ^ (52 + j) := Nat.pow_le_pow_right (by norm_num) (by omega)
    omega
  rcases hj with rfl | rfl
  · rw [Nat.pow_zero, Nat.div_one, Nat.cast_zero, add_zero]
    exact h.within_kept hp (Nat.pos_of_ne_zero hr)
  · obtain rfl : r = 2 ^ 53 := by omega
    exact h.within_carried

/-- A significand with bits to spare is rounded to the number in whose interval the exact
result is. -/
theorem rounds_within {m : ℕ} {e : ℤ} {q : ℚ} {acc : Accuracy} (s : Sign) (hm : 2 ^ 52 ≤ m)
    (hq : Approximates m q acc) (hlow : -1022 ≤ m.log2 + e) (hhigh : m.log2 + e ≤ 1022) :
    ∃ M E hpos, roundWithAccuracy Format.binary64 s m e acc = .finite s M E hpos ∧ Full M E ∧
      Binary.Within ⟨M, E, M = 2 ^ 52 && E ≠ -1074⟩ (q * 2 ^ e) := by
  have hmpos : 0 < m := by omega
  obtain ⟨k, hk⟩ : ∃ k, m.log2 = 52 + k :=
    Nat.exists_eq_add_of_le ((Nat.le_log2 hmpos.ne').mpr hm)
  -- The significand as it is cut, before it is rounded.
  have hlocates := (locates_of_approximates hq).shiftRight k
  have hmantissa : (ExtendedMantissa.ofMantissaAndAccuracy m acc >>> k).mantissa = m / 2 ^ k := by
    rw [mantissa_shiftRight, mantissa_ofMantissaAndAccuracy]
  generalize hem : ExtendedMantissa.ofMantissaAndAccuracy m acc >>> k = em at hlocates hmantissa
  have hcut : 2 ^ 52 ≤ em.mantissa ∧ em.mantissa < 2 ^ 53 := by
    rw [hmantissa]
    exact leading_bits hmpos.ne' hk
  have hp : (2 : ℚ) ^ 52 ≤ q / 2 ^ k := le_trans (by exact_mod_cast hcut.1) hlocates.bounds.1
  have hnearest : Nearest em.roundedMantissa (q / 2 ^ k) := hlocates.nearest
  obtain ⟨hrlow, hrhigh⟩ : 2 ^ 52 ≤ em.roundedMantissa ∧ em.roundedMantissa ≤ 2 ^ 53 := by
    have := rounded_bounds em.mantissa em.accuracy
    unfold ExtendedMantissa.roundedMantissa
    omega
  generalize hr : em.roundedMantissa = r at hnearest hrlow hrhigh
  have hrpos : 0 < r := by omega
  obtain ⟨j, hj⟩ : ∃ j, r.log2 = 52 + j :=
    Nat.exists_eq_add_of_le ((Nat.le_log2 hrpos.ne').mpr hrlow)
  have hM := leading_bits hrpos.ne' hj
  have hwithin := hnearest.within (e := e + k) hp hrhigh hj
  have hscale : q / 2 ^ k * 2 ^ (e + k) = q * 2 ^ e := by
    rw [zpow_add₀ (by norm_num), zpow_natCast]
    field_simp
  rw [hscale] at hwithin
  have hlog1 : r.log2 < 54 := (Nat.log2_lt hrpos.ne').mpr (by omega)
  refine ⟨r / 2 ^ j, e + k + j, by omega, ?_, ⟨hM.1, hM.2, by omega, by omega⟩, hwithin⟩
  exact roundWithAccuracy_eq s hk (by omega) (by rw [hem, hr]) hj _

/-! ## Quotients -/

/-- The accuracy of a division says where the remainder's fraction of the divisor is. -/
theorem approximates_fraction (whole : ℕ) {rest n : ℕ} (hlt : rest < n) :
    Approximates whole (whole + rest / n) (accuracyOfFraction rest n) := by
  have hn : (0 : ℚ) < n := by exact_mod_cast Nat.zero_lt_of_lt hlt
  unfold accuracyOfFraction
  split
  · rename_i hzero
    subst hzero
    simp [Approximates]
  · rename_i hzero
    have hfraction : (0 : ℚ) < rest / n :=
      div_pos (by exact_mod_cast Nat.pos_of_ne_zero hzero) hn
    have hone : (rest / n : ℚ) < 1 := (div_lt_one hn).mpr (by exact_mod_cast hlt)
    cases hcompare : compare (2 * rest) n with
    | lt =>
      have h : 2 * rest < n := Nat.compare_eq_lt.mp hcompare
      have : (rest / n : ℚ) < 1 / 2 := by
        rw [div_lt_div_iff₀ hn (by norm_num)]
        exact_mod_cast (by omega : rest * 2 < 1 * n)
      exact ⟨by linarith, by linarith⟩
    | eq =>
      have h : 2 * rest = n := Nat.compare_eq_eq.mp hcompare
      have : (rest / n : ℚ) = 1 / 2 := by
        rw [div_eq_div_iff hn.ne' (by norm_num)]
        exact_mod_cast (by omega : rest * 2 = 1 * n)
      show _ = _
      linarith
    | gt =>
      have h : n < 2 * rest := Nat.compare_eq_gt.mp hcompare
      have : (1 / 2 : ℚ) < rest / n := by
        rw [div_lt_div_iff₀ (by norm_num) hn]
        exact_mod_cast (by omega : 1 * n < rest * 2)
      exact ⟨by linarith, by linarith⟩

theorem approximates_div (m : ℕ) {n : ℕ} (hn : 0 < n) :
    Approximates (m / n) (m / n) (accuracyOfFraction (m % n) n) := by
  have hnq : (n : ℚ) ≠ 0 := by exact_mod_cast hn.ne'
  have hm : (m : ℚ) = n * (m / n : ℕ) + (m % n : ℕ) := by exact_mod_cast (Nat.div_add_mod m n).symm
  have hq : (m / n : ℚ) = (m / n : ℕ) + (m % n : ℕ) / n := by
    nth_rewrite 1 [hm]
    field_simp
  rw [hq]
  exact approximates_fraction _ (Nat.mod_lt m hn)

/-- A number lies between two powers of two. -/
theorem log_bounds {m : ℕ} (hm : 0 < m) (e : ℤ) :
    (2 : ℚ) ^ (m.log2 + e) ≤ m * 2 ^ e ∧ m * 2 ^ e < (2 : ℚ) ^ (m.log2 + e + 1) := by
  obtain ⟨hle, hlt⟩ := (Nat.log2_eq_iff hm.ne').mp rfl
  have he : (0 : ℚ) < 2 ^ e := by positivity
  constructor
  · rw [zpow_add₀ (by norm_num), zpow_natCast]
    exact mul_le_mul_of_nonneg_right (by exact_mod_cast hle) he.le
  · rw [show (m.log2 + e + 1 : ℤ) = (m.log2 + 1 : ℕ) + e by push_cast; ring,
      zpow_add₀ (by norm_num), zpow_natCast]
    exact mul_lt_mul_of_pos_right (by exact_mod_cast hlt) he

section Quotient

variable {m₁ m₂ : ℕ} (e₁ e₂ : ℤ)

/-- The dividend gets so many bits that the quotient has bits to spare. -/
theorem divCore_eq (h : -1000 ≤ (m₁.log2 + e₁) - (m₂.log2 + e₂)) :
    ∃ k : ℕ, m₂.log2 + 53 ≤ m₁.log2 + k ∧
      divCore Format.binary64 m₁ e₁ m₂ e₂ = (m₁ * 2 ^ k / m₂, e₁ - e₂ - k,
        accuracyOfFraction (m₁ * 2 ^ k % m₂) m₂) := by
  have htarget : Format.binary64.targetExponent (totalExponent m₁ e₁ - totalExponent m₂ e₂) =
      (m₁.log2 + e₁) - (m₂.log2 + e₂) - 53 := by
    simp [Format.targetExponent, totalExponent, Format.mantissaBits, Format.minExponent]
    omega
  refine ⟨(e₁ - e₂ - min (e₁ - e₂) ((m₁.log2 + e₁) - (m₂.log2 + e₂) - 53)).toNat, by omega, ?_⟩
  unfold divCore
  rw [htarget]
  simp only [Nat.shiftLeft_eq, Prod.mk.injEq, true_and, and_true]
  omega

/-- How many bits the quotient has. -/
theorem log2_quotient (h₁ : 0 < m₁) (h₂ : 0 < m₂) {k : ℕ} (hk : m₂.log2 + 53 ≤ m₁.log2 + k) :
    2 ^ 52 ≤ m₁ * 2 ^ k / m₂ ∧ m₁.log2 + k ≤ (m₁ * 2 ^ k / m₂).log2 + m₂.log2 + 1 ∧
      (m₁ * 2 ^ k / m₂).log2 + m₂.log2 ≤ m₁.log2 + k := by
  obtain ⟨hle₁, hlt₁⟩ := (Nat.log2_eq_iff h₁.ne').mp rfl
  obtain ⟨hle₂, hlt₂⟩ := (Nat.log2_eq_iff h₂.ne').mp rfl
  obtain ⟨d, hd⟩ : ∃ d, m₁.log2 + k = m₂.log2 + 53 + d := Nat.exists_eq_add_of_le hk
  have hdividend : 2 ^ (m₁.log2 + k) ≤ m₁ * 2 ^ k ∧ m₁ * 2 ^ k < 2 ^ (m₁.log2 + k + 1) := by
    rw [show m₁.log2 + k + 1 = m₁.log2 + 1 + k by omega, pow_add, pow_add _ _ k]
    exact ⟨Nat.mul_le_mul_right _ hle₁, Nat.mul_lt_mul_of_pos_right hlt₁ (by positivity)⟩
  have hlow : 2 ^ (52 + d) ≤ m₁ * 2 ^ k / m₂ := by
    rw [Nat.le_div_iff_mul_le h₂]
    calc 2 ^ (52 + d) * m₂ ≤ 2 ^ (52 + d) * 2 ^ (m₂.log2 + 1) := Nat.mul_le_mul_left _ hlt₂.le
      _ = 2 ^ (m₁.log2 + k) := by rw [← pow_add, hd]; congr 1; omega
      _ ≤ m₁ * 2 ^ k := hdividend.1
  have hhigh : m₁ * 2 ^ k / m₂ < 2 ^ (54 + d) := by
    rw [Nat.div_lt_iff_lt_mul h₂]
    calc m₁ * 2 ^ k < 2 ^ (m₁.log2 + k + 1) := hdividend.2
      _ = 2 ^ (54 + d) * 2 ^ m₂.log2 := by rw [← pow_add, hd]; congr 1; omega
      _ ≤ 2 ^ (54 + d) * m₂ := Nat.mul_le_mul_left _ hle₂
  have hpos : m₁ * 2 ^ k / m₂ ≠ 0 := by
    have : 0 < 2 ^ (52 + d) := by positivity
    omega
  have hlog : 52 + d ≤ (m₁ * 2 ^ k / m₂).log2 := (Nat.le_log2 hpos).mpr hlow
  have hlog' : (m₁ * 2 ^ k / m₂).log2 < 54 + d := (Nat.log2_lt hpos).mpr hhigh
  refine ⟨le_trans (Nat.pow_le_pow_right (by norm_num) (by omega)) hlow, by omega, by omega⟩

/-- Division gives the number in whose rounding interval the exact quotient is. -/
theorem div_within (h₁ : 0 < m₁) (h₂ : 0 < m₂)
    (hlow : (2 : ℚ) ^ (-200 : ℤ) ≤ m₁ * 2 ^ e₁ / (m₂ * 2 ^ e₂))
    (hhigh : m₁ * 2 ^ e₁ / (m₂ * 2 ^ e₂) ≤ (2 : ℚ) ^ (200 : ℤ)) :
    ∃ M E hpos, UnpackedFloat.div Format.binary64 (.finite .positive m₁ e₁ h₁)
        (.finite .positive m₂ e₂ h₂) = .finite .positive M E hpos ∧ Full M E ∧
      Binary.Within ⟨M, E, M = 2 ^ 52 && E ≠ -1074⟩ (m₁ * 2 ^ e₁ / (m₂ * 2 ^ e₂)) := by
  obtain ⟨hle₁, hlt₁⟩ := log_bounds h₁ e₁
  obtain ⟨hle₂, hlt₂⟩ := log_bounds h₂ e₂
  have hm₂ : (0 : ℚ) < m₂ * 2 ^ e₂ := lt_of_lt_of_le (by positivity) hle₂
  -- The quotient is neither too large nor too small, and so are the leading bits.
  have hbelow : (2 : ℚ) ^ (m₁.log2 + e₁ : ℤ) < 2 ^ (200 + (m₂.log2 + e₂ + 1) : ℤ) := by
    rw [zpow_add₀ (by norm_num) (200 : ℤ)]
    exact (hle₁.trans ((div_le_iff₀ hm₂).mp hhigh)).trans_lt
      (mul_lt_mul_of_pos_left hlt₂ (by positivity))
  have habove : (2 : ℚ) ^ (-200 + (m₂.log2 + e₂) : ℤ) < 2 ^ (m₁.log2 + e₁ + 1 : ℤ) := by
    rw [zpow_add₀ (by norm_num) (-200 : ℤ)]
    exact ((mul_le_mul_of_nonneg_left hle₂ (by positivity)).trans
      ((le_div_iff₀ hm₂).mp hlow)).trans_lt hlt₁
  rw [zpow_lt_zpow_iff_right₀ (by norm_num)] at hbelow habove
  obtain ⟨k, hk, hcore⟩ := divCore_eq e₁ e₂
    (show -1000 ≤ (m₁.log2 + e₁ : ℤ) - (m₂.log2 + e₂) by omega)
  obtain ⟨hbits, hlog, hlog'⟩ := log2_quotient h₁ h₂ hk
  have hexact : ((m₁ * 2 ^ k : ℕ) / m₂ : ℚ) * 2 ^ (e₁ - e₂ - k) =
      m₁ * 2 ^ e₁ / (m₂ * 2 ^ e₂) := by
    rw [zpow_sub₀ (by norm_num), zpow_sub₀ (by norm_num), zpow_natCast]
    push_cast
    field_simp
  have hround := rounds_within (e := e₁ - e₂ - k) .positive hbits
    (approximates_div (m₁ * 2 ^ k) h₂) (by omega) (by omega)
  rw [hexact] at hround
  unfold UnpackedFloat.div
  dsimp only
  rw [hcore]
  exact hround

end Quotient

end Treewalk.Decimal
