import Mathlib.Algebra.Order.Field.Power
import Mathlib.Data.Rat.Cast.Order
import Mathlib.Tactic.FieldSimp
import Mathlib.Tactic.Linarith
import Mathlib.Tactic.Positivity
import Mathlib.Tactic.Ring
import Treewalk.Decimal.Layout

/-!
# Shortest decimals read back

The rounding interval of a binary number holds all real numbers that read back as it, and no
real number reads back as two different ones. The shortest decimal of a number is in its
interval, so it tells the number apart from all others.

Results:

* `accepts_iff`: `accepts` compares a decimal with the rounding interval.
* `within_shortest`: the shortest decimal is in the rounding interval.
* `within_unique`: rounding intervals do not overlap.
-/
namespace Treewalk.Decimal

/-! ## Values -/

/-- The number that digits stand for. -/
def Digits.value (d : Digits) : ℚ := d.mantissa * 10 ^ d.exponent

/-- Trailing zeros go into the exponent. -/
theorem Digits.value_trim (d : Digits) : d.trim.value = d.value := by
  fun_induction Digits.trim d with
  | case1 d h ih =>
    have hmantissa : (d.mantissa : ℚ) = (d.mantissa / 10 : ℕ) * 10 := by
      have h10 : d.mantissa = d.mantissa / 10 * 10 := by omega
      exact_mod_cast h10
    rw [ih, Digits.value, Digits.value, hmantissa, zpow_add_one₀ (by norm_num)]
    ring
  | case2 d h => rfl

/-- A power with a sign as a quotient of two powers without. -/
theorem pow_toNat {b : ℚ} (hb : b ≠ 0) (k : ℤ) : b ^ k.toNat = b ^ (-k).toNat * b ^ k := by
  rw [← zpow_natCast, ← zpow_natCast, ← zpow_add₀ hb]
  congr 1
  omega

namespace Binary

/-- A quarter of the distance to the next number. -/
def quarter (v : Binary) : ℚ := 2 ^ (v.exponent - 2)

theorem quarter_pos (v : Binary) : 0 < v.quarter := by
  unfold quarter
  positivity

/-- The real number reads back as `v`: it is in the rounding interval, whose ends belong to it
if the significand is even. -/
def Within (v : Binary) (x : ℚ) : Prop :=
  if v.significand % 2 = 0 then v.low * v.quarter ≤ x ∧ x ≤ v.high * v.quarter
  else v.low * v.quarter < x ∧ x < v.high * v.quarter

/-! ## Comparing on a common scale -/

section Scale

variable (v : Binary) (k : ℤ) (x d : ℕ)

theorem scale_pos : 0 < ((v.scale k).2 : ℚ) := by
  have h : 0 < (v.scale k).2 := by
    simp [scale, Nat.shiftLeft_eq]
  exact_mod_cast h

theorem scale_eq : ((v.scale k).1 : ℚ) = (v.scale k).2 * (10 ^ k / v.quarter) := by
  have h10 := pow_toNat (b := 10) (by norm_num) k
  have h2 := pow_toNat (b := 2) (by norm_num) (2 - v.exponent)
  have hquarter : (2 : ℚ) ^ (2 - v.exponent) = 1 / v.quarter := by
    rw [quarter, one_div, ← zpow_neg, neg_sub]
  rw [hquarter, neg_sub] at h2
  simp only [scale, Nat.shiftLeft_eq, Nat.pow_eq]
  push_cast
  rw [h10, h2]
  ring

/-- Quarter units and multiples of `10^k` compare as the numbers that they are. -/
theorem scale_le : x * (v.scale k).2 ≤ d * (v.scale k).1 ↔ x * v.quarter ≤ d * 10 ^ k := by
  rw [← Nat.cast_le (α := ℚ)]
  push_cast
  rw [scale_eq, ← mul_assoc, mul_comm (d : ℚ), mul_assoc, mul_comm (x : ℚ)]
  rw [mul_le_mul_iff_right₀ (scale_pos v k), ← mul_div_assoc, le_div_iff₀ v.quarter_pos]

theorem scale_ge : d * (v.scale k).1 ≤ x * (v.scale k).2 ↔ d * 10 ^ k ≤ x * v.quarter := by
  rw [← Nat.cast_le (α := ℚ)]
  push_cast
  rw [scale_eq, ← mul_assoc, mul_comm (d : ℚ), mul_assoc, mul_comm (x : ℚ)]
  rw [mul_le_mul_iff_right₀ (scale_pos v k), ← mul_div_assoc, div_le_iff₀ v.quarter_pos]

end Scale

/-- A decimal is accepted if it is in the rounding interval. -/
theorem accepts_iff (v : Binary) (d : ℕ) (k : ℤ) :
    v.accepts d k = true ↔ v.Within (Digits.value ⟨d, k⟩) := by
  unfold accepts Within
  simp only [Digits.value]
  split
  · simp [scale_le, scale_ge]
  · simp [← not_le, scale_le, scale_ge]

/-! ## The shortest decimal -/

/-- A candidate is accepted, whichever of the two neighbours it is. -/
theorem candidate_within {v : Binary} {tie : Halfway} {k : ℤ} {d : Digits}
    (h : v.candidate tie k = some d) : v.Within d.value := by
  unfold candidate at h
  simp only at h
  generalize hd : 4 * v.significand * (v.scale k).2 / (v.scale k).1 = n at h
  have hnext : ∀ {m : ℕ}, v.accepts m k = true → some ⟨m, k⟩ = some d → v.Within d.value := by
    intro m hm hsome
    rw [← Option.some.inj hsome]
    exact (accepts_iff v m k).mp hm
  split at h
  · cases h
  · exact hnext ‹_› h
  · exact hnext ‹_› h
  · rename_i hlow hhigh
    split at h
    · exact hnext hlow h
    · exact hnext hhigh h
    · cases tie with
      | up => exact hnext hhigh h
      | toEven =>
        rcases Nat.mod_two_eq_zero_or_one n with heven | hodd
        · rw [heven] at h
          exact hnext hlow h
        · rw [hodd] at h
          exact hnext hhigh h

theorem value_exact (v : Binary) : v.exact.value = 4 * v.significand * v.quarter := by
  have h2 := pow_toNat (b := 2) (by norm_num) v.exponent
  have hmin : ((-v.exponent).toNat : ℤ) = -min v.exponent 0 := by omega
  have h10 : (10 : ℚ) ^ min v.exponent 0 * 10 ^ (-v.exponent).toNat = 1 := by
    rw [← zpow_natCast, ← zpow_add₀ (by norm_num), hmin, add_neg_cancel, zpow_zero]
  have hten : (10 : ℚ) ^ (-v.exponent).toNat = 2 ^ (-v.exponent).toNat * 5 ^ (-v.exponent).toNat := by
    rw [← mul_pow]
    norm_num
  have hquarter : (2 : ℚ) ^ v.exponent = 4 * v.quarter := by
    rw [quarter, zpow_sub₀ (by norm_num)]
    norm_num
    ring
  rw [hten] at h10
  simp only [Digits.value, exact, Nat.shiftLeft_eq, Nat.pow_eq]
  push_cast
  rw [h2, hquarter]
  calc (v.significand : ℚ) * (2 ^ (-v.exponent).toNat * (4 * v.quarter)) *
        5 ^ (-v.exponent).toNat * 10 ^ min v.exponent 0
      = 4 * v.significand * v.quarter * (10 ^ min v.exponent 0 *
        (2 ^ (-v.exponent).toNat * 5 ^ (-v.exponent).toNat)) := by ring
    _ = 4 * v.significand * v.quarter := by rw [h10, mul_one]

/-- Natural multiples of a quarter compare as the naturals do. -/
theorem quarter_le (v : Binary) {m n : ℕ} (h : m ≤ n) : m * v.quarter ≤ n * v.quarter :=
  mul_le_mul_of_nonneg_right (Nat.cast_le.mpr h) v.quarter_pos.le

theorem quarter_lt (v : Binary) {m n : ℕ} (h : m < n) : m * v.quarter < n * v.quarter :=
  mul_lt_mul_of_pos_right (Nat.cast_lt.mpr h) v.quarter_pos

/-- A number is in its own rounding interval. -/
theorem within_self (v : Binary) : v.Within (4 * v.significand * v.quarter) := by
  rw [show (4 * v.significand : ℚ) = (4 * v.significand : ℕ) by push_cast; rfl]
  unfold Within
  split
  · exact ⟨v.quarter_le (Nat.sub_le _ _), v.quarter_le (Nat.le_add_right _ _)⟩
  · have hlow : v.low < 4 * v.significand := by
      unfold low
      split <;> omega
    exact ⟨v.quarter_lt hlow, v.quarter_lt (Nat.lt_add_of_pos_right (by norm_num))⟩

/-- The shortest decimal reads back as the number. -/
theorem within_shortest (v : Binary) (tie : Halfway) : v.Within (v.shortest tie).value := by
  have hself := v.within_self
  unfold shortest
  split
  · rename_i hzero
    simpa [Digits.value, hzero] using hself
  · rw [Digits.value_trim]
    cases hfound : (List.range 17).findSome? fun n =>
        v.candidate tie (v.magnitude - (n + 1 : Nat)) with
    | none =>
      rw [← value_exact] at hself
      exact hself
    | some d =>
      obtain ⟨n, -, hcandidate⟩ := List.exists_of_findSome?_eq_some hfound
      exact candidate_within hcandidate

/-! ## Different numbers -/

/-- A number that a 64-bit pattern stands for: as many leading bits as possible are used, and
the lower neighbour is nearer exactly where the exponent changes. -/
structure Normal (v : Binary) : Prop where
  exponent : -1074 ≤ v.exponent
  significand : v.significand < 2 ^ 53
  leading : v.exponent ≠ -1074 → 2 ^ 52 ≤ v.significand
  narrow : v.narrowBelow = true ↔ v.significand = 2 ^ 52 ∧ v.exponent ≠ -1074

theorem normal_ofBits (bits : UInt64) : (ofBits bits).Normal := by
  have hfraction : bits.toNat % hidden < hidden := Nat.mod_lt _ (by decide)
  have hhidden : hidden = 2 ^ 52 := by decide
  unfold ofBits
  simp only
  rw [hhidden] at hfraction ⊢
  split
  · exact ⟨by norm_num, by dsimp only; omega, fun h => absurd rfl h, by simp⟩
  · refine ⟨by dsimp only; omega, by dsimp only; omega, fun _ => by simp, ?_⟩
    simp only [Bool.and_eq_true, decide_eq_true_eq]
    omega

/-- `v` is the smaller one of two numbers. -/
def Before (v w : Binary) : Prop :=
  v.exponent < w.exponent ∨ v.exponent = w.exponent ∧ v.significand < w.significand

theorem Normal.trichotomy {v w : Binary} (hv : v.Normal) (hw : w.Normal) :
    v.Before w ∨ v = w ∨ w.Before v := by
  by_cases heq : v.exponent = w.exponent ∧ v.significand = w.significand
  · have hnarrow : v.narrowBelow = w.narrowBelow := by
      rw [Bool.eq_iff_iff, hv.narrow, hw.narrow, heq.1, heq.2]
    cases v
    cases w
    simp_all
  · unfold Before
    omega

/-- One step of the exponent doubles the distance between numbers. -/
theorem two_mul_quarter_le {v w : Binary} (h : v.exponent < w.exponent) :
    2 * v.quarter ≤ w.quarter := by
  unfold quarter
  rw [mul_comm, ← zpow_add_one₀ (by norm_num)]
  exact zpow_le_zpow_right₀ (by norm_num) (by omega)

/-- The interval of a number with a leading bit starts no lower than halfway between the least
such number and the one below it. -/
theorem Normal.le_low {w : Binary} (hw : w.Normal) (h : w.exponent ≠ -1074) :
    2 ^ 54 - 1 ≤ w.low := by
  have hleading := hw.leading h
  unfold low
  split
  · omega
  · rename_i hnarrow
    have hne : w.significand ≠ 2 ^ 52 := fun hs => hnarrow (hw.narrow.mpr ⟨hs, h⟩)
    omega

/-- The intervals of two numbers touch at most, and then one of them lacks its ends. -/
theorem Before.touch {v w : Binary} (h : v.Before w) (hv : v.Normal) (hw : w.Normal) :
    v.high * v.quarter < w.low * w.quarter ∨
      v.high * v.quarter = w.low * w.quarter ∧
        (v.significand % 2 = 1 ∨ w.significand % 2 = 1) := by
  rcases h with hexponent | ⟨hexponent, hsignificand⟩
  · -- At most the last number before a change of the exponent touches the first one after it.
    have hv53 := hv.significand
    have hvexponent := hv.exponent
    have hlow := hw.le_low (by omega)
    have hle : v.high ≤ 2 * w.low ∧ (v.significand % 2 = 0 → v.high < 2 * w.low) := by
      unfold high
      omega
    have hdouble : (2 * w.low : ℕ) * v.quarter ≤ w.low * w.quarter := by
      have := mul_le_mul_of_nonneg_left (two_mul_quarter_le hexponent) (Nat.cast_nonneg w.low)
      push_cast
      linarith
    rcases Nat.mod_two_eq_zero_or_one v.significand with heven | hodd
    · exact .inl ((v.quarter_lt (hle.2 heven)).trans_le hdouble)
    · rcases ((v.quarter_le hle.1).trans hdouble).lt_or_eq with hlt | heq
      · exact .inl hlt
      · exact .inr ⟨heq, .inl hodd⟩
  · have hquarter : w.quarter = v.quarter := by rw [quarter, quarter, hexponent]
    have hle : v.high < w.low ∨ v.high = w.low ∧ w.significand = v.significand + 1 := by
      unfold high low
      split <;> omega
    rw [hquarter]
    rcases hle with hlt | ⟨heq, hnext⟩
    · exact .inl (v.quarter_lt hlt)
    · exact .inr ⟨by rw [heq], by omega⟩

theorem Within.low_le {v : Binary} {x : ℚ} (h : v.Within x) :
    v.low * v.quarter ≤ x ∧ (v.significand % 2 = 1 → v.low * v.quarter < x) := by
  unfold Within at h
  split at h
  · exact ⟨h.1, by omega⟩
  · exact ⟨h.1.le, fun _ => h.1⟩

theorem Within.le_high {v : Binary} {x : ℚ} (h : v.Within x) :
    x ≤ v.high * v.quarter ∧ (v.significand % 2 = 1 → x < v.high * v.quarter) := by
  unfold Within at h
  split at h
  · exact ⟨h.2, by omega⟩
  · exact ⟨h.2.le, fun _ => h.2⟩

theorem Before.within_false {v w : Binary} (h : v.Before w) (hv : v.Normal) (hw : w.Normal)
    {x : ℚ} (hx : v.Within x) (hx' : w.Within x) : False := by
  obtain ⟨hhigh, hhigh'⟩ := hx.le_high
  obtain ⟨hlow, hlow'⟩ := hx'.low_le
  rcases h.touch hv hw with hlt | ⟨heq, hodd | hodd⟩
  · linarith
  · have := hhigh' hodd
    linarith
  · have := hlow' hodd
    linarith

/-- Rounding intervals do not overlap. -/
theorem within_unique {v w : Binary} (hv : v.Normal) (hw : w.Normal) {x : ℚ} (h : v.Within x)
    (h' : w.Within x) : v = w := by
  rcases hv.trichotomy hw with hbefore | heq | hafter
  · exact (hbefore.within_false hv hw h h').elim
  · exact heq
  · exact (hafter.within_false hw hv h' h).elim

end Binary

end Treewalk.Decimal
