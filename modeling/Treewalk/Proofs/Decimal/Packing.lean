import Mathlib
import Treewalk.Proofs.Decimal.Reading

/-!
# Bit patterns of numbers

Arithmetic unpacks bit patterns into a sign, a significand and an exponent, and packs the result
into a pattern again. For numbers that use all bits of their significand, packing loses nothing,
and `Binary.ofBits` reads the same significand and exponent off the pattern.

Results:

* `unpack_pack`: packing loses nothing.
* `represents_pack`: what a packed number is, and its negative.
* `Represents.eq`: a finite number is told by its sign and its magnitude.
-/
namespace Treewalk.Decimal

open Float.Model Float.Model.UnpackedFloat

/-! ## The fields of a pattern -/

theorem toNat_packComponents (s : Sign) (e : BitVec 11) (m : BitVec 52) :
    (packComponents Format.binary64 s e m).toNat =
      s.toBitVec.toNat * 2 ^ 63 + e.toNat * 2 ^ 52 + m.toNat := by
  have he := e.isLt
  have hm := m.isLt
  unfold packComponents
  rw [BitVec.toNat_append, BitVec.toNat_append, ← Nat.shiftLeft_add_eq_or_of_lt hm,
    ← Nat.shiftLeft_add_eq_or_of_lt he, Nat.shiftLeft_eq, Nat.shiftLeft_eq]
  show (_ * 2 ^ 11 + _) * 2 ^ 52 + _ = _
  ring

/-! ## Packed numbers -/

/-- All bits of the significand are used, and the exponent is one that patterns have. -/
structure Full (m : ℕ) (e : ℤ) : Prop where
  leading : 2 ^ 52 ≤ m
  significand : m < 2 ^ 53
  least : -1074 ≤ e
  greatest : e ≤ 971

section Packed

variable {m : ℕ} {e : ℤ} (h : Full m e) (s : Sign) (hpos : 0 < m)

include h

/-- The fields that the number is packed into. -/
theorem pack_full : UnpackedFloat.pack Format.binary64 (.finite s m e hpos) =
    packComponents Format.binary64 s (BitVec.ofNat 11 (e + 1075).toNat) (BitVec.ofNat 52 m) := by
  obtain ⟨hm, hm', he, he'⟩ := h
  have hlog : m.log2 = 52 := (Nat.log2_eq_iff (by omega)).mpr ⟨hm, hm'⟩
  have hbias : (e + Format.binary64.exponentBias +
      Format.binary64.mantissaBitsWithoutImplicit).toNat = (e + 1075).toNat := by
    simp [Format.exponentBias]
    omega
  have hroom : ¬ 2 ^ Format.binary64.exponentBits ≤ (e + 1075).toNat + 1 := by
    show ¬ 2 ^ 11 ≤ _
    omega
  have hbits : 52 + 1 = Format.binary64.mantissaBits := rfl
  unfold UnpackedFloat.pack
  dsimp only
  rw [hbias, hlog, if_neg hroom, if_pos hbits]

theorem toNat_exponentField : (BitVec.ofNat 11 (e + 1075).toNat).toNat = (e + 1075).toNat := by
  obtain ⟨-, -, he, he'⟩ := h
  rw [BitVec.toNat_ofNat]
  omega

/-- Packing loses nothing. -/
theorem unpack_pack : (Float.Model.pack (.finite s m e hpos)).unpack = .finite s m e hpos := by
  have hfield := toNat_exponentField h
  obtain ⟨hm, hm', he, he'⟩ := id h
  have hsignificand : (1#1 ++ BitVec.ofNat 52 m).toNat = m := by
    rw [BitVec.toNat_append, BitVec.toNat_ofNat, ← Nat.shiftLeft_add_eq_or_of_lt (by omega)]
    simp
    omega
  -- The two exponents that are kept for other patterns are not used.
  have htop : BitVec.ofNat 11 (e + 1075).toNat ≠ -1#11 := by
    intro heq
    have hnat := congrArg BitVec.toNat heq
    rw [hfield] at hnat
    simp at hnat
    omega
  have hzero : BitVec.ofNat 11 (e + 1075).toNat ≠ 0#11 := by
    intro heq
    have hnat := congrArg BitVec.toNat heq
    rw [hfield] at hnat
    simp at hnat
    omega
  show UnpackedFloat.unpack _ (UnpackedFloat.pack _ _) = _
  rw [pack_full h]
  unfold UnpackedFloat.unpack
  simp only [unpackExponent_packComponents, unpackMantissa_packComponents,
    unpackSign_packComponents, Sign.ofBitVec_toBitVec, htop, hzero, if_false, hsignificand, hfield]
  simp [Format.exponentBias]
  omega

theorem toNat_toBits_pack : (Float.Model.pack (.finite s m e hpos)).toBits.toNat =
    s.toBitVec.toNat * 2 ^ 63 + (e + 1075).toNat * 2 ^ 52 + (m - 2 ^ 52) := by
  have hfield := toNat_exponentField h
  obtain ⟨hm, hm', -, -⟩ := id h
  show (UnpackedFloat.pack _ _).toNat = _
  rw [pack_full h, toNat_packComponents, hfield, BitVec.toNat_ofNat]
  omega

/-- The magnitude is read off the pattern, whatever the sign. -/
theorem ofBits_pack : Binary.ofBits (Float.Model.pack (.finite s m e hpos)).toBits =
    ⟨m, e, m = 2 ^ 52 && e ≠ -1074⟩ := by
  have hbits := toNat_toBits_pack h s hpos
  obtain ⟨hm, hm', he, he'⟩ := id h
  have hhidden : hidden = 2 ^ 52 := by decide
  have hfield : ((Float.Model.pack (.finite s m e hpos)).toBits >>> 52).toNat % 2048 =
      (e + 1075).toNat := by
    rw [UInt64.toNat_shiftRight, Nat.shiftRight_eq_div_pow, hbits]
    show _ / 2 ^ 52 % 2048 = _
    omega
  unfold Binary.ofBits
  simp only [hfield, hhidden]
  rw [if_neg (by omega), hbits, Binary.mk.injEq]
  refine ⟨by omega, by omega, ?_⟩
  rw [Bool.eq_iff_iff]
  simp only [Bool.and_eq_true, decide_eq_true_eq]
  omega

end Packed

/-! ## Signs -/

/-- The number is positive or zero, and its magnitude and that of its negative is `v`. -/
structure Represents (x : Float) (v : Binary) : Prop where
  positive : x.toBits.toNat < 2 ^ 63
  magnitude : Binary.ofBits x.toBits = v
  negative : 2 ^ 63 ≤ (-x).toBits.toNat
  negated : Binary.ofBits (-x).toBits = v

theorem represents_zero :
    Represents (.ofModel (.pack (.zero .positive))) ⟨0, -1074, false⟩ := by
  constructor <;> decide +kernel

theorem represents_pack {m : ℕ} {e : ℤ} (h : Full m e) (hpos : 0 < m) :
    Represents (.ofModel (.pack (.finite .positive m e hpos))) ⟨m, e, m = 2 ^ 52 && e ≠ -1074⟩ := by
  have hneg : (-(Float.ofModel (.pack (.finite .positive m e hpos)))).toBits =
      (Float.Model.pack (.finite .negative m e hpos)).toBits := by
    show (Float.Model.pack (Float.Model.pack _).unpack.neg).toBits = _
    rw [unpack_pack h]
    rfl
  refine ⟨?_, ofBits_pack h _ _, ?_, ?_⟩
  · have hbits := toNat_toBits_pack h .positive hpos
    obtain ⟨hm, hm', he, he'⟩ := h
    have hsign : (Sign.positive.toBitVec).toNat = 0 := rfl
    show (Float.Model.pack _).toBits.toNat < _
    omega
  · have hbits := toNat_toBits_pack h .negative hpos
    have hsign : (Sign.negative.toBitVec).toNat = 1 := rfl
    rw [hneg]
    omega
  · rw [hneg]
    exact ofBits_pack h _ _

/-- A finite number is told by its sign and its magnitude. -/
theorem Represents.eq {r x : Float} (h : Represents r (Binary.ofBits x.toBits)) :
    (if x.toBits >>> 63 = 0 then r else -r) = x := by
  have hx := x.toBits.toNat_lt
  have hneg := (-r).toBits.toNat_lt
  obtain ⟨hpositive, hmagnitude, hnegative, hnegated⟩ := h
  apply toBits_inj
  apply UInt64.toNat_inj.mp
  split
  · rename_i hsign
    rw [sign_eq_zero_iff] at hsign
    have := magnitude_inj hmagnitude
    omega
  · rename_i hsign
    rw [sign_eq_zero_iff] at hsign
    have := magnitude_inj hnegated
    omega

end Treewalk.Decimal
