/-!
# Shortest decimal digits of a binary number

A finite number is `significand · 2^exponent`. Every real number of its
rounding interval reads back as it; the ends belong to the interval exactly
when the significand is even. `Binary.shortest` picks the decimal with the
fewest digits inside that interval, and of two such decimals the nearer one.

All comparisons are between natural numbers, so no step rounds.
-/
namespace Treewalk.Decimal

/-- Where a tie between two equally near decimals goes. -/
inductive Halfway where
  | toEven
  | up
  deriving DecidableEq, Repr

/-- The number `mantissa · 10^exponent`. -/
structure Digits where
  mantissa : Nat
  exponent : Int
  deriving DecidableEq, Repr

/-- Drop trailing zeros of the mantissa. -/
def Digits.trim (d : Digits) : Digits :=
  if h : d.mantissa ≠ 0 ∧ d.mantissa % 10 = 0 then
    Digits.trim ⟨d.mantissa / 10, d.exponent + 1⟩
  else d
termination_by d.mantissa
decreasing_by
  have h0 := h.1
  show d.mantissa / 10 < d.mantissa
  omega

/-- The decimal digits of the mantissa, first digit first. -/
def Digits.chars (d : Digits) : List Char := Nat.toDigits 10 d.mantissa

/-- The place of the point: the number is `0.d₁d₂… · 10^point`. -/
def Digits.point (d : Digits) : Int := d.exponent + d.chars.length

/-- A finite number `significand · 2^exponent`. `narrowBelow` says that its
lower neighbour is only half as far away as its upper one. -/
structure Binary where
  significand : Nat
  exponent : Int
  narrowBelow : Bool
  deriving DecidableEq, Repr

/-- The leading bit of a significand, which 64-bit patterns leave out. -/
def hidden : Nat := 1 <<< 52

/-- Read the magnitude of a finite 64-bit pattern; the sign is ignored. -/
def Binary.ofBits (bits : UInt64) : Binary :=
  let field := (bits >>> 52).toNat % 2048
  let fraction := bits.toNat % hidden
  if field = 0 then ⟨fraction, -1074, false⟩
  else ⟨hidden + fraction, (field : Int) - 1075, fraction = 0 && 1 < field⟩

namespace Binary

/-- Lower end of the rounding interval, in quarters of a unit. -/
def low (v : Binary) : Nat := 4 * v.significand - (if v.narrowBelow then 1 else 2)

/-- Upper end of the rounding interval, in quarters of a unit. -/
def high (v : Binary) : Nat := 4 * v.significand + 2

/-- How many digits stand before the point; zero or less for numbers below one:
`10^(magnitude - 1) ≤ v < 10^magnitude` for every positive `v`. -/
def magnitude (v : Binary) : Int :=
  let num := v.significand <<< v.exponent.toNat
  let den := 1 <<< (-v.exponent).toNat
  if den ≤ num then (Nat.toDigits 10 (num / den)).length
  else 1 - ((Nat.toDigits 10 ((den - 1) / num)).length : Int)

/-- Common scale of the grid of multiples of `10^k` and of quarter units of `v`:
`d · 10^k` and `x` quarter units compare as `d * (scale k).1` and `x * (scale k).2`. -/
def scale (v : Binary) (k : Int) : Nat × Nat :=
  (Nat.pow 10 k.toNat <<< (2 - v.exponent).toNat, Nat.pow 10 (-k).toNat <<< (v.exponent - 2).toNat)

/-- Whether `d · 10^k` reads back as `v`. -/
def accepts (v : Binary) (d : Nat) (k : Int) : Bool :=
  let (a, b) := v.scale k
  if v.significand % 2 = 0 then v.low * b ≤ d * a && d * a ≤ v.high * b
  else v.low * b < d * a && d * a < v.high * b

/-- The multiple of `10^k` that reads back as `v`, if one of the two neighbours of
`v` on that grid does. -/
def candidate (v : Binary) (tie : Halfway) (k : Int) : Option Digits :=
  let (a, b) := v.scale k
  let x := 4 * v.significand * b
  let d := x / a
  match v.accepts d k, v.accepts (d + 1) k with
  | false, false => none
  | true, false => some ⟨d, k⟩
  | false, true => some ⟨d + 1, k⟩
  | true, true =>
    match compare (x - d * a) ((d + 1) * a - x) with
    | .lt => some ⟨d, k⟩
    | .gt => some ⟨d + 1, k⟩
    | .eq =>
      match tie with
      | .toEven => some ⟨d + d % 2, k⟩
      | .up => some ⟨d + 1, k⟩

/-- All digits of `v`. -/
def exact (v : Binary) : Digits :=
  ⟨(v.significand <<< v.exponent.toNat) * Nat.pow 5 (-v.exponent).toNat, min v.exponent 0⟩

/-- The fewest digits that read back as `v`; seventeen always suffice. -/
def shortest (v : Binary) (tie : Halfway) : Digits :=
  if v.significand = 0 then ⟨0, 0⟩
  else
    let top := v.magnitude
    let found := (List.range 17).findSome? fun n => v.candidate tie (top - (n + 1 : Nat))
    (found.getD v.exact).trim

end Binary

end Treewalk.Decimal
