import Treewalk.Decimal.Shortest

/-!
# Layouts of decimal numbers

A `Layout` holds the decisions a number format makes: which numbers are
written without an exponent, where a tie between two shortest decimals goes and
how infinity is spelled. `Layout.text` writes any number in such a format.

A minus sign is written whenever the sign bit is set, so negative zero is `-0`.
-/
namespace Treewalk.Decimal

structure Layout where
  /-- Whether `0.d₁d₂… · 10^point` is written out without an exponent. -/
  positional : Int → Bool
  tie : Halfway
  infinity : String

/-- Digits written out, with zeros where the point lies outside them. -/
def positionalChars (ds : List Char) (point : Int) : List Char :=
  if point ≤ 0 then '0' :: '.' :: (List.replicate (-point).toNat '0' ++ ds)
  else if ds.length ≤ point.toNat then ds ++ List.replicate (point.toNat - ds.length) '0'
  else ds.take point.toNat ++ '.' :: ds.drop point.toNat

/-- One digit before the point and an exponent after the digits. -/
def exponentChars (ds : List Char) (point : Int) : List Char :=
  let fraction := ds.drop 1
  ds.take 1 ++ (if fraction.isEmpty then [] else '.' :: fraction) ++
    'e' :: (toString (point - 1)).toList

/-- The text of a decimal number without its sign. -/
def Layout.digits (layout : Layout) (d : Digits) : List Char :=
  if d.mantissa = 0 then ['0']
  else if layout.positional d.point then positionalChars d.chars d.point
  else exponentChars d.chars d.point

/-- The text of a number. -/
def Layout.text (layout : Layout) (x : Float) : String :=
  if x.isNaN then "NaN"
  else
    let sign := if x.toBits >>> 63 = 0 then "" else "-"
    if x.isInf then sign ++ layout.infinity
    else sign ++ String.ofList (layout.digits ((Binary.ofBits x.toBits).shortest layout.tie))

end Treewalk.Decimal
