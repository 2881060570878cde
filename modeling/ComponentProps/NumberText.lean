import ComponentProps.Decimal.Shortest

/-!
# Numbers as source text

`numberText` writes a double the way it appears in an emitted literal and in a
property key.  Whole numbers of fewer than sixteen digits are written in full
and without a sign of zero; every other finite number is written with the
fewest digits that read back, in positional notation whatever its size.  Half
way between two such texts the larger number is taken.
-/

namespace ComponentProps

/-- The text of the magnitude of a finite double. -/
def magnitudeText (x : Float) : List Char :=
  if Decimal.isIntegral x && decide (Decimal.integralPart x < Nat.pow 10 15) then
    Nat.toDigits 10 (Decimal.integralPart x)
  else (Decimal.shortest .up x).positional

/-- The text of a double in an emitted literal. -/
def numberText (x : Float) : String :=
  if x.isNaN then "NaN"
  else if x.isInf then
    if Decimal.isNegative x then "-Infinity" else "Infinity"
  else if Decimal.isNegative x && Decimal.significand x != 0 then
    String.ofList ('-' :: magnitudeText x)
  else String.ofList (magnitudeText x)

end ComponentProps
