/-!
# Reading decimals into doubles

A numeral has been collected into a natural significand below `2 ^ 64` and a
power of ten.  `Decimal.toFloat?` turns the two into a double in at most three
roundings: the significand to a double, the power of ten to a double, and
their product or quotient.  This is exact for short numerals and may be one
unit off in the last place for long ones.

Powers of ten beyond `10 ^ 308` have no double.  A large negative exponent is
worked off in steps of `10 ^ 308` until the value is in reach or zero; a large
positive one, like an infinite product, is out of range.
-/

namespace ComponentProps

namespace Decimal

/-- The double nearest to `10 ^ exponent`, for exponents up to 308. -/
def powerOfTen (exponent : Nat) : Float := Float.ofScientific 1 false exponent

/-- Divides by `10 ^ 308`, `steps` times or until nothing is left. -/
def divideSteps : Nat → Float → Float
  | 0, x => x
  | steps + 1, x => if x == 0 then x else divideSteps steps (x / powerOfTen 308)

/-- The double for `significand * 10 ^ exponent`, or nothing when it is out of
range. -/
def toFloat? (significand : Nat) (exponent : Int) : Option Float :=
  let start := significand.toUInt64.toFloat
  if 0 ≤ exponent then
    if exponent ≤ 308 then
      let product := start * powerOfTen exponent.toNat
      if product.isInf then none else some product
    else if start == 0 then some start
    else none
  else
    let steps := (exponent.natAbs - 1) / 308
    some (divideSteps steps start / powerOfTen (exponent.natAbs - 308 * steps))

end Decimal

end ComponentProps
