/-!
# Decimal numerals

A `Decimal` is a coefficient times a power of ten.  This module writes one in
the two usual layouts: positional, where zeros stand in for the power of ten,
and scientific, with one digit before the point and a signed exponent.

Signs are the caller's business: a decimal is never negative.
-/

namespace ComponentProps

/-- The number `coefficient * 10 ^ exponent`. -/
structure Decimal where
  coefficient : Nat
  exponent : Int
deriving DecidableEq, Repr

namespace Decimal

/-- The number of decimal digits of `n`; zero has none. -/
def digitCount (n : Nat) : Nat := if n = 0 then 0 else (Nat.toDigits 10 n).length

/-- The digits of the coefficient. -/
def digits (d : Decimal) : List Char := Nat.toDigits 10 d.coefficient

/-- How many digits stand before the decimal point; when this is not positive,
its negation counts the zeros between the point and the first digit. -/
def point (d : Decimal) : Int := d.digits.length + d.exponent

/-- All digits with zeros in place of the power of ten, and a point only when
there is a fraction. -/
def positional (d : Decimal) : List Char :=
  if 0 ≤ d.exponent then
    d.digits ++ List.replicate d.exponent.toNat '0'
  else if 0 < d.point then
    d.digits.take d.point.toNat ++ '.' :: d.digits.drop d.point.toNat
  else
    '0' :: '.' :: (List.replicate (-d.point).toNat '0' ++ d.digits)

/-- One digit, the other digits behind a point if there are any, and the
exponent with its sign. -/
def scientific (d : Decimal) : List Char :=
  let mantissa :=
    match d.digits with
    | [] => []
    | [digit] => [digit]
    | digit :: rest => digit :: '.' :: rest
  let exponent := d.point - 1
  let sign := if exponent < 0 then '-' else '+'
  mantissa ++ 'e' :: sign :: Nat.toDigits 10 exponent.natAbs

/-- Moves trailing zeros of the coefficient into the exponent, at most `limit`
of them. -/
def trim : Nat → Decimal → Decimal
  | 0, d => d
  | limit + 1, d =>
    if d.coefficient % 10 = 0 ∧ d.coefficient ≠ 0 then
      trim limit ⟨d.coefficient / 10, d.exponent + 1⟩
    else d

end Decimal

end ComponentProps
