import ComponentProps.Decimal.Layout

/-!
# Shortest decimals of doubles

`Decimal.shortest tie x` is the decimal with the fewest digits among those that
round to the double `x`, and of two such decimals the one nearer to `x`; `tie`
says which of the two is taken when `x` is half way between them.

A finite double of magnitude `m * 2 ^ q` is the nearest double of every real
strictly between the midpoints to its two neighbours, and of the midpoints
themselves when `m` is even.  `Window` holds these bounds over one common
denominator, so that every comparison is one of natural numbers.  On the grid
of decimals with a given number of digits only the two neighbours of the value
can win: if any grid point lies in the window, so does one of them.
-/

namespace ComponentProps

namespace Decimal

/-! ## The parts of a double -/

-- The power operator means something else where algebra is imported; `Nat.pow` does not.

/-- Whether the sign bit is set; this holds for `-0` too. -/
def isNegative (x : Float) : Bool := decide (Nat.pow 2 63 ≤ x.toBits.toNat)

/-- The low 52 bits. -/
def fractionField (x : Float) : Nat := x.toBits.toNat % Nat.pow 2 52

/-- The eleven exponent bits. -/
def exponentField (x : Float) : Nat := x.toBits.toNat / Nat.pow 2 52 % Nat.pow 2 11

/-- The significand `m` of the magnitude `m * 2 ^ q` of a finite double. -/
def significand (x : Float) : Nat :=
  if exponentField x = 0 then fractionField x else fractionField x + Nat.pow 2 52

/-- The exponent `q` of the magnitude `m * 2 ^ q` of a finite double. -/
def binaryExponent (x : Float) : Int := (max (exponentField x) 1 : Nat) - 1075

/-- Whether a finite double has no fractional part. -/
def isIntegral (x : Float) : Bool :=
  decide (0 ≤ binaryExponent x) || significand x % Nat.pow 2 (-binaryExponent x).toNat == 0

/-- The magnitude of a finite double without its fractional part. -/
def integralPart (x : Float) : Nat :=
  significand x * Nat.pow 2 (binaryExponent x).toNat / Nat.pow 2 (-binaryExponent x).toNat

/-! ## Ties -/

/-- Which of two neighbours stands for a value half way between them. -/
inductive Tie where
  /-- The larger one. -/
  | up
  /-- The one whose last digit is even. -/
  | even
deriving DecidableEq, Repr

/-- What stands for the value half way between `down` and its successor. -/
def Tie.pick : Tie → Nat → Nat
  | .up, down => down + 1
  | .even, down => down + down % 2

/-! ## The reals that round to a double -/

/-- The reals that round to a magnitude: from `low / unit` to `high / unit`
around the magnitude `middle / unit`, the ends included if `closed`. -/
structure Window where
  low : Nat
  middle : Nat
  high : Nat
  unit : Nat
  closed : Bool
deriving DecidableEq, Repr

/-- The window of a finite double.  The neighbour below a power of two is only
half as far away as the one above, unless it is subnormal. -/
def window (x : Float) : Window :=
  let quarters := 4 * significand x
  let below := if fractionField x = 0 ∧ 1 < exponentField x then 1 else 2
  let scale := Nat.pow 2 (binaryExponent x - 2).toNat
  { low := (quarters - below) * scale
    middle := quarters * scale
    high := (quarters + 2) * scale
    unit := Nat.pow 2 (2 - binaryExponent x).toNat
    closed := significand x % 2 == 0 }

namespace Window

/-- Whether `coefficient * 10 ^ exponent` lies in the window. -/
def holds (w : Window) (coefficient : Nat) (exponent : Int) : Bool :=
  let value := coefficient * Nat.pow 10 exponent.toNat * w.unit
  let low := w.low * Nat.pow 10 (-exponent).toNat
  let high := w.high * Nat.pow 10 (-exponent).toNat
  if w.closed then decide (low ≤ value ∧ value ≤ high) else decide (low < value ∧ value < high)

/-- The `k` with `10 ^ (k - 1) ≤ middle / unit < 10 ^ k`. -/
def point (w : Window) : Int :=
  if w.unit ≤ w.middle then
    digitCount (w.middle / w.unit)
  else
    1 - digitCount ((w.unit + w.middle - 1) / w.middle - 1)

/-- The coefficient of the nearest multiple of `10 ^ exponent` that lies in the
window, looking at the two neighbours of the magnitude. -/
def nearest? (w : Window) (tie : Tie) (exponent : Int) : Option Nat :=
  let numerator := w.middle * Nat.pow 10 (-exponent).toNat
  let denominator := w.unit * Nat.pow 10 exponent.toNat
  let down := numerator / denominator
  match w.holds down exponent, w.holds (down + 1) exponent with
  | false, false => none
  | true, false => some down
  | false, true => some (down + 1)
  | true, true =>
    match compare (2 * numerator) ((2 * down + 1) * denominator) with
    | .lt => some down
    | .eq => some (tie.pick down)
    | .gt => some (down + 1)

end Window

/-- The shortest decimal that rounds to the magnitude of a finite double other
than zero.  Seventeen digits always suffice. -/
def shortest (tie : Tie) (x : Float) : Decimal :=
  let w := window x
  let found := (List.range 17).findSome? fun n =>
    let exponent := w.point - (n + 1 : Nat)
    (w.nearest? tie exponent).map (Decimal.mk · exponent)
  trim 17 (found.getD ⟨0, 0⟩)

end Decimal

end ComponentProps
