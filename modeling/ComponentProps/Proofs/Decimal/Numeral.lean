import ComponentProps.Decimal.Layout
import Mathlib.Algebra.Order.Field.Rat
import Mathlib.Data.List.TakeWhile
import Mathlib.Tactic.FieldSimp
import Mathlib.Tactic.Ring

/-!
# The numbers that numerals spell

* `Decimal.value`: the number that a decimal stands for.
* `Decimal.spelled`: the number that digits spell, with a point among them or
  without one.
* `Decimal.spelled_positional`: the positional layout spells the value, so that no
  two values are written in the same way.
* `Decimal.value_trim`: zeros that move into the exponent leave the value alone.
-/

namespace ComponentProps

namespace Decimal

/-! ## Powers -/

/-- A power with an integer exponent, as a quotient of two with natural ones. -/
theorem zpow_mul_pow_toNat_neg (base : ℚ) (h : base ≠ 0) (exponent : Int) :
    base ^ exponent * base ^ (-exponent).toNat = base ^ exponent.toNat := by
  rw [← zpow_natCast, ← zpow_natCast, ← zpow_add₀ h]
  congr 1
  omega

/-! ## Values -/

/-- The number that a decimal stands for. -/
def value (d : Decimal) : ℚ := d.coefficient * 10 ^ d.exponent

/-- A decimal without fraction is a whole number. -/
theorem value_eq_of_nonneg {d : Decimal} (h : 0 ≤ d.exponent) :
    d.value = (d.coefficient * 10 ^ d.exponent.toNat : Nat) := by
  have hpow := zpow_mul_pow_toNat_neg 10 (by norm_num) d.exponent
  have hzero : (-d.exponent).toNat = 0 := by omega
  rw [hzero, pow_zero, mul_one] at hpow
  rw [value, hpow]
  push_cast
  rfl

/-- Zeros at the end of the coefficient move into the exponent. -/
theorem value_trim (limit : Nat) (d : Decimal) : (trim limit d).value = d.value := by
  induction limit generalizing d with
  | zero => rfl
  | succ limit ih =>
    rw [trim]
    split
    next h =>
      have hcoefficient : d.coefficient = 10 * (d.coefficient / 10) := by omega
      have hcast : (d.coefficient : ℚ) = 10 * (d.coefficient / 10 : Nat) := by
        exact_mod_cast hcoefficient
      rw [ih, value, value, hcast, zpow_add₀ (by norm_num)]
      ring
    next => rfl

/-! ## Spellings -/

/-- The number that digits spell.  What stands behind the first point counts as
fraction. -/
def spelled (text : List Char) : ℚ :=
  let whole := text.takeWhile (· ≠ '.')
  let fraction := (text.dropWhile (· ≠ '.')).tail
  Nat.ofDigitChars 10 (whole ++ fraction) 0 / 10 ^ fraction.length

theorem decide_ne_point {text : List Char} (h : '.' ∉ text) :
    ∀ c ∈ text, decide (c ≠ '.') = true := by
  intro c hc
  have hne : c ≠ '.' := fun heq => h (heq ▸ hc)
  exact decide_eq_true hne

/-- A text without a point spells a whole number. -/
theorem spelled_of_not_mem {text : List Char} (h : '.' ∉ text) :
    spelled text = Nat.ofDigitChars 10 text 0 := by
  have hall := decide_ne_point h
  have htake : text.takeWhile (· ≠ '.') = text := List.takeWhile_eq_self_iff.2 hall
  have hdrop : text.dropWhile (· ≠ '.') = [] := List.dropWhile_eq_nil_iff.2 hall
  simp only [spelled, htake, hdrop, List.tail_nil, List.append_nil, List.length_nil, pow_zero,
    div_one]

/-- Behind the whole part and the point stands the fraction. -/
theorem spelled_point {whole : List Char} (h : '.' ∉ whole) (fraction : List Char) :
    spelled (whole ++ '.' :: fraction) =
      Nat.ofDigitChars 10 (whole ++ fraction) 0 / 10 ^ fraction.length := by
  have hall := decide_ne_point h
  have htake : (whole ++ '.' :: fraction).takeWhile (· ≠ '.') = whole := by
    rw [List.takeWhile_append_of_pos hall]
    simp
  have hdrop : (whole ++ '.' :: fraction).dropWhile (· ≠ '.') = '.' :: fraction := by
    rw [List.dropWhile_append_of_pos hall]
    simp
  simp only [spelled, htake, hdrop, List.tail_cons]

theorem point_not_mem_toDigits (n : Nat) : '.' ∉ Nat.toDigits 10 n := by
  intro h
  have hdigit := Nat.isDigit_of_mem_toDigits (by norm_num) (by norm_num) h
  exact absurd hdigit (by decide)

/-- Digits spell the number they are the digits of. -/
theorem spelled_toDigits (n : Nat) : spelled (Nat.toDigits 10 n) = n := by
  rw [spelled_of_not_mem (point_not_mem_toDigits n), Nat.ofDigitChars_ten_toDigits]

/-- Positional notation spells the value. -/
theorem spelled_positional (d : Decimal) : spelled d.positional = d.value := by
  have hdigits : Nat.ofDigitChars 10 d.digits 0 = d.coefficient := Nat.ofDigitChars_ten_toDigits
  have hpoint : '.' ∉ d.digits := point_not_mem_toDigits d.coefficient
  have hzeros (n : Nat) : '.' ∉ List.replicate n '0' := by
    intro h
    exact absurd (List.eq_of_mem_replicate h) (by decide)
  unfold positional
  split
  next hnonneg =>
    -- zeros behind the digits
    have hnone : '.' ∉ d.digits ++ List.replicate d.exponent.toNat '0' := by
      rw [List.mem_append, not_or]
      exact ⟨hpoint, hzeros _⟩
    rw [spelled_of_not_mem hnone, Nat.ofDigitChars_append, hdigits,
      Nat.ofDigitChars_replicate_zero, value_eq_of_nonneg hnonneg, Nat.mul_comm]
  next hneg =>
    have hpow := zpow_mul_pow_toNat_neg 10 (by norm_num) d.exponent
    have hnat : d.exponent.toNat = 0 := by omega
    rw [hnat, pow_zero] at hpow
    have hvalue : d.value = d.coefficient / 10 ^ (-d.exponent).toNat := by
      rw [value, eq_div_iff (pow_ne_zero _ (by norm_num)), mul_assoc, hpow, mul_one]
    split
    next hinside =>
      -- a point among the digits
      have htake : '.' ∉ d.digits.take d.point.toNat := fun h => hpoint (List.mem_of_mem_take h)
      have hlength : (d.digits.drop d.point.toNat).length = (-d.exponent).toNat := by
        rw [List.length_drop]
        unfold point at *
        omega
      rw [spelled_point htake, List.take_append_drop, hdigits, hlength, hvalue]
    next hbefore =>
      -- zeros in front of the digits
      have hzero : '.' ∉ ['0'] := by decide
      have hplaces : (List.replicate (-d.point).toNat '0' ++ d.digits).length =
          (-d.exponent).toNat := by
        rw [List.length_append, List.length_replicate]
        unfold point at *
        omega
      have hwhole : Nat.ofDigitChars 10
          (['0'] ++ (List.replicate (-d.point).toNat '0' ++ d.digits)) 0 = d.coefficient := by
        have hfront : ['0'] ++ List.replicate (-d.point).toNat '0' =
            List.replicate ((-d.point).toNat + 1) '0' := rfl
        rw [← List.append_assoc, hfront, Nat.ofDigitChars_append,
          Nat.ofDigitChars_replicate_zero, Nat.mul_zero, hdigits]
      have hspelled := spelled_point hzero (List.replicate (-d.point).toNat '0' ++ d.digits)
      rw [hwhole, hplaces, ← hvalue] at hspelled
      exact hspelled

end Decimal

end ComponentProps
