import ComponentProps.Proofs.Decimal.Window
import Mathlib.Algebra.Order.Ring.Abs

/-!
# Rounding to the nearest double

A number rounds to the double that is nearest to it, and half way between two doubles to
the one with the even significand.  This module states the rule without windows and shows
that the window of a double holds just the numbers that round to it.

* `magnitude`, `RoundsTo`: the rule.
* `center`, `center_add_center`: magnitudes counted as the ends of windows are, each end
  half way between two of them.
* `exists_of_rank`: no rank is left out up to that of infinity.
* `contains_iff_roundsTo`: windows and the rule say the same.
-/

namespace ComponentProps

namespace Decimal

variable {x y : Float} {number : ℚ}

/-! ## The rule -/

/-- The size of the number that a finite double stands for.  Infinity counts as the
power of two that follows the largest finite double. -/
def magnitude (x : Float) : ℚ := significand x * 2 ^ binaryExponent x

/-- A number that is not negative rounds to the magnitude of a double. -/
structure RoundsTo (number : ℚ) (x : Float) : Prop where
  /-- No other magnitude is nearer. -/
  nearest : ∀ y : Float, y.isNaN = false → |number - magnitude x| ≤ |number - magnitude y|
  /-- If another magnitude is as near, the significand is even. -/
  even : ∀ y : Float, y.isNaN = false → |number - magnitude x| = |number - magnitude y| →
    magnitude x = magnitude y ∨ significand x % 2 = 0

/-! ## Magnitudes -/

/-- The magnitude of a rank, counted in the parts of one in which windows have their
ends. -/
def center (rank : Nat) : Nat := quarters rank * 2 ^ (rank / 2 ^ 52 - 1)

theorem magnitude_mul_grain (x : Float) : magnitude x * grain = center (rank x) := by
  have hexponent : binaryExponent x + 1076 = 2 + (exponentField x - 1 : Nat) := by
    unfold binaryExponent
    omega
  have hpow : (2 : ℚ) ^ binaryExponent x * grain = 2 ^ 2 * 2 ^ (exponentField x - 1) := by
    have hgrain : grain = (2 : ℚ) ^ (1076 : ℤ) := rfl
    rw [hgrain, ← zpow_add₀ (by norm_num), hexponent, zpow_add₀ (by norm_num), zpow_natCast]
    rfl
  rw [magnitude, mul_assoc, hpow, center, quarters_rank, rank_div]
  push_cast
  ring

/-- Windows meet half way between two magnitudes. -/
theorem center_add_center (rank : Nat) :
    center rank + center (rank + 1) = 2 * lowerEnd (rank + 1) := by
  rw [← upperEnd_eq]
  unfold center upperEnd quarters
  by_cases hlast : rank % 2 ^ 52 + 1 = 2 ^ 52
  -- the next power of two, from which on magnitudes are twice as far apart
  · have hexponent : (rank + 1) / 2 ^ 52 = rank / 2 ^ 52 + 1 := by omega
    have hfraction : (rank + 1) % 2 ^ 52 = 0 := by omega
    have hlast' : rank % 2 ^ 52 = 2 ^ 52 - 1 := by omega
    rw [hexponent, hfraction, hlast']
    cases rank / 2 ^ 52 with
    | zero => norm_num
    | succ exponent =>
      have hnext : exponent + 1 + 1 - 1 = exponent + 1 := rfl
      rw [hnext, Nat.add_sub_cancel, pow_succ 2 exponent]
      norm_num
      omega
  · have hexponent : (rank + 1) / 2 ^ 52 = rank / 2 ^ 52 := by omega
    have hfraction : (rank + 1) % 2 ^ 52 = rank % 2 ^ 52 + 1 := by omega
    rw [hexponent, hfraction]
    split <;> ring

theorem center_lt (rank : Nat) : center rank < center (rank + 1) := by
  have hends := lowerEnd_lt rank
  have hmiddle := center_add_center rank
  have hupper : center rank < upperEnd rank :=
    Nat.mul_lt_mul_of_pos_right (by omega) (Nat.two_pow_pos _)
  rw [upperEnd_eq] at hupper
  omega

/-- Magnitudes lie in the order of their ranks. -/
theorem strictMono_center : StrictMono center := strictMono_nat_of_lt_succ center_lt

theorem magnitude_lt_iff : magnitude x < magnitude y ↔ rank x < rank y := by
  rw [← mul_lt_mul_iff_of_pos_right grain_pos, magnitude_mul_grain, magnitude_mul_grain,
    Nat.cast_lt]
  exact strictMono_center.lt_iff_lt

theorem magnitude_le_iff : magnitude x ≤ magnitude y ↔ rank x ≤ rank y := by
  rw [← not_lt, ← not_lt, magnitude_lt_iff]

theorem magnitude_eq_iff : magnitude x = magnitude y ↔ rank x = rank y := by
  rw [le_antisymm_iff, le_antisymm_iff, magnitude_le_iff, magnitude_le_iff]

/-! ## Distances -/

/-- Of two magnitudes the smaller one is as near to a number as the larger one if the
number is not above their middle. -/
theorem distance_le_of_lt_iff (h : rank x < rank y) :
    |number - magnitude x| ≤ |number - magnitude y| ↔
      2 * (number * grain) ≤ center (rank x) + center (rank y) := by
  have hgrain := grain_pos
  have hlt := magnitude_lt_iff.2 h
  have hmiddle : 2 * (number * grain) ≤ center (rank x) + center (rank y) ↔
      2 * number ≤ magnitude x + magnitude y := by
    rw [← magnitude_mul_grain, ← magnitude_mul_grain, ← add_mul, ← mul_assoc,
      mul_le_mul_iff_of_pos_right hgrain]
  rw [hmiddle, ← sq_le_sq]
  constructor
  · intro hsquares
    nlinarith
  · intro hhalf
    nlinarith

/-- Two magnitudes are equally near to the number in their middle. -/
theorem distance_eq_of_lt_iff (h : rank x < rank y) :
    |number - magnitude x| = |number - magnitude y| ↔
      2 * (number * grain) = center (rank x) + center (rank y) := by
  have hlt := magnitude_lt_iff.2 h
  rw [← magnitude_mul_grain, ← magnitude_mul_grain, ← add_mul, ← mul_assoc,
    mul_left_inj' grain_pos.ne', abs_eq_abs]
  constructor
  · rintro (heq | heq)
    · linarith
    · linarith
  · intro hmiddle
    right
    linarith

/-- Of two magnitudes the larger one is as near to a number as the smaller one if the
number is not below their middle. -/
theorem distance_le_of_gt_iff (h : rank y < rank x) :
    |number - magnitude x| ≤ |number - magnitude y| ↔
      (center (rank y) + center (rank x) : ℚ) ≤ 2 * (number * grain) := by
  rw [← not_lt, lt_iff_le_and_ne, distance_le_of_lt_iff h, ne_eq, distance_eq_of_lt_iff h,
    ← lt_iff_le_and_ne, not_lt]

/-- The end of a window is not above the middle between its magnitude and any larger
one. -/
theorem two_mul_lowerEnd_le {low high : Nat} (h : low < high) :
    (2 * lowerEnd (low + 1) : ℚ) ≤ center low + center high := by
  have hmiddle := center_add_center low
  have hle : center (low + 1) ≤ center high := strictMono_center.monotone h
  exact_mod_cast (by omega : 2 * lowerEnd (low + 1) ≤ center low + center high)

/-- The beginning of a window is not below the middle between its magnitude and any
smaller one. -/
theorem le_two_mul_lowerEnd {low high : Nat} (h : low < high) :
    (center low + center high : ℚ) ≤ 2 * lowerEnd high := by
  obtain ⟨below, rfl⟩ : ∃ below, high = below + 1 := ⟨high - 1, by omega⟩
  have hmiddle := center_add_center below
  have hle : center low ≤ center below := strictMono_center.monotone (by omega)
  exact_mod_cast (by omega : center low + center (below + 1) ≤ 2 * lowerEnd (below + 1))

/-- Every rank up to that of infinity is the rank of a number. -/
theorem exists_of_rank {place : Nat} (h : place ≤ 2047 * 2 ^ 52) :
    ∃ y : Float, rank y = place ∧ y.isNaN = false := by
  have hbits : (UInt64.ofNat place).toNat = place := by
    apply UInt64.toNat_ofNat_of_lt'
    have hsize : UInt64.size = 2 ^ 64 := rfl
    omega
  -- the bits are not those of a double that is no number, so they need not be canonical
  have hvalid : Float.Model.Format.binary64.Valid (UInt64.ofNat place).toBitVec := by
    constructor
    intro hones hsome
    refine absurd (BitVec.eq_of_toNat_eq ?_) hsome
    have hexponent := congrArg BitVec.toNat hones
    simp [Float.Model.UnpackedFloat.unpackExponent, Nat.shiftRight_eq_div_pow,
      -UInt64.toBitVec_ofNat] at hexponent
    simp [Float.Model.UnpackedFloat.unpackMantissa, -UInt64.toBitVec_ofNat]
    rw [hbits] at *
    omega
  refine ⟨⟨⟨UInt64.ofNat place, hvalid⟩⟩, ?_⟩
  generalize hy : (⟨⟨UInt64.ofNat place, hvalid⟩⟩ : Float) = y
  have hplace : y.toBits.toNat = place := by
    rw [← hy]
    exact hbits
  have hexponent : exponentField y = place / 2 ^ 52 := by
    rw [exponentField_eq, hplace]
    omega
  have hfraction : fractionField y = place % 2 ^ 52 := by rw [fractionField_eq, hplace]
  constructor
  · rw [rank, hexponent, hfraction]
    omega
  · rw [← Bool.not_eq_true, isNaN_iff, hexponent, hfraction]
    omega

/-! ## Windows -/

/-- What lies in a window rounds to its double. -/
theorem roundsTo_of_contains (h : (window x).Contains number) : RoundsTo number x := by
  rw [contains_window_iff] at h
  have hlow := h.le.1
  have hhigh := h.le.2
  have heven (hend : number * grain = lowerEnd (rank x) ∨
      number * grain = lowerEnd (rank x + 1)) : significand x % 2 = 0 := by
    rw [significand_mod_two]
    simpa using h.closed_of_eq hend
  constructor
  · intro y _
    rcases lt_trichotomy (rank x) (rank y) with hlt | heq | hgt
    · have hmiddle := two_mul_lowerEnd_le hlt
      rw [distance_le_of_lt_iff hlt]
      linarith
    · rw [magnitude_eq_iff.2 heq]
    · have hmiddle := le_two_mul_lowerEnd hgt
      rw [distance_le_of_gt_iff hgt]
      linarith
  · intro y _ hequal
    rcases lt_trichotomy (rank x) (rank y) with hlt | heq | hgt
    · have hmiddle := two_mul_lowerEnd_le hlt
      rw [distance_eq_of_lt_iff hlt] at hequal
      exact .inr (heven (.inr (by linarith)))
    · exact .inl (magnitude_eq_iff.2 heq)
    · have hmiddle := le_two_mul_lowerEnd hgt
      rw [eq_comm, distance_eq_of_lt_iff hgt] at hequal
      exact .inr (heven (.inl (by linarith)))

/-- A number that is as near to another magnitude rounds to the one of even rank. -/
theorem RoundsTo.rank_even (h : RoundsTo number x) (hnumber : y.isNaN = false)
    (hne : rank x ≠ rank y) (hequal : |number - magnitude x| = |number - magnitude y|) :
    rank x % 2 = 0 := by
  rcases h.even y hnumber hequal with heq | heven
  · exact absurd (magnitude_eq_iff.1 heq) hne
  · rwa [significand_mod_two] at heven

/-- What rounds to a finite double lies in its window. -/
theorem contains_of_roundsTo (hfinite : exponentField x ≠ 2047) (hnumber : 0 ≤ number)
    (h : RoundsTo number x) : (window x).Contains number := by
  have hfield : exponentField x < 2048 := by
    rw [exponentField_eq]
    exact Nat.mod_lt _ (Nat.two_pow_pos 11)
  have hfraction := fractionField_lt x
  have hrank : rank x < 2047 * 2 ^ 52 := by
    unfold rank
    omega
  -- the neighbour above
  have hhigh : number * grain ≤ lowerEnd (rank x + 1) ∧
      (number * grain = lowerEnd (rank x + 1) → rank x % 2 = 0) := by
    obtain ⟨y, hy, hnan⟩ := exists_of_rank (Nat.succ_le_of_lt hrank)
    have hlt : rank x < rank y := by omega
    have hmiddle : (center (rank x) + center (rank y) : ℚ) = 2 * lowerEnd (rank x + 1) := by
      rw [hy]
      exact_mod_cast center_add_center (rank x)
    constructor
    · have hnear := (distance_le_of_lt_iff hlt).1 (h.nearest y hnan)
      linarith
    · intro hend
      apply h.rank_even hnan hlt.ne
      rw [distance_eq_of_lt_iff hlt, hend, hmiddle]
  -- the neighbour below, if there is one
  have hlow : (lowerEnd (rank x) : ℚ) ≤ number * grain ∧
      (number * grain = lowerEnd (rank x) → rank x % 2 = 0) := by
    cases hplace : rank x with
    | zero =>
      have hzero : lowerEnd 0 = 0 := by decide
      rw [hzero, Nat.cast_zero]
      exact ⟨mul_nonneg hnumber grain_pos.le, fun _ => rfl⟩
    | succ below =>
      obtain ⟨y, hy, hnan⟩ := exists_of_rank (by omega : below ≤ 2047 * 2 ^ 52)
      have hlt : rank y < rank x := by omega
      have hmiddle : (center (rank y) + center (rank x) : ℚ) = 2 * lowerEnd (below + 1) := by
        rw [hy, hplace]
        exact_mod_cast center_add_center below
      constructor
      · have hnear := (distance_le_of_gt_iff hlt).1 (h.nearest y hnan)
        linarith
      · intro hend
        rw [← hplace]
        apply h.rank_even hnan hlt.ne'
        rw [eq_comm, distance_eq_of_lt_iff hlt, hend, hmiddle]
  rw [contains_window_iff, Within]
  split
  next => exact ⟨hlow.1, hhigh.1⟩
  next hodd =>
    rw [decide_eq_true_eq] at hodd
    exact ⟨lt_of_le_of_ne hlow.1 fun hend => hodd (hlow.2 hend.symm),
      lt_of_le_of_ne hhigh.1 fun hend => hodd (hhigh.2 hend)⟩

/-- The window of a finite double holds just the numbers that round to it. -/
theorem contains_iff_roundsTo (hfinite : exponentField x ≠ 2047) (hnumber : 0 ≤ number) :
    (window x).Contains number ↔ RoundsTo number x :=
  ⟨roundsTo_of_contains, contains_of_roundsTo hfinite hnumber⟩

end Decimal

end ComponentProps
