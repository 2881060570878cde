import ComponentProps.Proofs.Decimal.Equality
import ComponentProps.Proofs.Decimal.Numeral
import Mathlib.Order.Monotone.Basic
import Mathlib.Tactic.Linarith

/-!
# The numbers that round to a double

Every number lies in the window of one magnitude at most, so a number that lies in
the window of a double names its magnitude.

Magnitudes are counted by their `rank`, the bits without the sign.  The window of
a rank ends where that of the next one begins (`upperEnd_eq`), and the one point
that the two share belongs to the even rank.

* `Window.Contains`: a number lies in a window; `Window.holds_iff` says that this is
  what the search for the shortest decimal asks.
* `rank_le_of_contains`, `rank_eq_of_contains`: windows lie in the order of their ranks,
  and those of different ranks have no number in common.
* `contains_of_middle`: a magnitude lies in its own window.
-/

namespace ComponentProps

namespace Decimal

/-! ## Numbers in windows -/

/-- Whether a number lies between two ends, the ends included or not. -/
def Within (closed : Bool) (low number high : ℚ) : Prop :=
  if closed then low ≤ number ∧ number ≤ high else low < number ∧ number < high

theorem within_mul_iff {closed : Bool} {low number high factor : ℚ} (h : 0 < factor) :
    Within closed (low * factor) (number * factor) (high * factor) ↔
      Within closed low number high := by
  unfold Within
  simp only [mul_le_mul_iff_of_pos_right h, mul_lt_mul_iff_of_pos_right h]

theorem Within.le {closed : Bool} {low number high : ℚ} (h : Within closed low number high) :
    low ≤ number ∧ number ≤ high := by
  unfold Within at h
  split at h
  · exact h
  · exact ⟨h.1.le, h.2.le⟩

/-- What lies between two numbers between the ends lies there too. -/
theorem Within.between {closed : Bool} {low high smaller number larger : ℚ}
    (hsmaller : Within closed low smaller high) (hlarger : Within closed low larger high)
    (habove : smaller ≤ number) (hbelow : number ≤ larger) : Within closed low number high := by
  unfold Within at *
  split
  next hclosed =>
    rw [if_pos hclosed] at hsmaller hlarger
    exact ⟨hsmaller.1.trans habove, hbelow.trans hlarger.2⟩
  next hopen =>
    rw [if_neg hopen] at hsmaller hlarger
    exact ⟨hsmaller.1.trans_le habove, hbelow.trans_lt hlarger.2⟩

/-- Only a window with its ends holds one of them. -/
theorem Within.closed_of_eq {closed : Bool} {low number high : ℚ}
    (h : Within closed low number high) (hend : number = low ∨ number = high) :
    closed = true := by
  unfold Within at h
  split at h
  next hclosed => exact hclosed
  next =>
    rcases hend with hend | hend
    · exact absurd h.1 (by rw [hend]; exact lt_irrefl _)
    · exact absurd h.2 (by rw [hend]; exact lt_irrefl _)

theorem within_of_lt {low number high : ℚ} (closed : Bool) (hlow : low < number)
    (hhigh : number < high) : Within closed low number high := by
  unfold Within
  split
  · exact ⟨hlow.le, hhigh.le⟩
  · exact ⟨hlow, hhigh⟩

namespace Window

/-- Whether a number lies in a window. -/
def Contains (w : Window) (number : ℚ) : Prop := Within w.closed w.low (number * w.unit) w.high

/-- With two numbers, a window holds all that lies between them. -/
theorem Contains.between {w : Window} {smaller number larger : ℚ} (hsmaller : w.Contains smaller)
    (hlarger : w.Contains larger) (habove : smaller ≤ number) (hbelow : number ≤ larger) :
    w.Contains number :=
  Within.between hsmaller hlarger (mul_le_mul_of_nonneg_right habove (Nat.cast_nonneg _))
    (mul_le_mul_of_nonneg_right hbelow (Nat.cast_nonneg _))

/-- The comparisons of natural numbers say whether a decimal lies in a window. -/
theorem holds_iff {w : Window} {coefficient : Nat} {exponent : Int} :
    w.holds coefficient exponent = true ↔ w.Contains (value ⟨coefficient, exponent⟩) := by
  have hpow := zpow_mul_pow_toNat_neg 10 (by norm_num) exponent
  have hfactor : (0 : ℚ) < 10 ^ (-exponent).toNat := by positivity
  have hnumber : value ⟨coefficient, exponent⟩ * w.unit * 10 ^ (-exponent).toNat =
      (coefficient * 10 ^ exponent.toNat * w.unit : Nat) := by
    push_cast
    rw [← hpow, value]
    ring
  rw [Contains, ← within_mul_iff hfactor, hnumber]
  unfold holds Within
  dsimp only
  split
  · rw [decide_eq_true_eq]
    norm_cast
  · rw [decide_eq_true_eq]
    norm_cast

end Window

/-! ## Ranks -/

/-- The place of a double among the magnitudes, in the order of their size. -/
def rank (x : Float) : Nat := exponentField x * 2 ^ 52 + fractionField x

/-- Four times the significand of a rank. -/
def quarters (rank : Nat) : Nat :=
  4 * if rank / 2 ^ 52 = 0 then rank % 2 ^ 52 else rank % 2 ^ 52 + 2 ^ 52

/-- How many parts of one the ends of windows are counted in.  No window has an end
between two of these parts. -/
def grain : ℚ := 2 ^ 1076

theorem grain_pos : 0 < grain := pow_pos (by norm_num) 1076

/-- The lower end of the window of a rank, counted in these parts. -/
def lowerEnd (rank : Nat) : Nat :=
  (quarters rank - if rank % 2 ^ 52 = 0 ∧ 1 < rank / 2 ^ 52 then 1 else 2) *
    2 ^ (rank / 2 ^ 52 - 1)

/-- The upper end of the window of a rank. -/
def upperEnd (rank : Nat) : Nat := (quarters rank + 2) * 2 ^ (rank / 2 ^ 52 - 1)

/-- A window ends where the next one begins. -/
theorem upperEnd_eq (rank : Nat) : upperEnd rank = lowerEnd (rank + 1) := by
  unfold upperEnd lowerEnd quarters
  by_cases hlast : rank % 2 ^ 52 + 1 = 2 ^ 52
  -- the next power of two, with twice the distance to the magnitude above it
  · have hexponent : (rank + 1) / 2 ^ 52 = rank / 2 ^ 52 + 1 := by omega
    have hfraction : (rank + 1) % 2 ^ 52 = 0 := by omega
    have hlast' : rank % 2 ^ 52 = 2 ^ 52 - 1 := by omega
    rw [hexponent, hfraction, hlast']
    cases rank / 2 ^ 52 with
    | zero => norm_num
    | succ exponent =>
      have hnext : exponent + 1 + 1 - 1 = exponent + 1 := rfl
      rw [hnext, Nat.add_sub_cancel, pow_succ 2 exponent]
      norm_num
      omega
  · have hexponent : (rank + 1) / 2 ^ 52 = rank / 2 ^ 52 := by omega
    have hfraction : (rank + 1) % 2 ^ 52 = rank % 2 ^ 52 + 1 := by omega
    rw [hexponent, hfraction]
    congr 1
    split <;> simp <;> omega

theorem lowerEnd_lt (rank : Nat) : lowerEnd rank < lowerEnd (rank + 1) := by
  rw [← upperEnd_eq, upperEnd, lowerEnd]
  refine Nat.mul_lt_mul_of_pos_right ?_ (Nat.two_pow_pos _)
  split <;> omega

/-- Windows lie in the order of their ranks. -/
theorem strictMono_lowerEnd : StrictMono lowerEnd := strictMono_nat_of_lt_succ lowerEnd_lt

theorem rank_div (x : Float) : rank x / 2 ^ 52 = exponentField x := by
  have hlt := fractionField_lt x
  unfold rank
  omega

theorem rank_mod (x : Float) : rank x % 2 ^ 52 = fractionField x := by
  have hlt := fractionField_lt x
  unfold rank
  omega

theorem quarters_rank (x : Float) : quarters (rank x) = 4 * significand x := by
  rw [quarters, rank_div, rank_mod, significand_eq]

theorem significand_mod_two (x : Float) : significand x % 2 = rank x % 2 := by
  rw [significand_eq]
  unfold rank
  split <;> omega

/-- A window includes its ends if its rank is even. -/
theorem closed_window (x : Float) : (window x).closed = decide (rank x % 2 = 0) := by
  show (significand x % 2 == 0) = _
  rw [significand_mod_two]
  rfl

/-- The window of a double, counted as all windows are. -/
theorem contains_window_iff {x : Float} {number : ℚ} :
    (window x).Contains number ↔
      Within (decide (rank x % 2 = 0)) (lowerEnd (rank x)) (number * grain)
        (lowerEnd (rank x + 1)) := by
  have hgrain := grain_pos
  have hfactor : (0 : ℚ) < (window x).unit / grain := by
    have hunit : (0 : ℚ) < (window x).unit := by
      exact_mod_cast Nat.two_pow_pos (2 - binaryExponent x).toNat
    exact div_pos hunit hgrain
  have hscale : (2 ^ (binaryExponent x - 2).toNat : ℚ) =
      2 ^ (exponentField x - 1) * ((window x).unit / grain) := by
    have hunit : ((window x).unit : ℚ) = 2 ^ (2 - binaryExponent x).toNat := by
      exact_mod_cast rfl
    have hexponents : (binaryExponent x - 2).toNat + 1076 =
        exponentField x - 1 + (2 - binaryExponent x).toNat := by
      unfold binaryExponent
      omega
    rw [hunit, ← mul_div_assoc, eq_div_iff hgrain.ne', grain, ← pow_add, ← pow_add, hexponents]
  have hlow : ((window x).low : ℚ) = lowerEnd (rank x) * ((window x).unit / grain) := by
    have hlow : (window x).low = (quarters (rank x) -
        if fractionField x = 0 ∧ 1 < exponentField x then 1 else 2) *
          2 ^ (binaryExponent x - 2).toNat := by
      rw [quarters_rank]
      rfl
    rw [hlow, lowerEnd, rank_div, rank_mod]
    push_cast
    rw [hscale]
    ring
  have hhigh : ((window x).high : ℚ) =
      lowerEnd (rank x + 1) * ((window x).unit / grain) := by
    have hhigh : (window x).high =
        (quarters (rank x) + 2) * 2 ^ (binaryExponent x - 2).toNat := by
      rw [quarters_rank]
      rfl
    rw [hhigh, ← upperEnd_eq, upperEnd, rank_div]
    push_cast
    rw [hscale]
    ring
  have hnumber : number * (window x).unit =
      number * grain * ((window x).unit / grain) := by
    field_simp
  rw [Window.Contains, closed_window, hlow, hhigh, hnumber, within_mul_iff hfactor]

/-- Of two numbers the smaller one lies in the window of the smaller magnitude. -/
theorem rank_le_of_contains {x y : Float} {number other : ℚ} (h : number ≤ other)
    (hx : (window x).Contains number) (hy : (window y).Contains other) : rank x ≤ rank y := by
  rw [contains_window_iff] at hx hy
  by_contra hlt
  have hle : rank y + 1 ≤ rank x := by omega
  have hends : (lowerEnd (rank y + 1) : ℚ) ≤ lowerEnd (rank x) := by
    exact_mod_cast strictMono_lowerEnd.monotone hle
  have hlow := hx.le.1
  have hhigh := hy.le.2
  have hscaled : number * grain ≤ other * grain := mul_le_mul_of_nonneg_right h grain_pos.le
  -- both numbers are the end that the two windows share, so both windows include it
  have hx_end : number * grain = lowerEnd (rank x) := by linarith
  have hy_end : other * grain = lowerEnd (rank y + 1) := by linarith
  have hx_even := hx.closed_of_eq (Or.inl hx_end)
  have hy_even := hy.closed_of_eq (Or.inr hy_end)
  have hnext : rank y + 1 = rank x := by
    apply strictMono_lowerEnd.injective
    have hends' : (lowerEnd (rank y + 1) : ℚ) = lowerEnd (rank x) := by linarith
    exact_mod_cast hends'
  rw [decide_eq_true_eq] at hx_even hy_even
  omega

/-- A number names the magnitude in whose window it lies. -/
theorem rank_eq_of_contains {x y : Float} {number : ℚ} (hx : (window x).Contains number)
    (hy : (window y).Contains number) : rank x = rank y :=
  Nat.le_antisymm (rank_le_of_contains le_rfl hx hy) (rank_le_of_contains le_rfl hy hx)

/-! ## Magnitudes -/

theorem low_lt_middle {x : Float} (h : significand x ≠ 0) :
    (window x).low < (window x).middle := by
  refine Nat.mul_lt_mul_of_pos_right ?_ (Nat.two_pow_pos _)
  split <;> omega

theorem middle_lt_high (x : Float) : (window x).middle < (window x).high :=
  Nat.mul_lt_mul_of_pos_right (by omega) (Nat.two_pow_pos _)

/-- A magnitude lies in its own window. -/
theorem contains_of_middle {x : Float} {number : ℚ}
    (h : number * (window x).unit = (window x).middle) : (window x).Contains number := by
  have hhigh := middle_lt_high x
  have hlow : (window x).low ≤ (window x).middle :=
    Nat.mul_le_mul_right _ (Nat.sub_le _ _)
  rw [Window.Contains, h, Within]
  split
  next => exact ⟨by exact_mod_cast hlow, by exact_mod_cast hhigh.le⟩
  next hopen =>
    have hclosed : (window x).closed = (significand x % 2 == 0) := rfl
    have hne : significand x ≠ 0 := by
      rw [hclosed, beq_iff_eq] at hopen
      omega
    have hlt := low_lt_middle hne
    exact ⟨by exact_mod_cast hlt, by exact_mod_cast hhigh⟩

end Decimal

end ComponentProps
