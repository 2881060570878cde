import ComponentProps.Proofs.Decimal.Rounding
import ComponentProps.Proofs.Decimal.Shortest

/-!
# The fewest digits that read back

The search for the shortest decimal of a double tries one number of digits after the
other and looks at two candidates for each.  What it finds is the best there is: no
decimal with fewer digits rounds to the double, and of those with as many none is nearer.

* `IsShortest`, `IsNearest`: the two properties.
* `pow_point_le_value`, `value_lt_pow_point`: where the first digit of a decimal stands.
* `nearest?_up_cases`, `distance_le_of_nearest?`: of a grid, the search takes the nearest
  point in the window, and the larger one of two.
* `exists_on_grid`: a decimal of so many digits lies on the grid of as many digits as
  the magnitude, or a power of ten on that grid lies between the two.
* `shortest_places`, `isShortest_shortest`: the grid on which the search ends, and why no
  decimal has fewer digits than this grid.
* `isNearest_shortest`: the result of the search.
-/

namespace ComponentProps

namespace Decimal

variable {x : Float} {d : Decimal}

/-- A decimal with the fewest digits of those that round to a double. -/
structure IsShortest (x : Float) (d : Decimal) : Prop where
  coefficient_ne_zero : d.coefficient ≠ 0
  roundsTo : RoundsTo d.value x
  least : ∀ e : Decimal, e.coefficient ≠ 0 → RoundsTo e.value x →
    digitCount d.coefficient ≤ digitCount e.coefficient

/-- The shortest decimal of a double that is nearest to it, the larger one of two. -/
structure IsNearest (x : Float) (d : Decimal) : Prop where
  isShortest : IsShortest x d
  nearest : ∀ e, IsShortest x e → |d.value - magnitude x| ≤ |e.value - magnitude x|
  larger : ∀ e, IsShortest x e → |d.value - magnitude x| = |e.value - magnitude x| →
    e.value ≤ d.value

/-! ## Places -/

theorem value_nonneg (d : Decimal) : 0 ≤ d.value := by
  unfold value
  positivity

theorem value_mono {smaller larger : Nat} (h : smaller ≤ larger) (exponent : Int) :
    value ⟨smaller, exponent⟩ ≤ value ⟨larger, exponent⟩ := by
  unfold value
  have hcast : (smaller : ℚ) ≤ larger := by exact_mod_cast h
  exact mul_le_mul_of_nonneg_right hcast (by positivity)

theorem point_eq (h : d.coefficient ≠ 0) : d.point = digitCount d.coefficient + d.exponent := by
  unfold point digits digitCount
  rw [if_neg h]

/-- A decimal is not below the power of ten of its first digit. -/
theorem pow_point_le_value (h : d.coefficient ≠ 0) : (10 : ℚ) ^ (d.point - 1) ≤ d.value := by
  have hcount := digitCount_pos h
  have hexponent : d.point - 1 = (digitCount d.coefficient - 1 : Nat) + d.exponent := by
    rw [point_eq h]
    omega
  have hdigits : (10 : ℚ) ^ (digitCount d.coefficient - 1) ≤ d.coefficient := by
    exact_mod_cast pow_digitCount_le h
  rw [hexponent, zpow_add₀ (by norm_num), zpow_natCast, value]
  exact mul_le_mul_of_nonneg_right hdigits (by positivity)

/-- A decimal with so many digits is below the power of ten behind them. -/
theorem value_lt_pow {places : Nat} (h : d.coefficient < 10 ^ places) :
    d.value < 10 ^ (places + d.exponent) := by
  have hdigits : (d.coefficient : ℚ) < 10 ^ places := by exact_mod_cast h
  rw [zpow_add₀ (by norm_num), zpow_natCast, value]
  exact mul_lt_mul_of_pos_right hdigits (by positivity)

/-- A decimal is below the power of ten behind its first digit. -/
theorem value_lt_pow_point (h : d.coefficient ≠ 0) : d.value < (10 : ℚ) ^ d.point := by
  rw [point_eq h]
  exact value_lt_pow (lt_pow_digitCount d.coefficient)

/-! ## Magnitudes among decimals -/

theorem window_unit_pos (x : Float) : 0 < (window x).unit := Nat.two_pow_pos _

theorem magnitude_mul_unit (x : Float) :
    magnitude x * (window x).unit = (window x).middle := by
  have hexponent : binaryExponent x + (2 - binaryExponent x).toNat =
      2 + ((binaryExponent x - 2).toNat : Int) := by omega
  have hpow : (2 : ℚ) ^ binaryExponent x * 2 ^ (2 - binaryExponent x).toNat =
      2 ^ 2 * 2 ^ (binaryExponent x - 2).toNat := by
    rw [← zpow_natCast 2 (2 - binaryExponent x).toNat, ← zpow_add₀ (by norm_num), hexponent,
      zpow_add₀ (by norm_num), zpow_natCast]
    rfl
  have hunit : ((window x).unit : ℚ) = 2 ^ (2 - binaryExponent x).toNat := by
    exact_mod_cast rfl
  have hmiddle : ((window x).middle : ℚ) =
      4 * significand x * 2 ^ (binaryExponent x - 2).toNat := by
    exact_mod_cast rfl
  rw [hunit, hmiddle, magnitude, mul_assoc, hpow]
  ring

theorem contains_magnitude (x : Float) : (window x).Contains (magnitude x) :=
  contains_of_middle (magnitude_mul_unit x)

section Nonzero

variable (h : significand x ≠ 0)

include h

theorem window_middle_pos : 0 < (window x).middle := by
  have hlow := low_lt_middle h
  omega

theorem pow_point_le_magnitude : (10 : ℚ) ^ ((window x).point - 1) ≤ magnitude x := by
  have hunit : (0 : ℚ) < (window x).unit := by exact_mod_cast window_unit_pos x
  rw [← mul_le_mul_iff_of_pos_right hunit, magnitude_mul_unit]
  exact Window.pow_point_le (window_unit_pos x) (window_middle_pos h)

theorem magnitude_lt_pow_point : magnitude x < (10 : ℚ) ^ (window x).point := by
  have hunit : (0 : ℚ) < (window x).unit := by exact_mod_cast window_unit_pos x
  rw [← mul_lt_mul_iff_of_pos_right hunit, magnitude_mul_unit]
  exact Window.lt_pow_point (window_unit_pos x) (window_middle_pos h)

/-- No decimal without a coefficient rounds to a double other than zero. -/
theorem coefficient_ne_zero_of_contains (hd : (window x).Contains d.value) :
    d.coefficient ≠ 0 := by
  intro hzero
  have hvalue : d.value = 0 := by rw [value, hzero, Nat.cast_zero, zero_mul]
  have hlow : 0 < (window x).low := by
    show 0 < (4 * significand x - _) * 2 ^ _
    refine Nat.mul_pos ?_ (Nat.two_pow_pos _)
    split <;> omega
  have hle := hd.le.1
  rw [hvalue, zero_mul] at hle
  have hpos : (0 : ℚ) < (window x).low := by exact_mod_cast hlow
  linarith

end Nonzero

/-! ## One number of digits -/

section Grid

variable {exponent : Int} {coefficient other : Nat}

/-- The neighbour of a magnitude below it on a grid. -/
theorem gridBelow_le_magnitude (x : Float) (exponent : Int) :
    value ⟨(window x).gridBelow exponent, exponent⟩ ≤ magnitude x := by
  have hunit : (0 : ℚ) < (window x).unit := by exact_mod_cast window_unit_pos x
  rw [← mul_le_mul_iff_of_pos_right hunit, magnitude_mul_unit]
  exact (Window.gridBelow_le (window_unit_pos x) exponent).1

/-- The neighbour of a magnitude above it on a grid. -/
theorem magnitude_lt_gridAbove (x : Float) (exponent : Int) :
    magnitude x < value ⟨(window x).gridBelow exponent + 1, exponent⟩ := by
  have hunit : (0 : ℚ) < (window x).unit := by exact_mod_cast window_unit_pos x
  rw [← mul_lt_mul_iff_of_pos_right hunit, magnitude_mul_unit]
  exact (Window.gridBelow_le (window_unit_pos x) exponent).2

/-- The comparison that decides between two neighbours asks on which side of their
middle the magnitude lies. -/
theorem compare_middle (x : Float) (exponent : Int) (down : Nat) :
    compare (2 * ((window x).middle * 10 ^ (-exponent).toNat))
        ((2 * down + 1) * ((window x).unit * 10 ^ exponent.toNat)) =
      compare (2 * magnitude x) (value ⟨down, exponent⟩ + value ⟨down + 1, exponent⟩) := by
  have hunit : (0 : ℚ) < (window x).unit := by exact_mod_cast window_unit_pos x
  have hfactor : (0 : ℚ) < (window x).unit * 10 ^ (-exponent).toNat := by positivity
  have hpow := zpow_mul_pow_toNat_neg 10 (by norm_num) exponent
  have hnumerator : (2 * magnitude x) * ((window x).unit * 10 ^ (-exponent).toNat) =
      (2 * ((window x).middle * 10 ^ (-exponent).toNat) : Nat) := by
    push_cast
    rw [← magnitude_mul_unit]
    ring
  have hdenominator : (value ⟨down, exponent⟩ + value ⟨down + 1, exponent⟩) *
      ((window x).unit * 10 ^ (-exponent).toNat) =
        ((2 * down + 1) * ((window x).unit * 10 ^ exponent.toNat) : Nat) := by
    push_cast
    rw [← hpow, value, value]
    push_cast
    ring
  rcases lt_trichotomy (2 * magnitude x)
    (value ⟨down, exponent⟩ + value ⟨down + 1, exponent⟩) with hlt | heq | hgt
  · rw [compare_lt_iff_lt.2 hlt, compare_lt_iff_lt]
    rw [← mul_lt_mul_iff_of_pos_right hfactor, hnumerator, hdenominator] at hlt
    exact_mod_cast hlt
  · rw [compare_eq_iff_eq.2 heq, compare_eq_iff_eq]
    rw [← mul_left_inj' hfactor.ne', hnumerator, hdenominator] at heq
    exact_mod_cast heq
  · rw [compare_gt_iff_gt.2 hgt, compare_gt_iff_gt]
    rw [← mul_lt_mul_iff_of_pos_right hfactor, hnumerator, hdenominator] at hgt
    exact_mod_cast hgt

/-- The search takes the neighbour below if the other one does not lie in the window or is
farther away, and otherwise the neighbour above. -/
theorem nearest?_up_cases (h : (window x).nearest? .up exponent = some coefficient) :
    coefficient = (window x).gridBelow exponent ∧
        (¬ (window x).Contains (value ⟨(window x).gridBelow exponent + 1, exponent⟩) ∨
          2 * magnitude x < value ⟨(window x).gridBelow exponent, exponent⟩ +
            value ⟨(window x).gridBelow exponent + 1, exponent⟩) ∨
      coefficient = (window x).gridBelow exponent + 1 ∧
        (¬ (window x).Contains (value ⟨(window x).gridBelow exponent, exponent⟩) ∨
          value ⟨(window x).gridBelow exponent, exponent⟩ +
            value ⟨(window x).gridBelow exponent + 1, exponent⟩ ≤ 2 * magnitude x) := by
  have hmiddle := compare_middle x exponent ((window x).gridBelow exponent)
  rw [← Window.holds_iff, ← Window.holds_iff]
  unfold Window.nearest? at h
  dsimp only at h
  unfold Window.gridBelow at hmiddle ⊢
  generalize (window x).middle * 10 ^ (-exponent).toNat = numerator at h hmiddle ⊢
  generalize (window x).unit * 10 ^ exponent.toNat = denominator at h hmiddle ⊢
  generalize numerator / denominator = down at h hmiddle ⊢
  cases hdown : (window x).holds down exponent <;>
    cases hup : (window x).holds (down + 1) exponent <;> rw [hdown, hup] at h
  · cases h
  · cases h
    exact .inr ⟨rfl, .inl (by decide)⟩
  · cases h
    exact .inl ⟨rfl, .inl (by decide)⟩
  · dsimp only at h
    rw [hmiddle] at h
    split at h
    next hlt =>
      cases h
      exact .inl ⟨rfl, .inr (compare_lt_iff_lt.1 hlt)⟩
    next heq =>
      cases h
      exact .inr ⟨rfl, .inr (compare_eq_iff_eq.1 heq).ge⟩
    next hgt =>
      cases h
      exact .inr ⟨rfl, .inr (compare_gt_iff_gt.1 hgt).le⟩

/-- Of a grid, the search takes the nearest point in the window, and the larger one of
two. -/
theorem distance_le_of_nearest? (h : (window x).nearest? .up exponent = some coefficient)
    (hother : (window x).Contains (value ⟨other, exponent⟩)) :
    |value ⟨coefficient, exponent⟩ - magnitude x| ≤ |value ⟨other, exponent⟩ - magnitude x| ∧
      (|value ⟨coefficient, exponent⟩ - magnitude x| = |value ⟨other, exponent⟩ - magnitude x| →
        value ⟨other, exponent⟩ ≤ value ⟨coefficient, exponent⟩) := by
  have hbelow := gridBelow_le_magnitude x exponent
  have habove := magnitude_lt_gridAbove x exponent
  have hcases := nearest?_up_cases h
  generalize (window x).gridBelow exponent = down at hbelow habove hcases
  rcases Nat.lt_or_ge down other with hup | hdown
  -- the other point is not below the magnitude
  · have hfar : value ⟨down + 1, exponent⟩ ≤ value ⟨other, exponent⟩ := value_mono hup exponent
    have hinside : (window x).Contains (value ⟨down + 1, exponent⟩) :=
      (contains_magnitude x).between hother habove.le hfar
    rw [abs_of_nonneg (by linarith : 0 ≤ value ⟨other, exponent⟩ - magnitude x)]
    obtain ⟨rfl, hout | hlower⟩ | ⟨rfl, -⟩ := hcases
    · exact absurd hinside hout
    · rw [abs_of_nonpos (by linarith)]
      constructor
      · linarith
      · intro hequal
        linarith
    · rw [abs_of_nonneg (by linarith)]
      constructor
      · linarith
      · intro hequal
        linarith
  -- the other point is not above the magnitude
  · have hfar : value ⟨other, exponent⟩ ≤ value ⟨down, exponent⟩ := value_mono hdown exponent
    have hinside : (window x).Contains (value ⟨down, exponent⟩) :=
      hother.between (contains_magnitude x) hfar hbelow
    rw [abs_of_nonpos (by linarith : value ⟨other, exponent⟩ - magnitude x ≤ 0)]
    obtain ⟨rfl, -⟩ | ⟨rfl, hout | hupper⟩ := hcases
    · rw [abs_of_nonpos (by linarith)]
      exact ⟨by linarith, fun _ => hfar⟩
    · exact absurd hinside hout
    · rw [abs_of_nonneg (by linarith)]
      exact ⟨by linarith, fun _ => by linarith⟩

/-- The search finds something if any point of the grid lies in the window. -/
theorem exists_nearest?_of_contains (tie : Tie)
    (h : (window x).Contains (value ⟨coefficient, exponent⟩)) :
    ∃ found, (window x).nearest? tie exponent = some found := by
  have hbelow := gridBelow_le_magnitude x exponent
  have habove := magnitude_lt_gridAbove x exponent
  apply Window.exists_nearest?
  rw [Window.holds_iff, Window.holds_iff]
  rcases Nat.lt_or_ge ((window x).gridBelow exponent) coefficient with hup | hdown
  · exact .inr ((contains_magnitude x).between h habove.le (value_mono hup exponent))
  · exact .inl (h.between (contains_magnitude x) (value_mono hdown exponent) hbelow)

/-- What the search finds on the grid of so many digits has these digits, or is the power
of ten behind them. -/
theorem coefficient_le_of_nearest? {tie : Tie} {places : Nat} (hx : significand x ≠ 0)
    (h : (window x).nearest? tie ((window x).point - places) = some coefficient) :
    coefficient ≤ 10 ^ places := by
  have hbelow := gridBelow_le_magnitude x ((window x).point - places)
  have hmagnitude := magnitude_lt_pow_point hx
  have hneighbour := (Window.neighbour_of_nearest? h).1
  generalize (window x).gridBelow ((window x).point - places) = down at hbelow hneighbour
  have hpow : (10 : ℚ) ^ (window x).point = 10 ^ places * 10 ^ ((window x).point - places) := by
    rw [← zpow_natCast, ← zpow_add₀ (by norm_num)]
    congr 1
    omega
  have hdown : (down : ℚ) < 10 ^ places := by
    have hpos : (0 : ℚ) < 10 ^ ((window x).point - places) := by positivity
    rw [← mul_lt_mul_iff_of_pos_right hpos, ← hpow]
    exact hbelow.trans_lt hmagnitude
  have hnat : down < 10 ^ places := by exact_mod_cast hdown
  omega

/-- A decimal of at most so many digits lies on the grid of the magnitude with as many
digits, or it is below the first power of ten on this grid and the magnitude is not. -/
theorem exists_on_grid {places : Nat} (hx : significand x ≠ 0) (hplaces : 0 < places)
    (hd : d.coefficient < 10 ^ places) :
    ∃ coefficient, value ⟨coefficient, (window x).point - places⟩ = d.value ∨
      d.value < value ⟨coefficient, (window x).point - places⟩ ∧
        value ⟨coefficient, (window x).point - places⟩ ≤ magnitude x := by
  rcases lt_or_ge d.exponent ((window x).point - places) with hfine | hcoarse
  · refine ⟨10 ^ (places - 1), .inr ?_⟩
    have hpower : value ⟨10 ^ (places - 1), (window x).point - places⟩ =
        10 ^ ((window x).point - 1) := by
      unfold value
      push_cast
      rw [← zpow_natCast, ← zpow_add₀ (by norm_num)]
      congr 1
      omega
    rw [hpower]
    refine ⟨(value_lt_pow hd).trans_le ?_, pow_point_le_magnitude hx⟩
    exact zpow_le_zpow_right₀ (by norm_num) (by omega)
  · refine ⟨d.coefficient * 10 ^ (d.exponent - ((window x).point - places)).toNat, .inl ?_⟩
    unfold value
    push_cast
    rw [mul_assoc, ← zpow_natCast, ← zpow_add₀ (by norm_num)]
    congr 2
    omega

end Grid

/-! ## Zeros at the end -/

theorem coefficient_trim_le (limit : Nat) (d : Decimal) :
    (trim limit d).coefficient ≤ d.coefficient := by
  induction limit generalizing d with
  | zero => rfl
  | succ limit ih =>
    rw [trim]
    split
    next => exact (ih _).trans (Nat.div_le_self _ _)
    next => rfl

/-- A power of ten is trimmed to one digit. -/
theorem coefficient_trim_pow {limit places : Nat} (h : places ≤ limit) (exponent : Int) :
    (trim limit ⟨10 ^ places, exponent⟩).coefficient = 1 := by
  induction places generalizing limit exponent with
  | zero => cases limit <;> simp [trim]
  | succ places ih =>
    obtain ⟨rest, rfl⟩ : ∃ rest, limit = rest + 1 := ⟨limit - 1, by omega⟩
    have hdivides : 10 ^ (places + 1) % 10 = 0 ∧ 10 ^ (places + 1) ≠ 0 :=
      ⟨by rw [pow_succ, Nat.mul_mod_left], by positivity⟩
    rw [trim, if_pos hdivides, pow_succ, Nat.mul_div_cancel _ (by norm_num)]
    exact ih (by omega) _

theorem digitCount_trim_le {limit places : Nat} (hplaces : 0 < places) (hlimit : places ≤ limit)
    (h : d.coefficient ≤ 10 ^ places) : digitCount (trim limit d).coefficient ≤ places := by
  rw [digitCount_le_iff]
  rcases h.lt_or_eq with hlt | heq
  · exact (coefficient_trim_le limit d).trans_lt hlt
  · obtain ⟨coefficient, exponent⟩ := d
    subst heq
    rw [coefficient_trim_pow hlimit]
    exact Nat.one_lt_pow hplaces.ne' (by norm_num)

/-! ## The search -/

/-- What the search finds has no more digits than the grid on which it finds it, and it
finds nothing on the grids with fewer. -/
theorem shortest_places (tie : Tie) (hx : significand x ≠ 0) :
    ∃ places coefficient, digitCount (shortest tie x).coefficient ≤ places ∧
      (shortest tie x).value = value ⟨coefficient, (window x).point - places⟩ ∧
      (window x).nearest? tie ((window x).point - places) = some coefficient ∧
      ∀ fewer, 0 < fewer → fewer < places →
        (window x).nearest? tie ((window x).point - fewer) = none := by
  obtain ⟨n, coefficient, hn, hshortest, hfound, hnone⟩ := shortest_cases tie hx
  refine ⟨n + 1, coefficient, ?_, by rw [hshortest, value_trim], hfound, ?_⟩
  · rw [hshortest]
    exact digitCount_trim_le n.succ_pos hn (coefficient_le_of_nearest? hx hfound)
  · intro fewer hpos hfewer
    have hpassed := hnone (fewer - 1) (by omega)
    rwa [Nat.sub_add_cancel hpos] at hpassed

section Search

variable (hfinite : exponentField x ≠ 2047) (hx : significand x ≠ 0)

include hfinite hx

/-- No decimal with fewer digits than the search finds rounds to the double. -/
theorem isShortest_shortest (tie : Tie) : IsShortest x (shortest tie x) := by
  have hcontains := contains_shortest tie hx
  refine ⟨coefficient_ne_zero_of_contains hx hcontains, roundsTo_of_contains hcontains, ?_⟩
  intro e he hround
  have hinside := contains_of_roundsTo hfinite (value_nonneg e) hround
  obtain ⟨places, coefficient, hdigits, -, -, hnone⟩ := shortest_places tie hx
  by_contra hfewer
  -- the decimal has a neighbour on a grid that the search has passed without success
  have hpos := digitCount_pos he
  obtain ⟨other, hother⟩ := exists_on_grid hx hpos (lt_pow_digitCount e.coefficient)
  have hother_inside : (window x).Contains
      (value ⟨other, (window x).point - digitCount e.coefficient⟩) := by
    rcases hother with heq | ⟨hlt, hle⟩
    · rwa [heq]
    · exact hinside.between (contains_magnitude x) hlt.le hle
  obtain ⟨found, hsome⟩ := exists_nearest?_of_contains tie hother_inside
  rw [hnone _ hpos (by omega)] at hsome
  cases hsome

/-- Of the shortest decimals the search takes the nearest, and the larger one of two. -/
theorem isNearest_shortest : IsNearest x (shortest .up x) := by
  have hshort := isShortest_shortest hfinite hx .up
  obtain ⟨places, coefficient, hdigits, hvalue, hfound, -⟩ := shortest_places .up hx
  have hplaces := (digitCount_pos hshort.coefficient_ne_zero).trans_le hdigits
  have hbest (e : Decimal) (he : IsShortest x e) :
      |(shortest .up x).value - magnitude x| ≤ |e.value - magnitude x| ∧
        (|(shortest .up x).value - magnitude x| = |e.value - magnitude x| →
          e.value ≤ (shortest .up x).value) := by
    have hinside := contains_of_roundsTo hfinite (value_nonneg e) he.roundsTo
    have hcount := he.least _ hshort.coefficient_ne_zero hshort.roundsTo
    obtain ⟨other, hother⟩ :=
      exists_on_grid hx hplaces (digitCount_le_iff.1 (hcount.trans hdigits))
    rw [hvalue]
    rcases hother with heq | ⟨hbelow, hle⟩
    · rw [← heq] at hinside ⊢
      exact distance_le_of_nearest? hfound hinside
    -- a power of ten that rounds to the double is nearer than this decimal
    · have hnear := (distance_le_of_nearest? hfound
        (hinside.between (contains_magnitude x) hbelow.le hle)).1
      rw [abs_of_nonpos (by linarith : value ⟨other, _⟩ - magnitude x ≤ 0)] at hnear
      rw [abs_of_nonpos (by linarith : e.value - magnitude x ≤ 0)]
      constructor
      · linarith
      · intro hequal
        linarith
  exact ⟨hshort, fun e he => (hbest e he).1, fun e he => (hbest e he).2⟩

end Search

-- half way between two decimals of sixteen digits
example : shortest .up 8.9107818603515625 = ⟨8910781860351563, -15⟩ := by decide +kernel

end Decimal

end ComponentProps
