import ComponentProps.Proofs.Decimal.Window

/-!
# The shortest decimal rounds to its double

The search for the shortest decimal of a double ends in the window of the double.

* `digitCount_le_iff`: numbers of so many digits are those below a power of ten.
* `Window.pow_point_le`, `Window.lt_pow_point`: the first digit of a magnitude stands
  where `Window.point` says.
* `Window.contains_neighbour`: on a grid that is finer than a window, one of the two
  neighbours of the magnitude lies in the window.
* `middle_lt_width`: windows are wider than grids of seventeen digits, so that the
  search does not fail.
* `shortest_cases`: the search stops at the first number of digits that will do.
* `contains_shortest`: what is found lies in the window.
-/

namespace ComponentProps

namespace Decimal

/-! ## Digits -/

theorem lt_pow_digitCount (n : Nat) : n < 10 ^ digitCount n := by
  unfold digitCount
  split
  next h =>
    rw [h]
    exact Nat.one_pos
  next =>
    exact (Nat.length_toDigits_le_iff (by norm_num) Nat.length_toDigits_pos).1 le_rfl

theorem pow_digitCount_le {n : Nat} (h : n ≠ 0) : 10 ^ (digitCount n - 1) ≤ n := by
  unfold digitCount
  rw [if_neg h]
  by_cases hone : (Nat.toDigits 10 n).length - 1 = 0
  · rw [hone]
    exact Nat.one_le_iff_ne_zero.2 h
  · have hlonger : ¬ (Nat.toDigits 10 n).length ≤ (Nat.toDigits 10 n).length - 1 := by omega
    rw [Nat.length_toDigits_le_iff (by norm_num) (Nat.pos_of_ne_zero hone)] at hlonger
    exact Nat.le_of_not_lt hlonger

theorem digitCount_pos {n : Nat} (h : n ≠ 0) : 0 < digitCount n := by
  unfold digitCount
  rw [if_neg h]
  exact Nat.length_toDigits_pos

theorem digitCount_le_iff {n places : Nat} : digitCount n ≤ places ↔ n < 10 ^ places := by
  constructor
  · intro h
    exact (lt_pow_digitCount n).trans_le (Nat.pow_le_pow_right (by norm_num) h)
  · intro h
    by_cases hzero : n = 0
    · rw [hzero]
      exact Nat.zero_le _
    · have hdigits := (pow_digitCount_le hzero).trans_lt h
      rw [Nat.pow_lt_pow_iff_right (by norm_num)] at hdigits
      omega

namespace Window

variable {w : Window}

/-- A magnitude is not below the power of ten of its first digit. -/
theorem pow_point_le (hunit : 0 < w.unit) (hmiddle : 0 < w.middle) :
    (10 : ℚ) ^ (w.point - 1) * w.unit ≤ w.middle := by
  unfold point
  split
  next hle =>
    have hwhole : w.middle / w.unit ≠ 0 := (Nat.div_pos hle hunit).ne'
    have hcount := digitCount_pos hwhole
    have hexponent : (digitCount (w.middle / w.unit) : Int) - 1 =
        (digitCount (w.middle / w.unit) - 1 : Nat) := by omega
    have hnat : 10 ^ (digitCount (w.middle / w.unit) - 1) * w.unit ≤ w.middle :=
      (Nat.mul_le_mul_right _ (pow_digitCount_le hwhole)).trans (Nat.div_mul_le_self _ _)
    rw [hexponent, zpow_natCast]
    exact_mod_cast hnat
  next hlt =>
    -- the magnitude is below one: count the zeros of its reciprocal, rounded up
    generalize hup : (w.unit + w.middle - 1) / w.middle = up
    have hcover : w.unit ≤ w.middle * up := by
      have hmod := Nat.div_add_mod (w.unit + w.middle - 1) w.middle
      have hrest := Nat.mod_lt (w.unit + w.middle - 1) hmiddle
      rw [hup] at hmod
      omega
    have hup_pos : 0 < up := by
      rw [← hup]
      exact Nat.div_pos (by omega) hmiddle
    have hdigits : up ≤ 10 ^ digitCount (up - 1) := by
      have hlt := lt_pow_digitCount (up - 1)
      omega
    have hnat : w.unit ≤ w.middle * 10 ^ digitCount (up - 1) :=
      hcover.trans (Nat.mul_le_mul_left _ hdigits)
    have hexponent : (1 : Int) - digitCount (up - 1) - 1 = -(digitCount (up - 1) : Nat) := by
      omega
    rw [hexponent, zpow_neg, zpow_natCast, inv_mul_le_iff₀ (by positivity), mul_comm]
    exact_mod_cast hnat

/-- A magnitude is below the power of ten behind its first digit. -/
theorem lt_pow_point (hunit : 0 < w.unit) (hmiddle : 0 < w.middle) :
    (w.middle : ℚ) < 10 ^ w.point * w.unit := by
  unfold point
  split
  next hle =>
    have hnat : w.middle < 10 ^ digitCount (w.middle / w.unit) * w.unit :=
      (Nat.div_lt_iff_lt_mul hunit).1 (lt_pow_digitCount _)
    rw [zpow_natCast]
    exact_mod_cast hnat
  next hlt =>
    generalize hup : (w.unit + w.middle - 1) / w.middle = up
    have hmod := Nat.div_add_mod (w.unit + w.middle - 1) w.middle
    have hrest := Nat.mod_lt (w.unit + w.middle - 1) hmiddle
    rw [hup] at hmod
    have hup_ne : up - 1 ≠ 0 := by
      intro hone
      have hle : w.middle * up ≤ w.middle * 1 := Nat.mul_le_mul_left _ (by omega)
      omega
    have hnat : w.middle * 10 ^ (digitCount (up - 1) - 1) < w.unit := by
      have hdigits : w.middle * 10 ^ (digitCount (up - 1) - 1) ≤ w.middle * (up - 1) :=
        Nat.mul_le_mul_left _ (pow_digitCount_le hup_ne)
      rw [Nat.mul_sub, Nat.mul_one] at hdigits
      omega
    have hexponent : (1 : Int) - digitCount (up - 1) = -(digitCount (up - 1) - 1 : Nat) := by
      have hcount := digitCount_pos hup_ne
      omega
    rw [hexponent, zpow_neg, zpow_natCast, lt_inv_mul_iff₀ (by positivity), mul_comm]
    exact_mod_cast hnat

/-! ## Neighbours on a grid -/

/-- The neighbour below a magnitude on the grid of the multiples of a power of ten,
counted in these multiples. -/
def gridBelow (w : Window) (exponent : Int) : Nat :=
  w.middle * 10 ^ (-exponent).toNat / (w.unit * 10 ^ exponent.toNat)

/-- The search takes one of the two neighbours, and only if it lies in the window. -/
theorem neighbour_of_nearest? {tie : Tie} {exponent : Int} {coefficient : Nat}
    (h : w.nearest? tie exponent = some coefficient) :
    (coefficient = w.gridBelow exponent ∨ coefficient = w.gridBelow exponent + 1) ∧
      w.holds coefficient exponent = true := by
  have hpick (down : Nat) : tie.pick down = down ∨ tie.pick down = down + 1 := by
    cases tie with
    | up => exact Or.inr rfl
    | even =>
      show down + down % 2 = down ∨ down + down % 2 = down + 1
      omega
  unfold nearest? at h
  dsimp only at h
  unfold gridBelow
  generalize w.middle * 10 ^ (-exponent).toNat / (w.unit * 10 ^ exponent.toNat) = down at h ⊢
  cases hdown : w.holds down exponent <;> cases hup : w.holds (down + 1) exponent <;>
    rw [hdown, hup] at h
  · cases h
  · cases h
    exact ⟨.inr rfl, hup⟩
  · cases h
    exact ⟨.inl rfl, hdown⟩
  · dsimp only at h
    split at h
    · cases h
      exact ⟨.inl rfl, hdown⟩
    · cases h
      rcases hpick down with heq | heq
      · exact ⟨.inl heq, by rw [heq, hdown]⟩
      · exact ⟨.inr heq, by rw [heq, hup]⟩
    · cases h
      exact ⟨.inr rfl, hup⟩

/-- The search takes a decimal if one of the two neighbours lies in the window. -/
theorem exists_nearest? (tie : Tie) {exponent : Int}
    (h : w.holds (w.gridBelow exponent) exponent = true ∨
      w.holds (w.gridBelow exponent + 1) exponent = true) :
    ∃ coefficient, w.nearest? tie exponent = some coefficient := by
  unfold nearest?
  dsimp only
  unfold gridBelow at h
  generalize w.middle * 10 ^ (-exponent).toNat / (w.unit * 10 ^ exponent.toNat) = down at h ⊢
  cases hdown : w.holds down exponent <;> cases hup : w.holds (down + 1) exponent
  · rw [hdown, hup] at h
    simp at h
  · exact ⟨_, rfl⟩
  · exact ⟨_, rfl⟩
  · dsimp only
    split <;> exact ⟨_, rfl⟩

/-- A magnitude stands between its two neighbours. -/
theorem gridBelow_le (hunit : 0 < w.unit) (exponent : Int) :
    value ⟨w.gridBelow exponent, exponent⟩ * w.unit ≤ w.middle ∧
      w.middle < value ⟨w.gridBelow exponent + 1, exponent⟩ * w.unit := by
  have hpow := zpow_mul_pow_toNat_neg 10 (by norm_num) exponent
  have hfactor : (0 : ℚ) < 10 ^ (-exponent).toNat := by positivity
  have hscaled (coefficient : Nat) :
      value ⟨coefficient, exponent⟩ * w.unit * 10 ^ (-exponent).toNat =
        (coefficient * (w.unit * 10 ^ exponent.toNat) : Nat) := by
    push_cast
    rw [← hpow, value]
    ring
  have hdenominator : 0 < w.unit * 10 ^ exponent.toNat := by positivity
  have hbelow : w.gridBelow exponent * (w.unit * 10 ^ exponent.toNat) ≤
      w.middle * 10 ^ (-exponent).toNat := Nat.div_mul_le_self _ _
  have habove : w.middle * 10 ^ (-exponent).toNat <
      (w.gridBelow exponent + 1) * (w.unit * 10 ^ exponent.toNat) := by
    rw [mul_comm (w.gridBelow exponent + 1)]
    exact Nat.lt_mul_div_succ _ hdenominator
  constructor
  · rw [← mul_le_mul_iff_of_pos_right hfactor, hscaled]
    exact_mod_cast hbelow
  · rw [← mul_lt_mul_iff_of_pos_right hfactor, hscaled]
    exact_mod_cast habove

/-- If a grid is finer than the window, a neighbour of the magnitude lies in the
window. -/
theorem contains_neighbour (hunit : 0 < w.unit) (hlow : w.low < w.middle)
    (hhigh : w.middle < w.high) {exponent : Int}
    (hfine : (10 : ℚ) ^ exponent * w.unit < w.high - w.low) :
    w.Contains (value ⟨w.gridBelow exponent, exponent⟩) ∨
      w.Contains (value ⟨w.gridBelow exponent + 1, exponent⟩) := by
  obtain ⟨hbelow, habove⟩ := gridBelow_le hunit exponent
  have hlow' : (w.low : ℚ) < w.middle := by exact_mod_cast hlow
  have hhigh' : (w.middle : ℚ) < w.high := by exact_mod_cast hhigh
  have hstep : value ⟨w.gridBelow exponent + 1, exponent⟩ * w.unit =
      value ⟨w.gridBelow exponent, exponent⟩ * w.unit + 10 ^ exponent * w.unit := by
    unfold value
    push_cast
    ring
  by_cases hin : (w.low : ℚ) < value ⟨w.gridBelow exponent, exponent⟩ * w.unit
  · exact Or.inl (within_of_lt _ hin (hbelow.trans_lt hhigh'))
  · refine Or.inr (within_of_lt _ (hlow'.trans habove) ?_)
    linarith

end Window

/-! ## The shortest decimal -/

section Double

variable {x : Float}

theorem significand_lt (x : Float) : significand x < 2 ^ 53 := by
  have hlt := fractionField_lt x
  rw [significand_eq]
  split <;> omega

/-- Windows are wider than a part in `10 ^ 16` of their magnitudes. -/
theorem middle_lt_width (h : significand x ≠ 0) :
    (window x).middle < 10 ^ 16 * ((window x).high - (window x).low) := by
  have hlt := significand_lt x
  have hpos : 0 < significand x := Nat.pos_of_ne_zero h
  show 4 * significand x * _ < 10 ^ 16 * ((4 * significand x + 2) * _ - _ * _)
  rw [← Nat.sub_mul, ← mul_assoc]
  refine Nat.mul_lt_mul_of_pos_right ?_ (Nat.two_pow_pos _)
  split
  next hpower =>
    -- only powers of two have the narrower window
    have hsignificand : significand x = 2 ^ 52 := by
      rw [significand_eq]
      rw [if_neg (by omega), hpower.1, Nat.zero_add]
    omega
  next => omega

/-- Seventeen digits always suffice. -/
theorem exists_seventeen_digits (tie : Tie) (h : significand x ≠ 0) :
    ∃ coefficient, (window x).nearest? tie ((window x).point - 17) = some coefficient := by
  have hunit : 0 < (window x).unit := Nat.two_pow_pos _
  have hlow := low_lt_middle h
  have hhigh := middle_lt_high x
  have hmiddle : 0 < (window x).middle := by omega
  have hpoint := Window.pow_point_le hunit hmiddle
  have hgrid : (10 : ℚ) ^ ((window x).point - 1) =
      10 ^ ((window x).point - 17) * 10 ^ 16 := by
    rw [← zpow_natCast, ← zpow_add₀ (by norm_num)]
    congr 1
    push_cast
    ring
  have hwidth : ((window x).middle : ℚ) <
      10 ^ 16 * ((window x).high - (window x).low) := by
    have hnat := middle_lt_width h
    rw [← Nat.cast_sub (by omega)]
    exact_mod_cast hnat
  have hfine : (10 : ℚ) ^ ((window x).point - 17) * (window x).unit <
      (window x).high - (window x).low := by
    rw [hgrid] at hpoint
    linarith
  apply Window.exists_nearest?
  rw [Window.holds_iff, Window.holds_iff]
  exact Window.contains_neighbour hunit hlow hhigh hfine

/-- A search through the first numbers ends at the first one that gives a result. -/
theorem findSome?_range_eq_some {α : Type} {search : Nat → Option α} {count : Nat} {result : α}
    (h : (List.range count).findSome? search = some result) :
    ∃ n < count, search n = some result ∧ ∀ m < n, search m = none := by
  induction count with
  | zero => cases h
  | succ count ih =>
    rw [List.range_succ, List.findSome?_append] at h
    cases hbefore : (List.range count).findSome? search with
    | some found =>
      rw [hbefore, Option.some_or] at h
      obtain ⟨n, hn, hresult, hnone⟩ := ih (hbefore.trans h)
      exact ⟨n, hn.trans count.lt_succ_self, hresult, hnone⟩
    | none =>
      rw [hbefore, Option.none_or, List.findSome?_singleton] at h
      rw [List.findSome?_eq_none_iff] at hbefore
      exact ⟨count, count.lt_succ_self, h, fun m hm => hbefore m (List.mem_range.2 hm)⟩

/-- The search goes through the numbers of digits and takes the first one with which it
finds something. -/
theorem shortest_cases (tie : Tie) (h : significand x ≠ 0) :
    ∃ n coefficient, n < 17 ∧
      shortest tie x = trim 17 ⟨coefficient, (window x).point - (n + 1 : Nat)⟩ ∧
      (window x).nearest? tie ((window x).point - (n + 1 : Nat)) = some coefficient ∧
      ∀ m < n, (window x).nearest? tie ((window x).point - (m + 1 : Nat)) = none := by
  unfold shortest
  dsimp only
  cases hfound : (List.range 17).findSome? fun n =>
      ((window x).nearest? tie ((window x).point - (n + 1 : Nat))).map
        (Decimal.mk · ((window x).point - (n + 1 : Nat))) with
  | none =>
    obtain ⟨coefficient, hlast⟩ := exists_seventeen_digits tie h
    rw [List.findSome?_eq_none_iff] at hfound
    have hnone := hfound 16 (by decide)
    rw [Option.map_eq_none_iff] at hnone
    have hlast' : (window x).nearest? tie ((window x).point - (16 + 1 : Nat)) =
        some coefficient := hlast
    rw [hlast'] at hnone
    cases hnone
  | some d =>
    obtain ⟨n, hn, hresult, hnone⟩ := findSome?_range_eq_some hfound
    obtain ⟨coefficient, hcoefficient, rfl⟩ := Option.map_eq_some_iff.1 hresult
    exact ⟨n, coefficient, hn, rfl, hcoefficient,
      fun m hm => Option.map_eq_none_iff.1 (hnone m hm)⟩

/-- The shortest decimal of a double other than zero rounds to its magnitude. -/
theorem contains_shortest (tie : Tie) (h : significand x ≠ 0) :
    (window x).Contains (shortest tie x).value := by
  obtain ⟨n, coefficient, -, hshortest, hfound, -⟩ := shortest_cases tie h
  rw [hshortest, value_trim]
  exact Window.holds_iff.1 (Window.neighbour_of_nearest? hfound).2

end Double

end Decimal

end ComponentProps
