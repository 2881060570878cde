import ComponentProps.Proofs.Decimal.Fewest
import ComponentProps.Proofs.Decimal.NumberText

/-!
# Numbers as scripts write them

A script that turns a number into a property name writes the fewest digits that read back,
in positional notation from a millionth up to `10 ^ 21` and in scientific notation outside
this range.  The keys of choices have the same digits, and always positional notation.

* `IsShortest.positional_eq`: the shortest decimal of a whole number of fewer than sixteen
  digits, so that writing such numbers in full makes no difference.
* `IsShortest.lt_point_iff`: from which double on shortest decimals reach a power of ten.
* `ScriptText`: the texts that scripts may give.
* `Choice.scriptText_key_number_iff`: which keys are among them.
-/

namespace ComponentProps

open Decimal

variable {x p q : Float} {d : Decimal} {number : ℚ}

namespace Decimal

/-! ## Whole numbers -/

/-- Zeros behind the digits of a number multiply it by a power of ten. -/
theorem toDigits_mul_pow {n : Nat} (h : 0 < n) (zeros : Nat) :
    Nat.toDigits 10 (n * 10 ^ zeros) = Nat.toDigits 10 n ++ List.replicate zeros '0' := by
  induction zeros with
  | zero => rw [pow_zero, Nat.mul_one, List.replicate_zero, List.append_nil]
  | succ zeros ih =>
    have hpos : 0 < n * 10 ^ zeros := Nat.mul_pos h (by positivity)
    have hlast : n * 10 ^ (zeros + 1) = 10 * (n * 10 ^ zeros) + 0 := by ring
    rw [hlast, ← Nat.toDigits_append_toDigits (by norm_num) hpos (by norm_num), ih,
      Nat.toDigits_zero, List.append_assoc, List.replicate_succ']

theorem magnitude_eq_integralPart (h : isIntegral x = true) : magnitude x = integralPart x := by
  have hunit : (0 : ℚ) < (window x).unit := by exact_mod_cast window_unit_pos x
  rw [← mul_left_inj' hunit.ne', magnitude_mul_unit]
  exact_mod_cast (integralPart_mul_unit h).symm

/-- Whole numbers of fewer than sixteen digits have at least three binary places behind the
point. -/
theorem binaryExponent_le (hwhole : isIntegral x = true) (hsmall : integralPart x < 10 ^ 15) :
    binaryExponent x ≤ -3 := by
  have hvalue := integralPart_mul hwhole
  by_contra hlarge
  have hnormal : 2 ^ 52 ≤ significand x := by
    unfold binaryExponent at hlarge
    rw [significand_eq, if_neg (by omega)]
    omega
  have hplaces : 2 ^ (-binaryExponent x).toNat ≤ 2 ^ 2 :=
    Nat.pow_le_pow_right (by norm_num) (by omega)
  have hpower : 0 < 2 ^ (binaryExponent x).toNat := Nat.two_pow_pos _
  have hupper : integralPart x * 2 ^ (-binaryExponent x).toNat < 10 ^ 15 * 2 ^ 2 :=
    Nat.mul_lt_mul_of_lt_of_le hsmall hplaces (by norm_num)
  have hlower : 2 ^ 52 * 1 ≤ significand x * 2 ^ (binaryExponent x).toNat :=
    Nat.mul_le_mul hnormal hpower
  omega

/-- With so many binary places, what lies in a window is near. -/
theorem near_of_contains (hplaces : binaryExponent x ≤ -3) (h : (window x).Contains number) :
    magnitude x - 1 / 16 ≤ number ∧ number ≤ magnitude x + 1 / 16 := by
  have hscale : (binaryExponent x - 2).toNat = 0 := by omega
  have hlow : (window x).middle ≤ (window x).low + 2 := by
    show 4 * significand x * 2 ^ _ ≤ (4 * significand x - _) * 2 ^ _ + 2
    rw [hscale]
    split <;> omega
  have hhigh : (window x).high ≤ (window x).middle + 2 := by
    show (4 * significand x + 2) * 2 ^ _ ≤ 4 * significand x * 2 ^ _ + 2
    rw [hscale]
    omega
  have hunit : (32 : ℚ) ≤ (window x).unit := by
    have hnat : 2 ^ 5 ≤ 2 ^ (2 - binaryExponent x).toNat :=
      Nat.pow_le_pow_right (by norm_num) (by omega)
    exact_mod_cast hnat
  have hpos : (0 : ℚ) < (window x).unit := by linarith
  have hends := h.le
  have hlow' : ((window x).middle : ℚ) ≤ (window x).low + 2 := by exact_mod_cast hlow
  have hhigh' : ((window x).high : ℚ) ≤ (window x).middle + 2 := by exact_mod_cast hhigh
  rw [← magnitude_mul_unit] at hlow' hhigh'
  constructor
  · rw [← mul_le_mul_iff_of_pos_right hpos]
    linarith
  · rw [← mul_le_mul_iff_of_pos_right hpos]
    linarith

/-- A decimal just below a whole number has a fraction only if it has more digits. -/
theorem exponent_nonneg_of_near {n : Nat} (hn : n ≠ 0)
    (hcount : digitCount d.coefficient ≤ digitCount n) (hnear : (n : ℚ) - 1 / 16 ≤ d.value) :
    0 ≤ d.exponent := by
  by_contra hneg
  have hcoefficient : d.coefficient + 1 ≤ 10 * n := by
    have hupper : d.coefficient < 10 ^ digitCount n := digitCount_le_iff.1 hcount
    have hlower := pow_digitCount_le hn
    have hpower : 10 ^ digitCount n = 10 * 10 ^ (digitCount n - 1) := by
      rw [← Nat.pow_succ', Nat.succ_eq_add_one, Nat.sub_add_cancel (digitCount_pos hn)]
    omega
  have hgap : (d.coefficient : ℚ) + 1 ≤ 10 * n := by exact_mod_cast hcoefficient
  have htenth : 10 * d.value ≤ d.coefficient := by
    have hpow : (10 : ℚ) ^ (d.exponent + 1) ≤ 1 := zpow_le_one_of_nonpos₀ (by norm_num) (by omega)
    rw [zpow_add_one₀ (by norm_num)] at hpow
    have hscaled := mul_le_mul_of_nonneg_left hpow (Nat.cast_nonneg d.coefficient)
    rw [value]
    linarith
  linarith

/-- Two whole numbers that are near are one. -/
theorem coefficient_mul_pow_of_near {n : Nat} (hexponent : 0 ≤ d.exponent)
    (hlow : (n : ℚ) - 1 / 16 ≤ d.value) (hhigh : d.value ≤ n + 1 / 16) :
    d.coefficient * 10 ^ d.exponent.toNat = n := by
  rw [value_eq_of_nonneg hexponent] at hlow hhigh
  have hbelow : ((d.coefficient * 10 ^ d.exponent.toNat : Nat) : ℚ) < n + 1 := by linarith
  have habove : (n : ℚ) < (d.coefficient * 10 ^ d.exponent.toNat : Nat) + 1 := by linarith
  norm_cast at hbelow habove
  omega

/-- The shortest decimal of a whole number of fewer than sixteen digits is that number. -/
theorem IsShortest.positional_eq (h : IsShortest x d) (hfinite : exponentField x ≠ 2047)
    (hwhole : isIntegral x = true) (hsmall : integralPart x < 10 ^ 15)
    (hx : integralPart x ≠ 0) : d.positional = Nat.toDigits 10 (integralPart x) := by
  have hmagnitude := magnitude_eq_integralPart hwhole
  obtain ⟨hlow, hhigh⟩ := near_of_contains (binaryExponent_le hwhole hsmall)
    (contains_of_roundsTo hfinite (value_nonneg d) h.roundsTo)
  rw [hmagnitude] at hlow hhigh
  -- the digits of the number itself will do, so the decimal has no more
  have hfull : value ⟨integralPart x, 0⟩ = magnitude x := by
    rw [hmagnitude, value, zpow_zero, mul_one]
  have hround : RoundsTo (value ⟨integralPart x, 0⟩) x := by
    rw [hfull]
    exact roundsTo_of_contains (contains_magnitude x)
  have hcount : digitCount d.coefficient ≤ digitCount (integralPart x) :=
    h.least ⟨integralPart x, 0⟩ hx hround
  have hexponent := exponent_nonneg_of_near hx hcount hlow
  rw [positional, if_pos hexponent, digits, ← coefficient_mul_pow_of_near hexponent hlow hhigh,
    toDigits_mul_pow (Nat.pos_of_ne_zero h.coefficient_ne_zero)]

/-! ## Places of the first digit -/

/-- Shortest decimals reach a power of ten from the double on to which this power rounds, if
nine tenths of it round to a smaller double. -/
theorem IsShortest.lt_point_iff {place : Int} (h : IsShortest x d)
    (hfinite : exponentField x ≠ 2047) (hpower : (window p).Contains (value ⟨1, place⟩))
    (hnine : (window q).Contains (value ⟨9, place - 1⟩)) (hlt : rank q < rank p) :
    place < d.point ↔ rank p ≤ rank x := by
  have hinside := contains_of_roundsTo hfinite (value_nonneg d) h.roundsTo
  have hone : value ⟨1, place⟩ = 10 ^ place := by rw [value, Nat.cast_one, one_mul]
  constructor
  · intro hpoint
    refine rank_le_of_contains ?_ hpower hinside
    rw [hone]
    exact (zpow_le_zpow_right₀ (by norm_num) (by omega)).trans
      (pow_point_le_value h.coefficient_ne_zero)
  · intro hle
    by_contra hpoint
    have hbelow : d.value ≤ value ⟨1, place⟩ := by
      rw [hone]
      exact (value_lt_pow_point h.coefficient_ne_zero).le.trans
        (zpow_le_zpow_right₀ (by norm_num) (by omega))
    -- then the double is that of the power of ten, and its decimal has one digit
    have hrank : rank x = rank p := le_antisymm (rank_le_of_contains hbelow hinside hpower) hle
    have hround : RoundsTo (value ⟨1, place⟩) x := by
      apply roundsTo_of_contains
      rwa [contains_window_iff, hrank, ← contains_window_iff]
    have hcount := h.least ⟨1, place⟩ one_ne_zero hround
    have hdigits : d.coefficient ≤ 9 := by
      have hone_digit : digitCount 1 = 1 := by decide
      rw [hone_digit, digitCount_le_iff] at hcount
      omega
    have hexponent : d.exponent ≤ place - 1 := by
      have hpoint_eq := point_eq h.coefficient_ne_zero
      have hpos := digitCount_pos h.coefficient_ne_zero
      omega
    have hnine_le : d.value ≤ value ⟨9, place - 1⟩ := by
      have hpow : (10 : ℚ) ^ d.exponent ≤ 10 ^ (place - 1) :=
        zpow_le_zpow_right₀ (by norm_num) hexponent
      exact (mul_le_mul_of_nonneg_left hpow (Nat.cast_nonneg _)).trans (value_mono hdigits _)
    have hrank_le := rank_le_of_contains hnine_le hinside hnine
    omega

/-- From a millionth on, at most five zeros stand between the point and the first digit. -/
theorem IsShortest.lt_point_iff_millionth (h : IsShortest x d)
    (hfinite : exponentField x ≠ 2047) : -6 < d.point ↔ magnitude 1e-6 ≤ magnitude x := by
  rw [magnitude_le_iff]
  exact h.lt_point_iff hfinite (Window.holds_iff.1 (by decide +kernel))
    (q := 9e-7) (Window.holds_iff.1 (by decide +kernel)) (by decide +kernel)

/-- Below `10 ^ 21`, at most twenty-one digits stand before the point. -/
theorem IsShortest.point_le_iff (h : IsShortest x d)
    (hfinite : exponentField x ≠ 2047) : d.point ≤ 21 ↔ magnitude x < magnitude 1e21 := by
  rw [← not_lt, magnitude_lt_iff, ← Nat.not_le]
  exact not_congr (h.lt_point_iff hfinite (Window.holds_iff.1 (by decide +kernel))
    (q := 9e20) (Window.holds_iff.1 (by decide +kernel)) (by decide +kernel))

end Decimal

/-! ## Magnitudes -/

/-- A magnitude other than zero is written with the fewest digits, in full or not. -/
theorem magnitudeText_eq_positional (hfinite : exponentField x ≠ 2047)
    (hx : significand x ≠ 0) : magnitudeText x = (shortest .up x).positional := by
  unfold magnitudeText
  split
  next h =>
    rw [Bool.and_eq_true, decide_eq_true_eq] at h
    have hpart : integralPart x ≠ 0 := by
      intro hzero
      have hmiddle := integralPart_mul_unit h.1
      have hpos := window_middle_pos hx
      rw [hzero, Nat.zero_mul] at hmiddle
      omega
    exact ((isShortest_shortest hfinite hx .up).positional_eq hfinite h.1 h.2 hpart).symm
  next => rfl

/-! ## The rule of scripts -/

/-- How a script writes a decimal: with a power of ten if more than twenty-one digits would
stand before the point, or more than five zeros between the point and the first digit. -/
def Decimal.scriptLayout (d : Decimal) : List Char :=
  if -6 < d.point ∧ d.point ≤ 21 then d.positional else d.scientific

/-- The characters of a magnitude with the sign of a double. -/
def withSign (x : Float) (chars : List Char) : String :=
  String.ofList (if isNegative x then '-' :: chars else chars)

theorem mem_withSign_iff {c : Char} {chars : List Char} (h : c ≠ '-') :
    c ∈ (withSign x chars).toList ↔ c ∈ chars := by
  rw [withSign, String.toList_ofList]
  split
  · simp [h]
  · rfl

/-- Only scientific notation has an exponent. -/
theorem e_not_mem_positional (d : Decimal) : 'e' ∉ d.positional := by
  intro h
  rcases isDigit_or_point_of_mem_positional h with hdigit | hpoint
  · exact absurd hdigit (by decide)
  · exact absurd hpoint (by decide)

theorem e_mem_scientific (d : Decimal) : 'e' ∈ d.scientific :=
  List.mem_append_right _ List.mem_cons_self

/-- The texts that `String(value)` may give in a script.  Where several decimals are equally
short, the rule does not say which of them is written. -/
inductive ScriptText (x : Float) : String → Prop where
  | nan (h : x.isNaN = true) : ScriptText x "NaN"
  | infinite (h : x.isInf = true) :
      ScriptText x (if isNegative x then "-Infinity" else "Infinity")
  | zero (h : (x == 0) = true) : ScriptText x "0"
  | finite (hnumber : x.isNaN = false) (hfinite : x.isInf = false) (hzero : (x == 0) = false)
      {d : Decimal} (h : IsShortest x d) : ScriptText x (withSign x d.scriptLayout)

section Finite

variable (hnumber : x.isNaN = false) (hfinite : x.isInf = false) (hzero : (x == 0) = false)

include hnumber hfinite hzero

theorem isNearest_of_finite : IsNearest x (shortest .up x) := by
  refine isNearest_shortest (exponentField_ne hnumber hfinite) ?_
  rwa [← Bool.not_eq_true, beq_zero_iff] at hzero

/-- A finite number other than zero is written with the fewest digits, in positional
notation. -/
theorem numberText_of_finite : numberText x = withSign x (shortest .up x).positional := by
  rw [← Bool.not_eq_true, beq_zero_iff] at hzero
  have hmagnitude := magnitudeText_eq_positional (exponentField_ne hnumber hfinite) hzero
  have hsignificand : (significand x != 0) = true := bne_iff_ne.2 hzero
  rw [numberText, if_neg (by rw [hnumber]; decide), if_neg (by rw [hfinite]; decide),
    hsignificand, Bool.and_true, hmagnitude, withSign]
  split <;> rfl

/-- Such a number has a script's text exactly if its first digit is within the bounds. -/
theorem scriptText_numberText_iff_of_finite :
    ScriptText x (numberText x) ↔ magnitude 1e-6 ≤ magnitude x ∧ magnitude x < magnitude 1e21 := by
  have hfield := exponentField_ne hnumber hfinite
  constructor
  · intro h
    generalize htext : numberText x = text at h
    rw [numberText_of_finite hnumber hfinite hzero] at htext
    cases h with
    | nan h => rw [hnumber] at h; cases h
    | infinite h => rw [hfinite] at h; cases h
    | zero h => rw [hzero] at h; cases h
    | @finite _ _ _ d hd =>
      by_contra hout
      have hlayout : d.scriptLayout = d.scientific := by
        rw [← hd.lt_point_iff_millionth hfield, ← hd.point_le_iff hfield] at hout
        exact if_neg hout
      have hmem : 'e' ∈ (withSign x d.scriptLayout).toList := by
        rw [mem_withSign_iff (by decide), hlayout]
        exact e_mem_scientific d
      rw [← htext, mem_withSign_iff (by decide)] at hmem
      exact e_not_mem_positional _ hmem
  · intro h
    have hshort := (isNearest_of_finite hnumber hfinite hzero).isShortest
    have hpoint : -6 < (shortest .up x).point ∧ (shortest .up x).point ≤ 21 := by
      rwa [hshort.lt_point_iff_millionth hfield, hshort.point_le_iff hfield]
    have hlayout : (shortest .up x).scriptLayout = (shortest .up x).positional := if_pos hpoint
    rw [numberText_of_finite hnumber hfinite hzero, ← hlayout]
    exact .finite hnumber hfinite hzero hshort

end Finite

/-! ## Keys of numbers -/

/-- Zeros and what is not finite are written as scripts write them. -/
theorem scriptText_numberText_of_special
    (h : x.isNaN = true ∨ x.isInf = true ∨ (x == 0) = true) : ScriptText x (numberText x) := by
  rcases h with hnan | hinf | hzero
  · rw [numberText, if_pos hnan]
    exact .nan hnan
  · have hnumber := not_isNaN_of_isInf hinf
    rw [numberText, if_neg (by rw [hnumber]; decide), if_pos hinf]
    exact .infinite hinf
  · have htext : numberText 0 = "0" := by decide +kernel
    rw [numberText_eq_of_beq hzero, htext]
    exact .zero hzero

/-- The key of a number is a text that a script may give it exactly if the number is zero or
not finite, or its magnitude is at least that of `1e-6` and below that of `1e21`.  Whatever
its size, a finite number other than zero has the digits of the nearest of the shortest
decimals, the larger one of two.  A script may write these digits too, but the key has them
in positional notation always. -/
theorem Choice.scriptText_key_number_iff (x : Float) :
    (ScriptText x (Choice.number x).key ↔
      x.isNaN = true ∨ x.isInf = true ∨ (x == 0) = true ∨
        magnitude 1e-6 ≤ magnitude x ∧ magnitude x < magnitude 1e21) ∧
      (x.isNaN = true ∨ x.isInf = true ∨ (x == 0) = true ∨
        ∃ d, IsNearest x d ∧ (Choice.number x).key = withSign x d.positional ∧
          ScriptText x (withSign x d.scriptLayout)) := by
  show (ScriptText x (numberText x) ↔ _) ∧ (_ ∨ _ ∨ _ ∨ ∃ d, _ ∧ numberText x = _ ∧ _)
  by_cases hspecial : x.isNaN = true ∨ x.isInf = true ∨ (x == 0) = true
  · have hscript := scriptText_numberText_of_special hspecial
    constructor
    · rw [iff_true_left hscript]
      tauto
    · tauto
  · rw [not_or, not_or, Bool.not_eq_true, Bool.not_eq_true, Bool.not_eq_true] at hspecial
    obtain ⟨hnan, hinf, hzero⟩ := hspecial
    have hnearest := isNearest_of_finite hnan hinf hzero
    constructor
    · rw [scriptText_numberText_iff_of_finite hnan hinf hzero, hnan, hinf, hzero]
      simp only [Bool.false_eq_true, false_or]
    · exact .inr (.inr (.inr ⟨_, hnearest, numberText_of_finite hnan hinf hzero,
        .finite hnan hinf hzero hnearest.isShortest⟩))

/-- A script writes `10 ^ 21` with an exponent, and its key has twenty-two digits. -/
theorem Choice.key_number_sextillion :
    (Choice.number 1e21).key = "1000000000000000000000" ∧ ScriptText 1e21 "1e+21" ∧
      ¬ ScriptText 1e21 (Choice.number 1e21).key := by
  have hnan : (1e21 : Float).isNaN = false := by decide +kernel
  have hinf : (1e21 : Float).isInf = false := by decide +kernel
  have hzero : ((1e21 : Float) == 0) = false := by decide +kernel
  refine ⟨by decide +kernel, ?_, ?_⟩
  · have htext : "1e+21" = withSign 1e21 (shortest .up 1e21).scriptLayout := by decide +kernel
    rw [htext]
    exact .finite hnan hinf hzero (isNearest_of_finite hnan hinf hzero).isShortest
  · show ¬ ScriptText 1e21 (numberText 1e21)
    rw [scriptText_numberText_iff_of_finite hnan hinf hzero]
    exact fun h => lt_irrefl _ h.2

end ComponentProps
