import ComponentProps.Declaration.Basic
import ComponentProps.Proofs.Decimal.Shortest

/-!
# Numbers are written distinctly

Two numbers are written in the same way exactly if they are the same value.

* `contains_magnitudeText`: the digits of a magnitude spell a number that rounds to
  it, in full or with the fewest digits.
* `numberText_eq_iff`: which numbers share their text.
* `isNumeralChar_of_mem_numberText`: the characters of these texts, none of which
  separates the parts of a literal.
-/

namespace ComponentProps

open Decimal

variable {x y : Float}

/-! ## Magnitudes -/

theorem isIntegral_eq (x : Float) :
    isIntegral x = (decide (0 ≤ binaryExponent x) ||
      significand x % 2 ^ (-binaryExponent x).toNat == 0) := rfl

theorem integralPart_eq (x : Float) :
    integralPart x =
      significand x * 2 ^ (binaryExponent x).toNat / 2 ^ (-binaryExponent x).toNat := rfl

/-- A whole number is its integral part. -/
theorem integralPart_mul (h : isIntegral x = true) :
    integralPart x * 2 ^ (-binaryExponent x).toNat =
      significand x * 2 ^ (binaryExponent x).toNat := by
  rw [isIntegral_eq, Bool.or_eq_true, decide_eq_true_eq, beq_iff_eq] at h
  rw [integralPart_eq]
  apply Nat.div_mul_cancel
  obtain hnonneg | hdivides := h
  · have hzero : (-binaryExponent x).toNat = 0 := by omega
    rw [hzero, pow_zero]
    exact Nat.one_dvd _
  · exact (Nat.dvd_of_mod_eq_zero hdivides).mul_right _

/-- A whole number, over the denominator of its window. -/
theorem integralPart_mul_unit (h : isIntegral x = true) :
    integralPart x * (window x).unit = (window x).middle := by
  have hwhole := integralPart_mul h
  have hexponents : (binaryExponent x).toNat + (2 - binaryExponent x).toNat =
      2 + (binaryExponent x - 2).toNat + (-binaryExponent x).toNat := by omega
  show integralPart x * 2 ^ (2 - binaryExponent x).toNat =
    4 * significand x * 2 ^ (binaryExponent x - 2).toNat
  apply Nat.eq_of_mul_eq_mul_right (Nat.two_pow_pos (-binaryExponent x).toNat)
  calc integralPart x * 2 ^ (2 - binaryExponent x).toNat * 2 ^ (-binaryExponent x).toNat
    _ = integralPart x * 2 ^ (-binaryExponent x).toNat * 2 ^ (2 - binaryExponent x).toNat := by
      ring
    _ = significand x * 2 ^ ((binaryExponent x).toNat + (2 - binaryExponent x).toNat) := by
      rw [hwhole, pow_add]
      ring
    _ = 4 * significand x * 2 ^ (binaryExponent x - 2).toNat * 2 ^ (-binaryExponent x).toNat := by
      rw [hexponents, pow_add, pow_add]
      ring

/-- Only zeros have no significand, and they are written in full. -/
theorem significand_ne_zero
    (h : ¬ (isIntegral x && decide (integralPart x < 10 ^ 15)) = true) :
    significand x ≠ 0 := by
  intro hzero
  apply h
  have hwhole : isIntegral x = true := by simp [isIntegral, hzero]
  have hpart : integralPart x = 0 := by simp [integralPart, hzero]
  rw [hwhole, hpart]
  decide

/-- The digits of a magnitude spell a number that rounds to it. -/
theorem contains_magnitudeText (x : Float) :
    (window x).Contains (spelled (magnitudeText x)) := by
  unfold magnitudeText
  split
  next h =>
    rw [Bool.and_eq_true] at h
    rw [spelled_toDigits]
    apply contains_of_middle
    exact_mod_cast integralPart_mul_unit h.1
  next h =>
    rw [spelled_positional]
    exact contains_shortest .up (significand_ne_zero h)

/-! ## Characters -/

theorem isDigit_or_point_of_mem_positional {d : Decimal} {c : Char} (h : c ∈ d.positional) :
    c.isDigit = true ∨ c = '.' := by
  have hdigits : c ∈ d.digits → c.isDigit = true :=
    fun hc => Nat.isDigit_of_mem_toDigits (by norm_num) (by norm_num) hc
  have hzeros (n : Nat) : c ∈ List.replicate n '0' → c.isDigit = true := by
    intro hc
    rw [List.eq_of_mem_replicate hc]
    rfl
  unfold positional at h
  split at h
  next =>
    obtain hc | hc := List.mem_append.1 h
    · exact .inl (hdigits hc)
    · exact .inl (hzeros _ hc)
  split at h
  next =>
    obtain hc | hc := List.mem_append.1 h
    · exact .inl (hdigits (List.mem_of_mem_take hc))
    obtain rfl | hc := List.mem_cons.1 hc
    · exact .inr rfl
    · exact .inl (hdigits (List.mem_of_mem_drop hc))
  next =>
    obtain rfl | hc := List.mem_cons.1 h
    · exact .inl rfl
    obtain rfl | hc := List.mem_cons.1 hc
    · exact .inr rfl
    obtain hc | hc := List.mem_append.1 hc
    · exact .inl (hzeros _ hc)
    · exact .inl (hdigits hc)

/-- A magnitude is written with digits and a point. -/
theorem isDigit_or_point_of_mem_magnitudeText {c : Char} (h : c ∈ magnitudeText x) :
    c.isDigit = true ∨ c = '.' := by
  unfold magnitudeText at h
  split at h
  next => exact .inl (Nat.isDigit_of_mem_toDigits (by norm_num) (by norm_num) h)
  next => exact isDigit_or_point_of_mem_positional h

/-- The characters of the texts of numbers. -/
def isNumeralChar (c : Char) : Bool := c.isAlphanum || c = '.' || c = '-'

theorem isNumeralChar_of_mem_magnitudeText {c : Char} (h : c ∈ magnitudeText x) :
    isNumeralChar c = true := by
  obtain hdigit | rfl := isDigit_or_point_of_mem_magnitudeText h
  · simp [isNumeralChar, Char.isAlphanum, hdigit]
  · rfl

theorem isNumeralChar_of_mem_numberText {c : Char} (h : c ∈ (numberText x).toList) :
    isNumeralChar c = true := by
  have hnan : "NaN".toList.all isNumeralChar = true := by decide
  have hinfinity : "Infinity".toList.all isNumeralChar = true := by decide
  have hnegative : "-Infinity".toList.all isNumeralChar = true := by decide
  unfold numberText at h
  split at h
  · exact List.all_eq_true.1 hnan c h
  split at h
  · split at h
    · exact List.all_eq_true.1 hnegative c h
    · exact List.all_eq_true.1 hinfinity c h
  split at h
  · rw [String.toList_ofList] at h
    obtain rfl | hc := List.mem_cons.1 h
    · rfl
    · exact isNumeralChar_of_mem_magnitudeText hc
  · rw [String.toList_ofList] at h
    exact isNumeralChar_of_mem_magnitudeText h

theorem magnitudeText_ne_nil (x : Float) : magnitudeText x ≠ [] := by
  have hdigits (n : Nat) : Nat.toDigits 10 n ≠ [] :=
    List.ne_nil_of_length_pos Nat.length_toDigits_pos
  unfold magnitudeText positional
  split
  · exact hdigits _
  split
  · exact List.append_ne_nil_of_left_ne_nil (hdigits _) _
  split
  · exact List.append_ne_nil_of_right_ne_nil _ (List.cons_ne_nil _ _)
  · exact List.cons_ne_nil _ _

/-! ## Finite numbers -/

theorem not_mem_magnitudeText {c : Char} (hdigit : c.isDigit = false) (hpoint : c ≠ '.') :
    c ∉ magnitudeText x := by
  intro h
  obtain hc | hc := isDigit_or_point_of_mem_magnitudeText h
  · rw [hdigit] at hc
    cases hc
  · exact hpoint hc

theorem not_isNaN_of_isInf (h : x.isInf = true) : x.isNaN = false := by
  rw [isInf_iff] at h
  rw [← Bool.not_eq_true, isNaN_iff]
  exact fun hnan => hnan.2 h.2

/-- Which texts are not those of numbers. -/
theorem capital_n_mem_numberText : 'N' ∈ (numberText x).toList ↔ x.isNaN = true := by
  have hmagnitude : 'N' ∉ magnitudeText x := not_mem_magnitudeText rfl (by decide)
  unfold numberText
  split
  next h =>
    rw [iff_true_right h]
    decide
  next h =>
    rw [iff_false_right h]
    repeat' split
    all_goals simp [hmagnitude]

/-- Which texts are those of infinite numbers. -/
theorem capital_i_mem_numberText : 'I' ∈ (numberText x).toList ↔ x.isInf = true := by
  have hmagnitude : 'I' ∉ magnitudeText x := not_mem_magnitudeText rfl (by decide)
  unfold numberText
  split
  next hnan =>
    have hfinite : ¬ x.isInf = true := by
      intro h
      rw [not_isNaN_of_isInf h] at hnan
      cases hnan
    simp [hfinite]
  split
  next h =>
    rw [iff_true_right h]
    split <;> simp
  next h =>
    rw [iff_false_right h]
    split <;> simp [hmagnitude]

/-- Numbers below zero are written with their sign. -/
theorem minus_mem_numberText (hnumber : x.isNaN = false) :
    '-' ∈ (numberText x).toList ↔ isNegative x = true ∧ significand x ≠ 0 := by
  have hmagnitude : '-' ∉ magnitudeText x := not_mem_magnitudeText rfl (by decide)
  unfold numberText
  rw [if_neg (by rw [hnumber]; decide)]
  split
  next hinfinite =>
    have hsignificand : significand x ≠ 0 := by
      rw [isInf_iff] at hinfinite
      rw [significand_eq]
      rw [if_neg (by omega)]
      omega
    cases hsign : isNegative x <;> simp [hsignificand]
  next =>
    cases hsign : isNegative x <;> by_cases hzero : significand x = 0 <;>
      simp [hzero, hmagnitude]

/-- A finite number is written as its magnitude, the sign apart. -/
theorem filter_numberText (hnumber : x.isNaN = false) (hfinite : x.isInf = false) :
    (numberText x).toList.filter (· ≠ '-') = magnitudeText x := by
  have hmagnitude : (magnitudeText x).filter (· ≠ '-') = magnitudeText x := by
    rw [List.filter_eq_self]
    intro c hc
    have hne : c ≠ '-' := by
      rintro rfl
      exact not_mem_magnitudeText rfl (by decide) hc
    exact decide_eq_true hne
  unfold numberText
  rw [if_neg (by rw [hnumber]; decide), if_neg (by rw [hfinite]; decide)]
  split
  · rw [String.toList_ofList, List.filter_cons_of_neg (by decide)]
    exact hmagnitude
  · rw [String.toList_ofList]
    exact hmagnitude

/-- Numbers of one magnitude are the same value if both are written with a sign or
both without one. -/
theorem beq_of_rank_eq (hnumber : x.isNaN = false) (hrank : rank x = rank y)
    (hsign : isNegative x = true ∧ significand x ≠ 0 ↔
      isNegative y = true ∧ significand y ≠ 0) : (x == y) = true := by
  have hexponent : exponentField x = exponentField y := by
    rw [← rank_div, hrank, rank_div]
  have hfraction : fractionField x = fractionField y := by
    rw [← rank_mod, hrank, rank_mod]
  have hsignificand : significand x = significand y := by
    rw [significand_eq, significand_eq, hexponent, hfraction]
  apply beq_of_eq_or_zero hnumber
  by_cases hzero : significand x = 0
  · have hx : IsZero x := isZero_of_significand hzero
    exact .inr ⟨hx, isZero_of_significand (hsignificand ▸ hzero)⟩
  · have hnegative : isNegative x = isNegative y := by
      rw [Bool.eq_iff_iff]
      simpa [hzero, ← hsignificand] using hsign
    exact .inl (eq_of_fields hnegative hexponent hfraction)

/-! ## Texts -/

/-- Numbers share their text exactly if they are the same value. -/
theorem numberText_eq_iff : numberText x = numberText y ↔ Choice.sameNumber x y = true := by
  unfold Choice.sameNumber
  rw [Bool.or_eq_true, Bool.and_eq_true]
  constructor
  · intro h
    have hnan : x.isNaN = true ↔ y.isNaN = true := by
      rw [← capital_n_mem_numberText, h, capital_n_mem_numberText]
    have hinfinite : x.isInf = true ↔ y.isInf = true := by
      rw [← capital_i_mem_numberText, h, capital_i_mem_numberText]
    cases hx : x.isNaN with
    | true => exact .inl ⟨rfl, hnan.1 hx⟩
    | false =>
      have hy : y.isNaN = false := by rwa [← Bool.not_eq_true, ← hnan, Bool.not_eq_true]
      have hsign := minus_mem_numberText hx
      rw [h, minus_mem_numberText hy] at hsign
      have hrank : rank x = rank y := by
        cases hinf : x.isInf with
        | true =>
          have hboth := isInf_iff.1 (hinfinite.1 hinf)
          rw [isInf_iff] at hinf
          rw [rank, rank, hinf.1, hinf.2, hboth.1, hboth.2]
        | false =>
          have hinf' : y.isInf = false := by
            rwa [← Bool.not_eq_true, ← hinfinite, Bool.not_eq_true]
          have hmagnitude : magnitudeText x = magnitudeText y := by
            rw [← filter_numberText hx hinf, h, filter_numberText hy hinf']
          have hcontains := contains_magnitudeText x
          rw [hmagnitude] at hcontains
          exact rank_eq_of_contains hcontains (contains_magnitudeText y)
      exact .inr (beq_of_rank_eq hx hrank hsign.symm)
  · rintro (⟨hx, hy⟩ | h)
    · rw [numberText, numberText, if_pos hx, if_pos hy]
    · exact numberText_eq_of_beq h

/-- The characters that the text of a number may begin with. -/
def isNumeralStart (c : Char) : Bool :=
  c.isDigit || c = '.' || c = '-' || c = 'N' || c = 'I'

/-- A number is written with at least one character. -/
theorem exists_numberText_cons (x : Float) :
    ∃ c rest, (numberText x).toList = c :: rest ∧ isNumeralStart c = true := by
  unfold numberText
  split
  · exact ⟨_, _, rfl, rfl⟩
  split
  · split <;> exact ⟨_, _, rfl, rfl⟩
  split
  · exact ⟨'-', _, String.toList_ofList, rfl⟩
  · obtain ⟨c, rest, hmagnitude⟩ := List.exists_cons_of_ne_nil (magnitudeText_ne_nil x)
    refine ⟨c, rest, by rw [String.toList_ofList, hmagnitude], ?_⟩
    obtain hdigit | rfl := isDigit_or_point_of_mem_magnitudeText (x := x) (c := c)
      (by rw [hmagnitude]; exact List.mem_cons_self)
    · simp [isNumeralStart, hdigit]
    · rfl

end ComponentProps
