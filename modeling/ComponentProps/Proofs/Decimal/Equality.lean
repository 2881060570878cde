import ComponentProps.NumberText
import Mathlib

/-!
# Doubles that compare equal

Two doubles compare equal if they are the same double, or if both are zeros.  A
comparison takes a double apart into sign, significand and exponent; `Parts`
says that these are the ones that this library reads off the bits.

* `Decimal.eq_of_fields`: the fields of the bits determine a double.
* `Decimal.isNaN_iff`, `Decimal.isInf_iff`: the bits of the doubles that are not finite.
* `Decimal.eq_or_zero_of_beq`, `Decimal.beq_zero_iff`: doubles that compare equal.
* `numberText_eq_of_beq`: they are written in the same way.
-/

namespace ComponentProps

namespace Decimal

open Float.Model
open UnpackedFloat (unpackSign unpackExponent unpackMantissa)

variable {x y : Float}

/-! ## Fields -/

theorem isNegative_eq (x : Float) : isNegative x = decide (2 ^ 63 ≤ x.toBits.toNat) := rfl

theorem fractionField_eq (x : Float) : fractionField x = x.toBits.toNat % 2 ^ 52 := rfl

theorem exponentField_eq (x : Float) :
    exponentField x = x.toBits.toNat / 2 ^ 52 % 2 ^ 11 := rfl

theorem significand_eq (x : Float) :
    significand x = if exponentField x = 0 then fractionField x else fractionField x + 2 ^ 52 :=
  rfl

theorem fractionField_lt (x : Float) : fractionField x < 2 ^ 52 :=
  Nat.mod_lt _ (Nat.two_pow_pos 52)

/-- Sign, exponent and fraction are all the bits of a double. -/
theorem eq_of_fields (hsign : isNegative x = isNegative y)
    (hexponent : exponentField x = exponentField y)
    (hfraction : fractionField x = fractionField y) : x = y := by
  have hbits : x.toBits.toNat = y.toBits.toNat := by
    have hx := x.toBits.toNat_lt
    have hy := y.toBits.toNat_lt
    rw [isNegative_eq, isNegative_eq, decide_eq_decide] at hsign
    rw [exponentField_eq, exponentField_eq] at hexponent
    rw [fractionField_eq, fractionField_eq] at hfraction
    omega
  obtain ⟨⟨bits, valid⟩⟩ := x
  obtain ⟨⟨others, valid'⟩⟩ := y
  have heq : bits = others := UInt64.toNat.inj hbits
  subst heq
  rfl

theorem toNat_unpackMantissa (x : Float) :
    (@unpackMantissa Format.binary64 x.toModel.toBits.toBitVec).toNat =
      fractionField x := by
  simp [unpackMantissa, fractionField, Float.toBits]

theorem toNat_unpackExponent (x : Float) :
    (@unpackExponent Format.binary64 x.toModel.toBits.toBitVec).toNat =
      exponentField x := by
  simp [unpackExponent, exponentField, Float.toBits, Nat.shiftRight_eq_div_pow]

/-- The sign of a double as comparisons see it. -/
def sign (x : Float) : UnpackedFloat.Sign := if isNegative x then .negative else .positive

theorem ofBitVec_unpackSign (x : Float) :
    UnpackedFloat.Sign.ofBitVec
      (@unpackSign Format.binary64 x.toModel.toBits.toBitVec) = sign x := by
  have hx := x.toBits.toNat_lt
  have hbit : (@unpackSign Format.binary64 x.toModel.toBits.toBitVec).toNat =
      x.toBits.toNat / 2 ^ 63 % 2 := by
    simp [unpackSign, Float.toBits, Nat.shiftRight_eq_div_pow]
  have hzero : @unpackSign Format.binary64 x.toModel.toBits.toBitVec = 0#1 ↔
      isNegative x = false := by
    rw [← BitVec.toNat_inj, hbit, isNegative_eq, decide_eq_false_iff_not]
    simp only [BitVec.toNat_ofNat, Nat.zero_mod]
    omega
  rw [UnpackedFloat.Sign.ofBitVec, sign]
  cases h : isNegative x with
  | false => rw [if_pos (hzero.2 h)]; rfl
  | true =>
    have hne : ¬ @unpackSign Format.binary64 x.toModel.toBits.toBitVec = 0#1 := by
      rw [hzero, h]
      simp
    rw [if_neg hne]
    rfl

/-- Equal signs are equal sign bits. -/
theorem isNegative_eq_of_sign (h : sign x = sign y) : isNegative x = isNegative y := by
  unfold sign at h
  cases hx : isNegative x <;> cases hy : isNegative y <;> simp [hx, hy] at h ⊢

/-! ## Parts -/

/-- What the bits of a double say about the form into which it is taken apart. -/
def Parts (x : Float) : UnpackedFloat → Prop
  | .notANumber => True
  | .infinity s => s = sign x ∧ exponentField x = 2047 ∧ fractionField x = 0
  | .zero s => s = sign x ∧ exponentField x = 0 ∧ fractionField x = 0
  | .finite s m e _ => s = sign x ∧ m = significand x ∧ e = binaryExponent x

/-- The forms into which doubles are taken apart, each with the bits that have it. -/
theorem unpack_cases (x : Float) :
    (exponentField x = 2047 ∧ fractionField x = 0 ∧ x.toModel.unpack = .infinity (sign x)) ∨
      (exponentField x = 2047 ∧ fractionField x ≠ 0 ∧ x.toModel.unpack = .notANumber) ∨
      (exponentField x = 0 ∧ fractionField x = 0 ∧ x.toModel.unpack = .zero (sign x)) ∨
      (exponentField x ≠ 2047 ∧ ∃ hpos : 0 < significand x,
        x.toModel.unpack = .finite (sign x) (significand x) (binaryExponent x) hpos) := by
  have hexponent := toNat_unpackExponent x
  have hfraction := toNat_unpackMantissa x
  have hsign := ofBitVec_unpackSign x
  have hlt := fractionField_lt x
  unfold Float.Model.unpack UnpackedFloat.unpack
  dsimp only
  rw [hsign]
  split
  next hones =>
    rw [hones] at hexponent
    split
    next hnone =>
      rw [hnone] at hfraction
      exact .inl ⟨hexponent.symm, hfraction.symm, rfl⟩
    next hsome =>
      have hne : fractionField x ≠ 0 := by
        rw [← hfraction]
        exact fun h => hsome (BitVec.eq_of_toNat_eq h)
      exact .inr (.inl ⟨hexponent.symm, hne, rfl⟩)
  next hones =>
    have hfinite : exponentField x ≠ 2047 := by
      rw [← hexponent]
      exact fun h => hones (BitVec.eq_of_toNat_eq h)
    split
    next hzeros =>
      rw [hzeros] at hexponent
      have hfield : exponentField x = 0 := hexponent.symm
      have hsignificand : significand x = fractionField x := by rw [significand_eq, if_pos hfield]
      split
      next hnone =>
        rw [hnone] at hfraction
        exact .inr (.inr (.inl ⟨hfield, hfraction.symm, rfl⟩))
      next hsome =>
        have hpos : 0 < significand x := by
          rw [hsignificand, ← hfraction]
          exact Nat.pos_of_ne_zero fun h => hsome (BitVec.eq_of_toNat_eq h)
        refine .inr (.inr (.inr ⟨hfinite, hpos, ?_⟩))
        congr 1
        · rw [hfraction, hsignificand]
        · rw [hzeros, binaryExponent, hfield]
          rfl
    next hzeros =>
      have hfield : exponentField x ≠ 0 := by
        rw [← hexponent]
        exact fun h => hzeros (BitVec.eq_of_toNat_eq h)
      have hsignificand : significand x = fractionField x + 2 ^ 52 := by
        rw [significand_eq, if_neg hfield]
      refine .inr (.inr (.inr ⟨hfinite, by omega, ?_⟩))
      congr 1
      · rw [BitVec.toNat_append, ← Nat.shiftLeft_add_eq_or_of_lt (BitVec.isLt _), hfraction,
          hsignificand, Nat.add_comm]
        rfl
      · rw [hexponent, binaryExponent, Nat.max_eq_left (Nat.one_le_iff_ne_zero.2 hfield)]
        rfl

theorem parts_unpack (x : Float) : Parts x x.toModel.unpack := by
  obtain ⟨he, hf, hx⟩ | ⟨-, -, hx⟩ | ⟨he, hf, hx⟩ | ⟨-, hpos, hx⟩ := unpack_cases x
  · rw [hx]
    exact ⟨rfl, he, hf⟩
  · rw [hx]
    trivial
  · rw [hx]
    exact ⟨rfl, he, hf⟩
  · rw [hx]
    exact ⟨rfl, rfl, rfl⟩

/-- The bits of the doubles that are not numbers. -/
theorem isNaN_iff : x.isNaN = true ↔ exponentField x = 2047 ∧ fractionField x ≠ 0 := by
  have hdef : x.isNaN = x.toModel.unpack.isNaN := rfl
  rw [hdef]
  obtain ⟨he, hf, hx⟩ | ⟨he, hf, hx⟩ | ⟨he, hf, hx⟩ | ⟨he, hpos, hx⟩ := unpack_cases x
  all_goals simp [hx, UnpackedFloat.isNaN, he]
  all_goals exact hf

/-- The bits of the infinite doubles. -/
theorem isInf_iff : x.isInf = true ↔ exponentField x = 2047 ∧ fractionField x = 0 := by
  have hdef : x.isInf = x.toModel.unpack.isInf := rfl
  rw [hdef]
  obtain ⟨he, hf, hx⟩ | ⟨he, hf, hx⟩ | ⟨he, hf, hx⟩ | ⟨he, hpos, hx⟩ := unpack_cases x
  all_goals simp [hx, UnpackedFloat.isInf, he]
  all_goals exact hf

/-- The exponent bits of the finite doubles. -/
theorem exponentField_ne (hnumber : x.isNaN = false) (hfinite : x.isInf = false) :
    exponentField x ≠ 2047 := by
  rw [← Bool.not_eq_true, isNaN_iff] at hnumber
  rw [← Bool.not_eq_true, isInf_iff] at hfinite
  intro hfield
  by_cases hfraction : fractionField x = 0
  · exact hfinite ⟨hfield, hfraction⟩
  · exact hnumber ⟨hfield, hfraction⟩

/-- What compares equal is of one form, with the same parts. -/
theorem compare_eq_cases {a b : UnpackedFloat} (h : a.compare b = some .eq) :
    (∃ s, a = .infinity s ∧ b = .infinity s) ∨ (∃ s t, a = .zero s ∧ b = .zero t) ∨
      ∃ s m e hm, a = .finite s m e hm ∧ b = .finite s m e hm := by
  rcases a with s | _ | s | ⟨s, m, e, hm⟩ <;> rcases b with t | _ | t | ⟨t, n, f, hn⟩ <;>
    (try cases s) <;> (try cases t) <;>
    simp only [UnpackedFloat.compare, Option.some.injEq, reduceCtorEq] at h
  all_goals simp
  all_goals simp [Ordering.then_eq_eq] at h
  all_goals omega

/-- A finite double is determined by sign, significand and exponent. -/
theorem fields_eq_of_significand (hm : significand x = significand y)
    (he : binaryExponent x = binaryExponent y) :
    exponentField x = exponentField y ∧ fractionField x = fractionField y := by
  have hx := fractionField_lt x
  have hy := fractionField_lt y
  rw [significand_eq x, significand_eq y] at hm
  unfold binaryExponent at he
  split at hm <;> split at hm <;> omega

/-- Whether a double is a zero of either sign. -/
def IsZero (x : Float) : Prop := exponentField x = 0 ∧ fractionField x = 0

/-- The zeros are the doubles without a significand. -/
theorem isZero_of_significand (h : significand x = 0) : IsZero x := by
  rw [significand_eq] at h
  split at h
  next hexponent => exact ⟨hexponent, h⟩
  next => omega

theorem unpack_of_isZero (h : IsZero x) : x.toModel.unpack = .zero (sign x) := by
  have hsignificand : significand x = 0 := by rw [significand_eq, if_pos h.1, h.2]
  obtain ⟨he, -, -⟩ | ⟨he, -, -⟩ | ⟨-, -, hx⟩ | ⟨-, hpos, -⟩ := unpack_cases x
  · rw [h.1] at he
    cases he
  · rw [h.1] at he
    cases he
  · exact hx
  · rw [hsignificand] at hpos
    exact absurd hpos (lt_irrefl 0)

/-- Two doubles that compare equal are one double, or both are zeros. -/
theorem eq_or_zero_of_beq (h : (x == y) = true) : x = y ∨ IsZero x ∧ IsZero y := by
  have hcompare : x.toModel.unpack.compare y.toModel.unpack = some .eq := beq_iff_eq.1 h
  have hx := parts_unpack x
  have hy := parts_unpack y
  rcases compare_eq_cases hcompare with ⟨s, hxs, hys⟩ | ⟨s, t, hxs, hys⟩ |
    ⟨s, m, e, hpos, hxs, hys⟩
  · rw [hxs] at hx
    rw [hys] at hy
    obtain ⟨hsign, hexponent, hfraction⟩ := hx
    obtain ⟨hsign', hexponent', hfraction'⟩ := hy
    exact Or.inl (eq_of_fields (isNegative_eq_of_sign (hsign.symm.trans hsign'))
      (hexponent.trans hexponent'.symm) (hfraction.trans hfraction'.symm))
  · rw [hxs] at hx
    rw [hys] at hy
    exact Or.inr ⟨hx.2, hy.2⟩
  · rw [hxs] at hx
    rw [hys] at hy
    obtain ⟨hsign, hm, he⟩ := hx
    obtain ⟨hsign', hm', he'⟩ := hy
    obtain ⟨hexponent, hfraction⟩ :=
      fields_eq_of_significand (hm.symm.trans hm') (he.symm.trans he')
    exact Or.inl (eq_of_fields (isNegative_eq_of_sign (hsign.symm.trans hsign')) hexponent
      hfraction)

/-- What is a number compares equal to itself. -/
theorem compare_self {a : UnpackedFloat} (h : a.isNaN = false) : a.compare a = some .eq := by
  rcases a with (_ | _) | _ | s | ⟨_ | _, m, e, hm⟩
  case notANumber => cases h
  all_goals simp [UnpackedFloat.compare]
  all_goals rfl

/-- Two zeros compare equal, and so does a number and itself. -/
theorem beq_of_eq_or_zero (hnumber : x.isNaN = false) (h : x = y ∨ IsZero x ∧ IsZero y) :
    (x == y) = true := by
  show (x.toModel.unpack.compare y.toModel.unpack == some .eq) = true
  rw [beq_iff_eq]
  obtain rfl | ⟨hx, hy⟩ := h
  · exact compare_self hnumber
  · rw [unpack_of_isZero hx, unpack_of_isZero hy]
    rfl

/-- The doubles that compare equal to zero are those without a significand. -/
theorem beq_zero_iff : (x == 0) = true ↔ significand x = 0 := by
  constructor
  · intro h
    rcases eq_or_zero_of_beq h with rfl | ⟨hx, -⟩
    · decide +kernel
    · rw [significand_eq, if_pos hx.1, hx.2]
  · intro h
    have hx := isZero_of_significand h
    have hnumber : x.isNaN = false := by
      rw [← Bool.not_eq_true, isNaN_iff, hx.1]
      exact fun h => absurd h.1 (by decide)
    exact beq_of_eq_or_zero hnumber (.inr ⟨hx, by decide +kernel, by decide +kernel⟩)

end Decimal

/-! ## Texts -/

/-- Zeros are written without their sign. -/
theorem numberText_of_isZero {x : Float} (h : Decimal.IsZero x) : numberText x = "0" := by
  obtain ⟨hexponent, hfraction⟩ := h
  cases hsign : Decimal.isNegative x with
  | false =>
    have hx : x = 0 := Decimal.eq_of_fields (hsign.trans (by decide +kernel))
      (hexponent.trans (by decide +kernel)) (hfraction.trans (by decide +kernel))
    rw [hx]
    decide +kernel
  | true =>
    have hx : x = -0.0 := Decimal.eq_of_fields (hsign.trans (by decide +kernel))
      (hexponent.trans (by decide +kernel)) (hfraction.trans (by decide +kernel))
    rw [hx]
    decide +kernel

/-- Doubles that compare equal are written in the same way. -/
theorem numberText_eq_of_beq {x y : Float} (h : (x == y) = true) :
    numberText x = numberText y := by
  rcases Decimal.eq_or_zero_of_beq h with rfl | ⟨hx, hy⟩
  · rfl
  · rw [numberText_of_isZero hx, numberText_of_isZero hy]

end ComponentProps
