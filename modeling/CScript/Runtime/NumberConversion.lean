/-
Numbers between the doubles and the integers of 64 bits.

An integer becomes a double by rounding to the nearest, which changes nothing
where the integer has few enough significant bits.  The other way C leaves a
number outside the type undefined and the processor answers with the end of the
type it lies beyond.  A double with an integer value is that integer and a sign,
and the sign matters at zero only.
-/

import CScript.Runtime.BigIntNumbers
import Mathlib.Algebra.Order.Field.Power

namespace CScript.Double

/-! ### The conversions -/

/-- `size * 2 ^ power` with a sign, for a product that a double holds. -/
def scaled (negative : Bool) (size : Nat) (power : Int) : Double :=
  if size = 0 then pack negative 0 0
  else if 1 ≤ size.log2 + power + 1023 then
    normal negative (size.log2 + power + 1023).toNat size
  else pack negative 0 (size * 2 ^ (power + 1074).toNat)

def ofInt (n : Int) : Double :=
  let power := n.natAbs.log2 - 52
  let kept := n.natAbs / 2 ^ power
  let left := n.natAbs % 2 ^ power
  let rounded :=
    if 2 ^ power < 2 * left ∨ 2 ^ power = 2 * left ∧ kept % 2 = 1 then kept + 1 else kept
  if rounded = 2 ^ 53 then scaled (decide (n < 0)) (2 ^ 52) (power + 1)
  else scaled (decide (n < 0)) rounded power

/-- `(double)word`, which is also what `scvtf` leaves. -/
def ofInt64 (word : Int64) : Double :=
  ofInt word.toInt

/-- `fcvtzs`: truncation that stops at the ends of the type; a NaN is 0. -/
def fcvtzs (number : Double) : Int64 :=
  if number.isNaN then 0
  else Int64.ofInt (max (-2 ^ 63) (min (signed number.negative number.toNat) (2 ^ 63 - 1)))

/-! ### Scaling -/

theorem scaled_value {size : Nat} {power : Int} (negative : Bool) (small : size < 2 ^ 53)
    (low : -1074 ≤ power) (high : size.log2 + power ≤ 1023) :
    (scaled negative size power).finite = true ∧
      (scaled negative size power).negative = negative ∧
      (scaled negative size power).value = signed negative size * (2 : ℚ) ^ power := by
  unfold scaled finite
  by_cases zero : size = 0
  · obtain ⟨sign, fieldEq, fractionEq⟩ := pack_fields negative (show 0 < 2 ^ 11 by decide)
      (show 0 < 2 ^ 52 by decide)
    rw [if_pos zero, fieldEq, zero]
    refine ⟨rfl, sign, ?_⟩
    unfold value significand
    rw [fieldEq, fractionEq]
    cases negative <;> simp [signed]
  · have positive := Nat.pos_of_ne_zero zero
    obtain ⟨top, _⟩ := leading_bit positive small
    rw [if_neg zero]
    by_cases is_normal : 1 ≤ size.log2 + power + 1023
    · obtain ⟨field, fieldEq⟩ := Int.eq_ofNat_of_zero_le
        (show 0 ≤ (size.log2 : Int) + power + 1023 by omega)
      obtain ⟨sign, stands, significandEq⟩ := normal_fields negative positive small
        (show 1 ≤ field by omega) (by omega)
      have exponentEq := normal_exponent negative positive small
        (show 1 ≤ field by omega) (by omega)
      have split : (field : Int) - 1075 + ((52 - size.log2 : Nat) : Int) = power := by omega
      rw [if_pos is_normal, fieldEq, Int.toNat_natCast, stands, decide_eq_true_eq]
      refine ⟨by omega, sign, ?_⟩
      unfold value
      rw [sign, significandEq, exponentEq, ← split, zpow_add₀ (by norm_num), zpow_natCast,
        signed_mul]
      push_cast
      ring
    · obtain ⟨shift, shiftEq⟩ := Int.eq_ofNat_of_zero_le (show 0 ≤ power + 1074 by omega)
      have bound : size * 2 ^ shift < 2 ^ 52 := by
        calc size * 2 ^ shift < 2 ^ (size.log2 + 1) * 2 ^ shift :=
              Nat.mul_lt_mul_of_pos_right Nat.lt_log2_self (Nat.two_pow_pos _)
          _ = 2 ^ (size.log2 + 1 + shift) := (Nat.pow_add ..).symm
          _ ≤ 2 ^ 52 := Nat.pow_le_pow_right (by decide) (by omega)
      obtain ⟨sign, stands, fractionEq⟩ := pack_fields negative (show 0 < 2 ^ 11 by decide) bound
      have split : power = -1074 + (shift : Int) := by omega
      rw [if_neg is_normal, shiftEq, Int.toNat_natCast, stands]
      refine ⟨rfl, sign, ?_⟩
      unfold value significand exponent
      have least : ((max 0 1 : Nat) : Int) - 1075 = -1074 := by decide
      rw [stands, fractionEq, sign, if_pos rfl, split, least, zpow_add₀ (by norm_num),
        zpow_natCast, signed_mul, Int.cast_mul, mul_assoc, mul_comm ((2 : ℚ) ^ (-1074 : Int))]
      norm_cast

/-! ### One double a sign and a value -/

theorem signed_natAbs (negative : Bool) (size : Nat) : (signed negative size).natAbs = size := by
  cases negative <;> simp [signed]

theorem abs_value (number : Double) :
    |number.value| = number.significand * (2 : ℚ) ^ number.exponent := by
  unfold value
  rw [abs_mul, abs_of_pos (show (0 : ℚ) < 2 ^ number.exponent by positivity)]
  congr 1
  rw [← Int.cast_abs, Int.abs_eq_natAbs, signed_natAbs]
  simp

private theorem exponent_not_lt {left right : Double} (same : |left.value| = |right.value|) :
    ¬left.exponent < right.exponent := by
  intro less
  have normal : right.field ≠ 0 := by
    unfold exponent at less
    omega
  have leading : 2 ^ 52 ≤ right.significand := by
    rw [significand_of_normal normal]
    exact Nat.le_add_right _ _
  obtain ⟨shift, shiftEq⟩ := Int.eq_ofNat_of_zero_le
    (show 0 ≤ right.exponent - left.exponent by omega)
  have split : right.exponent = left.exponent + (shift : Int) := by omega
  rw [abs_value, abs_value, split, zpow_add₀ (by norm_num), zpow_natCast, mul_left_comm,
    mul_comm] at same
  have sizes := mul_left_cancel₀ (show (2 : ℚ) ^ left.exponent ≠ 0 by positivity) same
  have natural : left.significand = right.significand * 2 ^ shift := by exact_mod_cast sizes
  have doubled : 2 ^ 1 ≤ 2 ^ shift := Nat.pow_le_pow_right (by decide) (by omega)
  have grown := Nat.mul_le_mul leading doubled
  have bound := left.significand_lt
  omega

private theorem eq_of_parts {left right : Double} (sign : left.negative = right.negative)
    (exponents : left.exponent = right.exponent)
    (significands : left.significand = right.significand) : left = right := by
  have leftBound := left.fraction_lt
  have rightBound := right.fraction_lt
  have fields : left.field = right.field ∧ left.fraction = right.fraction := by
    unfold exponent at exponents
    unfold significand at significands
    split at significands <;> split at significands <;> omega
  have magnitudes : left.magnitude = right.magnitude := by
    unfold field fraction at fields
    omega
  have words : left.bits.toNat = right.bits.toNat := by
    have leftWord := left.bits.toNat_lt
    have rightWord := right.bits.toNat_lt
    unfold negative at sign
    unfold magnitude at magnitudes
    rw [decide_eq_decide] at sign
    omega
  cases left with
  | mk leftBits =>
      cases right with
      | mk rightBits => exact congrArg Double.mk (UInt64.toNat_inj.mp words)

theorem eq_of_value {left right : Double} (sign : left.negative = right.negative)
    (same : left.value = right.value) : left = right := by
  have sizes := congrArg (fun place : ℚ => |place|) same
  have notBelow := exponent_not_lt sizes
  have notAbove := exponent_not_lt sizes.symm
  have exponents : left.exponent = right.exponent := by omega
  rw [abs_value, abs_value, exponents] at sizes
  have significands := mul_right_cancel₀ (show (2 : ℚ) ^ right.exponent ≠ 0 by positivity) sizes
  exact eq_of_parts sign exponents (by exact_mod_cast significands)

theorem isZero_iff_value (number : Double) : number.isZero = true ↔ number.value = 0 := by
  have power : (2 : ℚ) ^ number.exponent ≠ 0 := by positivity
  rw [← abs_eq_zero, abs_value, mul_eq_zero, or_iff_left power, Nat.cast_eq_zero]
  unfold isZero significand field fraction
  rw [decide_eq_true_eq]
  split <;> omega

theorem value_nonneg {number : Double} (sign : number.negative = false) : 0 ≤ number.value := by
  have power : (0 : ℚ) < 2 ^ number.exponent := by positivity
  unfold value signed
  rw [sign, if_neg Bool.false_ne_true]
  positivity

theorem value_nonpos {number : Double} (sign : number.negative = true) : number.value ≤ 0 := by
  have power : (0 : ℚ) < 2 ^ number.exponent := by positivity
  unfold value signed
  rw [sign, if_pos rfl]
  push_cast
  rw [neg_mul, neg_nonpos]
  positivity

theorem eq_iff_value {left right : Double} (leftFinite : left.finite = true)
    (rightFinite : right.finite = true) :
    left.eq right = true ↔ left.value = right.value := by
  obtain ⟨leftNumber, _⟩ := left.finite_iff.mp leftFinite
  obtain ⟨rightNumber, _⟩ := right.finite_iff.mp rightFinite
  unfold eq
  rw [leftNumber, rightNumber]
  simp only [Bool.not_false, Bool.true_and, Bool.or_eq_true, Bool.and_eq_true, decide_eq_true_eq]
  constructor
  · rintro (same | ⟨leftZero, rightZero⟩)
    · rw [same]
    · rw [left.isZero_iff_value.mp leftZero, right.isZero_iff_value.mp rightZero]
  · intro same
    rw [isZero_iff_value, isZero_iff_value]
    cases leftSign : left.negative with
    | false =>
        cases rightSign : right.negative with
        | false => exact Or.inl (eq_of_value (leftSign.trans rightSign.symm) same)
        | true =>
            have above := value_nonneg leftSign
            have below := value_nonpos rightSign
            exact Or.inr ⟨by linarith, by linarith⟩
    | true =>
        cases rightSign : right.negative with
        | true => exact Or.inl (eq_of_value (leftSign.trans rightSign.symm) same)
        | false =>
            have below := value_nonpos leftSign
            have above := value_nonneg rightSign
            exact Or.inr ⟨by linarith, by linarith⟩

/-! ### Integers -/

def Fits (n : Int) : Prop :=
  ∃ size power, size < 2 ^ 53 ∧ power ≤ 971 ∧ n.natAbs = size * 2 ^ power

private theorem ofInt_eq_scaled {n : Int} (fits : Fits n) :
    ∃ kept shift : Nat, kept < 2 ^ 53 ∧ shift ≤ 971 ∧ n.natAbs = kept * 2 ^ shift ∧
      ofInt n = scaled (decide (n < 0)) kept shift := by
  obtain ⟨size, power, small, powerBound, sizeEq⟩ := fits
  have dropped : n.natAbs.log2 - 52 ≤ power := by
    by_cases zero : n.natAbs = 0
    · rw [zero]
      exact Nat.zero_le _
    · have bits : n.natAbs < 2 ^ (53 + power) := by
        rw [sizeEq, Nat.pow_add]
        exact Nat.mul_lt_mul_of_pos_right small (Nat.two_pow_pos _)
      have top := (Nat.log2_lt zero).mpr bits
      omega
  have whole : n.natAbs = (size * 2 ^ (power - (n.natAbs.log2 - 52))) *
      2 ^ (n.natAbs.log2 - 52) := by
    rw [Nat.mul_assoc, ← Nat.pow_add, Nat.sub_add_cancel dropped]
    exact sizeEq
  have below : n.natAbs < 2 ^ 53 * 2 ^ (n.natAbs.log2 - 52) := by
    rw [← Nat.pow_add]
    exact lt_of_lt_of_le Nat.lt_log2_self (Nat.pow_le_pow_right (by decide) (by omega))
  unfold ofInt
  simp only
  generalize n.natAbs.log2 - 52 = shift at *
  generalize size * 2 ^ (power - shift) = kept at *
  have positive := Nat.two_pow_pos shift
  have keptSmall : kept < 2 ^ 53 := by
    rw [whole] at below
    exact Nat.lt_of_mul_lt_mul_right below
  have quotient : n.natAbs / 2 ^ shift = kept := by rw [whole, Nat.mul_div_cancel _ positive]
  have remainder : n.natAbs % 2 ^ shift = 0 := by rw [whole, Nat.mul_mod_left]
  have down : ¬(2 ^ shift < 2 * 0 ∨ 2 ^ shift = 2 * 0 ∧ kept % 2 = 1) := by omega
  rw [quotient, remainder, if_neg down, if_neg (Nat.ne_of_lt keptSmall)]
  exact ⟨kept, shift, keptSmall, by omega, whole, rfl⟩

theorem ofInt_value {n : Int} (fits : Fits n) :
    (ofInt n).finite = true ∧ (ofInt n).negative = decide (n < 0) ∧ (ofInt n).value = n := by
  obtain ⟨kept, shift, small, shiftBound, keptEq, chosen⟩ := ofInt_eq_scaled fits
  have top : kept.log2 ≤ 52 := by
    by_cases zero : kept = 0
    · rw [zero]
      decide
    · exact (leading_bit (Nat.pos_of_ne_zero zero) small).1
  obtain ⟨finite, sign, value⟩ := scaled_value (decide (n < 0)) small
    (show -1074 ≤ (shift : Int) by omega) (by omega)
  have whole : n = signed (decide (n < 0)) (kept * 2 ^ shift) := by
    rw [← keptEq]
    unfold signed
    split <;> simp only [decide_eq_true_eq] at * <;> omega
  rw [chosen]
  refine ⟨finite, sign, ?_⟩
  rw [value, zpow_natCast]
  conv_rhs => rw [whole, signed_mul]
  push_cast
  rfl

theorem negative_of_value {number : Double} {n : Int} (stands : number.value = n)
    (nonzero : n ≠ 0) : number.negative = decide (n < 0) := by
  cases sign : number.negative with
  | false =>
      have above := value_nonneg sign
      rw [stands] at above
      have nonneg : 0 ≤ n := by exact_mod_cast above
      exact (decide_eq_false (Int.not_lt.mpr nonneg)).symm
  | true =>
      have below := value_nonpos sign
      rw [stands] at below
      have nonpos : n ≤ 0 := by exact_mod_cast below
      exact (decide_eq_true (Int.lt_iff_le_and_ne.mpr ⟨nonpos, nonzero⟩)).symm

theorem significand_of_value {number : Double} {n : Int} (stands : number.value = n) {shift : Nat}
    (below : number.exponent = -(shift : Int)) :
    n.natAbs * 2 ^ shift = number.significand := by
  have sizes := number.abs_value
  rw [stands, ← Int.cast_abs, Int.abs_eq_natAbs, below, zpow_neg, zpow_natCast, ← div_eq_mul_inv,
    eq_div_iff (pow_ne_zero _ two_ne_zero)] at sizes
  exact_mod_cast sizes

theorem natAbs_of_value {number : Double} {n : Int} (stands : number.value = n) {shift : Nat}
    (above : number.exponent = (shift : Int)) :
    n.natAbs = number.significand * 2 ^ shift := by
  have sizes := number.abs_value
  rw [stands, ← Int.cast_abs, Int.abs_eq_natAbs, above, zpow_natCast] at sizes
  exact_mod_cast sizes

private theorem normal_of_value {number : Double} {n : Int} (stands : number.value = n)
    (nonzero : n ≠ 0) : number.field ≠ 0 := by
  intro subnormal
  obtain ⟨shift, deep, exponentEq⟩ : ∃ shift : Nat, 52 ≤ shift ∧
      number.exponent = -(shift : Int) := by
    unfold exponent
    rw [subnormal]
    exact ⟨1074, by decide, rfl⟩
  have small : number.significand < 2 ^ 52 := by
    unfold significand
    rw [if_pos subnormal]
    exact number.fraction_lt
  rw [← significand_of_value stands exponentEq] at small
  have scale := Nat.pow_le_pow_right (show 0 < 2 by decide) deep
  have grown := Nat.mul_le_mul (Int.natAbs_pos.mpr nonzero) scale
  omega

theorem toNat_of_value {number : Double} {n : Int} (stands : number.value = n) :
    number.toNat = n.natAbs := by
  have zero_iff : number.isZero = true ↔ n = 0 := by
    rw [isZero_iff_value, stands, Int.cast_eq_zero]
  unfold toNat
  by_cases zero : n = 0
  · rw [if_pos (zero_iff.mpr zero), zero]
    rfl
  · have normal := normal_of_value stands zero
    have significandEq := significand_of_normal normal
    have exponentEq : number.exponent = (number.field : Int) - 1075 := by
      unfold exponent
      omega
    rw [if_neg (mt zero_iff.mp zero)]
    change (if number.field < 1075 then (2 ^ 52 + number.fraction) / 2 ^ (1075 - number.field)
      else (2 ^ 52 + number.fraction) * 2 ^ (number.field - 1075)) = _
    rw [← significandEq]
    by_cases fractional : number.field < 1075
    · have below : number.exponent = -((1075 - number.field : Nat) : Int) := by omega
      rw [if_pos fractional, ← significand_of_value stands below,
        Nat.mul_div_cancel _ (Nat.two_pow_pos _)]
    · have above : number.exponent = ((number.field - 1075 : Nat) : Int) := by omega
      rw [if_neg fractional]
      exact (natAbs_of_value stands above).symm

theorem signed_toNat {number : Double} {n : Int} (stands : number.value = n) :
    signed number.negative number.toNat = n := by
  rw [toNat_of_value stands]
  by_cases zero : n = 0
  · rw [zero]
    cases number.negative <;> rfl
  · rw [negative_of_value stands zero]
    unfold signed
    split <;> simp only [decide_eq_true_eq] at * <;> omega

theorem toInt64_of_value {number : Double} {n : Int} (stands : number.value = n) :
    number.toInt64 =
      if -2 ^ 63 ≤ n ∧ n < 2 ^ 63 then some (Int64.ofInt n) else none := by
  unfold toInt64
  rw [signed_toNat stands]

theorem fits_of_value {number : Double} (finite : number.finite = true) {n : Int}
    (stands : number.value = n) : Fits n := by
  have bound : number.field < 2047 := of_decide_eq_true finite
  have small := number.significand_lt
  by_cases above : 0 ≤ number.exponent
  · obtain ⟨shift, shiftEq⟩ := Int.eq_ofNat_of_zero_le above
    have shiftBound : shift ≤ 971 := by
      unfold exponent at shiftEq
      omega
    exact ⟨number.significand, shift, small, shiftBound, natAbs_of_value stands shiftEq⟩
  · obtain ⟨shift, shiftEq⟩ := Int.eq_ofNat_of_zero_le (show 0 ≤ -number.exponent by omega)
    have scaledEq := significand_of_value stands (show number.exponent = -(shift : Int) by omega)
    have grown := Nat.le_mul_of_pos_right n.natAbs (Nat.two_pow_pos shift)
    exact ⟨n.natAbs, 0, by omega, by decide, (Nat.mul_one _).symm⟩

theorem Fits.tmod {a b : Int} (aFits : Fits a) (bFits : Fits b) (nonzero : b ≠ 0) :
    Fits (a.tmod b) := by
  obtain ⟨aSize, aPower, aSmall, aBound, aEq⟩ := aFits
  obtain ⟨bSize, bPower, bSmall, bBound, bEq⟩ := bFits
  unfold Fits
  rw [Int.natAbs_tmod, aEq, bEq]
  cases Nat.le_total aPower bPower with
  | inl below =>
      refine ⟨aSize % (bSize * 2 ^ (bPower - aPower)), aPower,
        lt_of_le_of_lt (Nat.mod_le _ _) aSmall, aBound, ?_⟩
      rw [← Nat.mul_mod_mul_right, Nat.mul_assoc, ← Nat.pow_add, Nat.sub_add_cancel below]
  | inr below =>
      have positive : 0 < bSize := by
        apply Nat.pos_of_ne_zero
        intro zero
        rw [zero, Nat.zero_mul, Int.natAbs_eq_zero] at bEq
        exact nonzero bEq
      refine ⟨(aSize * 2 ^ (aPower - bPower)) % bSize, bPower,
        lt_trans (Nat.mod_lt _ positive) bSmall, bBound, ?_⟩
      rw [← Nat.mul_mod_mul_right, Nat.mul_assoc, ← Nat.pow_add, Nat.sub_add_cancel below]

end CScript.Double
