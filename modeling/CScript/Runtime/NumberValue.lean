/-
The exact value of a double, and the library functions that keep it.

A finite double is a whole number of at most 53 bits times a power of two.
`frexp` and `ldexp` move the power, `floor` and `trunc` drop a fraction; none of
them rounds.
-/

import CScript.Runtime.Value
import Mathlib.Algebra.Order.Floor.Ring
import Mathlib.Data.Rat.Floor
import Mathlib.Order.WithBot
import Mathlib.Tactic.Linarith
import Mathlib.Tactic.Ring

namespace CScript.Double

/-! ### The fields -/

/-- `signbit`. -/
def negative (number : Double) : Bool :=
  decide (2 ^ 63 ≤ number.bits.toNat)

def field (number : Double) : Nat :=
  number.magnitude / 2 ^ 52

def fraction (number : Double) : Nat :=
  number.magnitude % 2 ^ 52

/-- `isfinite`. -/
def finite (number : Double) : Bool :=
  decide (number.field < 2047)

def significand (number : Double) : Nat :=
  if number.field = 0 then number.fraction else 2 ^ 52 + number.fraction

def exponent (number : Double) : Int :=
  (max number.field 1 : Nat) - 1075

def signed (negative : Bool) (size : Nat) : Int :=
  if negative then -(size : Int) else size

def value (number : Double) : ℚ :=
  signed number.negative number.significand * (2 : ℚ) ^ number.exponent

def pack (negative : Bool) (field fraction : Nat) : Double :=
  ⟨UInt64.ofNat ((if negative then 2 ^ 63 else 0) + field * 2 ^ 52 + fraction)⟩

/-! ### The library -/

/-- The double with this exponent field whose leading bits are those of a
number that is not zero. -/
def normal (negative : Bool) (field size : Nat) : Double :=
  pack negative field (size * 2 ^ (52 - size.log2) - 2 ^ 52)

/-- `size` or `-size`, for a size of at most 53 bits. -/
def whole (negative : Bool) (size : Nat) : Double :=
  if size = 0 then pack negative 0 0 else normal negative (size.log2 + 1023) size

def isWhole (number : Double) : Bool :=
  decide (0 ≤ number.exponent ∨ number.significand % 2 ^ (-number.exponent).toNat = 0)

def wholePart (number : Double) : Nat :=
  number.significand / 2 ^ (-number.exponent).toNat

def trunc (number : Double) : Double :=
  if number.isWhole then number else whole number.negative number.wholePart

def floor (number : Double) : Double :=
  if number.isWhole then number
  else if number.negative then whole true (number.wholePart + 1)
  else whole false number.wholePart

def frexp (number : Double) : Double × Int :=
  if number.significand = 0 then (number, 0)
  else (normal number.negative 1022 number.significand,
    number.exponent + number.significand.log2 + 1)

def ldexp (number : Double) (power : Int) : Option Double :=
  if number.significand = 0 then some number
  else if 1 ≤ number.field ∧ 1 ≤ number.field + power ∧ number.field + power ≤ 2046 then
    some (pack number.negative (number.field + power).toNat number.fraction)
  else none

/-- `(int64_t)number`, which is defined for no number outside the type. -/
def toInt64 (number : Double) : Option Int64 :=
  let truncated := signed number.negative number.toNat
  if -2 ^ 63 ≤ truncated ∧ truncated < 2 ^ 63 then some (Int64.ofInt truncated) else none

/-! ### Packing -/

private theorem pack_bits {field fraction : Nat} (negative : Bool) (fieldBound : field < 2 ^ 11)
    (fractionBound : fraction < 2 ^ 52) :
    (pack negative field fraction).bits.toNat =
      (if negative then 2 ^ 63 else 0) + field * 2 ^ 52 + fraction := by
  unfold pack
  rw [UInt64.toNat_ofNat', Nat.mod_eq_of_lt]
  split <;> omega

theorem pack_fields {field fraction : Nat} (negative : Bool) (fieldBound : field < 2 ^ 11)
    (fractionBound : fraction < 2 ^ 52) :
    (pack negative field fraction).negative = negative ∧
      (pack negative field fraction).field = field ∧
      (pack negative field fraction).fraction = fraction := by
  have bits := pack_bits negative fieldBound fractionBound
  unfold Double.negative Double.field Double.fraction magnitude
  rw [bits]
  cases negative with
  | false =>
      simp only [Bool.false_eq_true, if_false, decide_eq_false_iff_not]
      refine ⟨?_, ?_, ?_⟩ <;> omega
  | true =>
      simp only [if_true, decide_eq_true_eq]
      refine ⟨?_, ?_, ?_⟩ <;> omega

theorem fraction_lt (number : Double) : number.fraction < 2 ^ 52 :=
  Nat.mod_lt _ (by decide)

theorem field_lt (number : Double) : number.field < 2 ^ 11 := by
  have bound := Nat.mod_lt number.bits.toNat (show 0 < 2 ^ 63 by decide)
  unfold Double.field magnitude
  omega

theorem significand_of_normal {number : Double} (normal : number.field ≠ 0) :
    number.significand = 2 ^ 52 + number.fraction :=
  if_neg normal

theorem significand_lt (number : Double) : number.significand < 2 ^ 53 := by
  have bound := number.fraction_lt
  unfold significand
  split <;> omega

theorem leading_bit {size : Nat} (positive : 0 < size) (small : size < 2 ^ 53) :
    size.log2 ≤ 52 ∧ 2 ^ 52 ≤ size * 2 ^ (52 - size.log2) ∧
      size * 2 ^ (52 - size.log2) < 2 ^ 53 := by
  have nonzero := Nat.ne_of_gt positive
  have top : size.log2 < 53 := (Nat.log2_lt nonzero).mpr small
  have lower := Nat.mul_le_mul_right (2 ^ (52 - size.log2)) (Nat.log2_self_le nonzero)
  have upper : size * 2 ^ (52 - size.log2) < 2 ^ (size.log2 + 1) * 2 ^ (52 - size.log2) :=
    Nat.mul_lt_mul_of_pos_right Nat.lt_log2_self (Nat.two_pow_pos _)
  rw [← Nat.pow_add] at lower upper
  have lowerPower : size.log2 + (52 - size.log2) = 52 := by omega
  have upperPower : size.log2 + 1 + (52 - size.log2) = 53 := by omega
  rw [lowerPower] at lower
  rw [upperPower] at upper
  exact ⟨by omega, lower, upper⟩

theorem normal_fields {size field : Nat} (negative : Bool) (positive : 0 < size)
    (small : size < 2 ^ 53) (low : 1 ≤ field) (high : field ≤ 2046) :
    (normal negative field size).negative = negative ∧
      (normal negative field size).field = field ∧
      (normal negative field size).significand = size * 2 ^ (52 - size.log2) := by
  obtain ⟨_, lower, upper⟩ := leading_bit positive small
  obtain ⟨sign, fieldEq, fractionEq⟩ := pack_fields negative (show field < 2 ^ 11 by omega)
    (show size * 2 ^ (52 - size.log2) - 2 ^ 52 < 2 ^ 52 by omega)
  refine ⟨sign, fieldEq, ?_⟩
  unfold significand normal
  rw [fieldEq, fractionEq, if_neg (by omega)]
  omega

theorem normal_exponent {size field : Nat} (negative : Bool) (positive : 0 < size)
    (small : size < 2 ^ 53) (low : 1 ≤ field) (high : field ≤ 2046) :
    (normal negative field size).exponent = (field : Int) - 1075 := by
  obtain ⟨_, fieldEq, _⟩ := normal_fields negative positive small low high
  unfold exponent
  rw [fieldEq]
  omega

theorem signed_mul (negative : Bool) (size factor : Nat) :
    signed negative (size * factor) = signed negative size * factor := by
  unfold signed
  split
  · push_cast
    ring
  · push_cast
    ring

theorem whole_value {size : Nat} (negative : Bool) (small : size < 2 ^ 53) :
    (whole negative size).finite = true ∧
      (whole negative size).value = (signed negative size : Int) := by
  unfold whole finite
  by_cases zero : size = 0
  · obtain ⟨_, fieldEq, fractionEq⟩ := pack_fields negative (show 0 < 2 ^ 11 by decide)
      (show 0 < 2 ^ 52 by decide)
    rw [if_pos zero, fieldEq, zero]
    refine ⟨rfl, ?_⟩
    unfold value significand
    rw [fieldEq, fractionEq]
    cases negative <;> simp [signed, pack_fields]
  · have positive := Nat.pos_of_ne_zero zero
    obtain ⟨top, _⟩ := leading_bit positive small
    obtain ⟨sign, fieldEq, significandEq⟩ := normal_fields negative positive small
      (show 1 ≤ size.log2 + 1023 by omega) (by omega)
    rw [if_neg zero, fieldEq, decide_eq_true_eq]
    refine ⟨by omega, ?_⟩
    have power : ((size.log2 + 1023 : Nat) : Int) - 1075 = -((52 - size.log2 : Nat) : Int) := by
      omega
    have inverse : ((2 : ℚ) ^ (52 - size.log2)) * (2 : ℚ) ^ (-((52 - size.log2 : Nat) : Int)) =
        1 := by
      rw [zpow_neg, zpow_natCast]
      exact mul_inv_cancel₀ (pow_ne_zero _ (by norm_num))
    unfold value
    rw [sign, significandEq, normal_exponent negative positive small (by omega) (by omega), power,
      signed_mul]
    push_cast
    rw [mul_assoc, inverse, mul_one]

/-! ### Whole numbers -/

theorem value_of_fraction {number : Double} (below : number.exponent < 0) :
    number.value = signed number.negative number.significand /
      (2 : ℚ) ^ (-number.exponent).toNat := by
  obtain ⟨power, powerEq⟩ := Int.eq_ofNat_of_zero_le (show 0 ≤ -number.exponent by omega)
  have exponentEq : number.exponent = -(power : Int) := by omega
  unfold value
  rw [exponentEq, zpow_neg, zpow_natCast, Int.neg_neg, Int.toNat_natCast, div_eq_mul_inv]

theorem value_of_whole {number : Double} (above : 0 ≤ number.exponent) :
    number.value =
      (signed number.negative number.significand * 2 ^ number.exponent.toNat : Int) := by
  obtain ⟨power, powerEq⟩ := Int.eq_ofNat_of_zero_le above
  unfold value
  rw [powerEq, zpow_natCast, Int.toNat_natCast]
  push_cast
  rfl

private theorem split_point (number : Double) :
    number.significand = 2 ^ (-number.exponent).toNat * number.wholePart +
      number.significand % 2 ^ (-number.exponent).toNat :=
  (Nat.div_add_mod _ _).symm

theorem isWhole_iff (number : Double) :
    number.isWhole = true ↔ ∃ n : Int, number.value = n := by
  unfold isWhole
  rw [decide_eq_true_eq]
  constructor
  · rintro (above | nothing)
    · exact ⟨_, value_of_whole above⟩
    · by_cases above : 0 ≤ number.exponent
      · exact ⟨_, value_of_whole above⟩
      · refine ⟨signed number.negative number.wholePart, ?_⟩
        have split := number.split_point
        rw [nothing, Nat.add_zero, Nat.mul_comm] at split
        rw [value_of_fraction (Int.not_le.mp above), split, signed_mul]
        push_cast
        exact mul_div_cancel_right₀ _ (pow_ne_zero _ (by norm_num))
  · rintro ⟨n, same⟩
    by_cases above : 0 ≤ number.exponent
    · exact Or.inl above
    · right
      rw [value_of_fraction (Int.not_le.mp above),
        div_eq_iff (pow_ne_zero _ (by norm_num))] at same
      have exact : signed number.negative number.significand =
          n * (2 ^ (-number.exponent).toNat : Nat) := by
        exact_mod_cast same
      have divides : ((2 ^ (-number.exponent).toNat : Nat) : Int) ∣
          signed number.negative number.significand := Dvd.intro_left n exact.symm
      have size : (signed number.negative number.significand).natAbs = number.significand := by
        unfold signed
        split <;> simp
      rw [Int.natCast_dvd, size] at divides
      exact Nat.mod_eq_zero_of_dvd divides

theorem trunc_eq_of_isWhole {number : Double} (isWhole : number.isWhole = true) :
    number.trunc = number :=
  if_pos isWhole

private theorem exponent_of_not_isWhole {number : Double} (notWhole : number.isWhole = false) :
    number.exponent < 0 ∧ 0 < number.significand % 2 ^ (-number.exponent).toNat := by
  unfold isWhole at notWhole
  rw [decide_eq_false_iff_not, not_or] at notWhole
  omega

private theorem wholePart_lt {number : Double} (notWhole : number.isWhole = false) :
    number.wholePart + 1 < 2 ^ 53 := by
  obtain ⟨below, _⟩ := exponent_of_not_isWhole notWhole
  have bound := number.significand_lt
  have factor : 2 ≤ 2 ^ (-number.exponent).toNat := by
    calc 2 = 2 ^ 1 := rfl
      _ ≤ 2 ^ (-number.exponent).toNat := Nat.pow_le_pow_right (by decide) (by omega)
  have halved := Nat.div_le_div_left factor (show 0 < 2 by decide) (a := number.significand)
  have part : number.wholePart = number.significand / 2 ^ (-number.exponent).toNat := rfl
  omega

private theorem eq_rounded_iff {number rounded : Double} (finite : number.finite = true)
    (keeps : number.isWhole = true → rounded = number) (isWhole : rounded.isWhole = true) :
    number.eq rounded = true ↔ number.isWhole = true := by
  have notNaN : number.isNaN = false := by
    unfold Double.finite field at finite
    rw [decide_eq_true_eq] at finite
    unfold isNaN
    rw [decide_eq_false_iff_not]
    omega
  constructor
  · intro same
    unfold eq at same
    simp only [Bool.and_eq_true, Bool.or_eq_true, decide_eq_true_eq] at same
    rcases same.2 with equal | ⟨zero, _⟩
    · rw [equal]
      exact isWhole
    · unfold isZero at zero
      rw [decide_eq_true_eq] at zero
      unfold Double.isWhole significand field fraction
      rw [zero]
      simp
  · intro numberWhole
    unfold eq
    rw [keeps numberWhole, notNaN]
    simp

theorem eq_trunc_iff {number : Double} (finite : number.finite = true) :
    number.eq number.trunc = true ↔ number.isWhole = true := by
  apply eq_rounded_iff finite trunc_eq_of_isWhole
  unfold trunc
  cases isWhole : number.isWhole with
  | true =>
      rw [if_pos rfl]
      exact isWhole
  | false =>
      rw [if_neg Bool.false_ne_true, isWhole_iff]
      exact ⟨_, (whole_value _ (Nat.lt_of_succ_lt (wholePart_lt isWhole))).2⟩

theorem floor_value {number : Double} (finite : number.finite = true) :
    number.floor.finite = true ∧ number.floor.isWhole = true ∧
      number.floor.value = (⌊number.value⌋ : Int) := by
  unfold floor
  cases isWhole : number.isWhole with
  | true =>
      obtain ⟨n, same⟩ := number.isWhole_iff.mp isWhole
      refine ⟨finite, isWhole, ?_⟩
      rw [if_pos rfl, same, Int.floor_intCast]
  | false =>
      obtain ⟨negativeExponent, something⟩ := exponent_of_not_isWhole isWhole
      have small := wholePart_lt isWhole
      have scale : (0 : ℚ) < 2 ^ (-number.exponent).toNat := pow_pos (by norm_num) _
      have split : (number.significand : ℚ) = 2 ^ (-number.exponent).toNat * number.wholePart +
          (number.significand % 2 ^ (-number.exponent).toNat : Nat) := by
        exact_mod_cast number.split_point
      have below : ((number.significand % 2 ^ (-number.exponent).toNat : Nat) : ℚ) <
          2 ^ (-number.exponent).toNat := by
        exact_mod_cast Nat.mod_lt number.significand (Nat.two_pow_pos (-number.exponent).toNat)
      have above : (0 : ℚ) < (number.significand % 2 ^ (-number.exponent).toNat : Nat) := by
        exact_mod_cast something
      have nearest : ∃ negative size, size < 2 ^ 53 ∧ (if number.negative then
            whole true (number.wholePart + 1) else whole false number.wholePart) =
          whole negative size ∧ ⌊number.value⌋ = signed negative size := by
        rw [value_of_fraction negativeExponent]
        cases number.negative with
        | false =>
            refine ⟨false, number.wholePart, by omega, if_neg Bool.false_ne_true,
              Int.floor_eq_iff.mpr ⟨?_, ?_⟩⟩
            · rw [le_div_iff₀ scale]
              simp only [signed, Bool.false_eq_true, if_false, Int.cast_natCast]
              linarith
            · rw [div_lt_iff₀ scale]
              simp only [signed, Bool.false_eq_true, if_false, Int.cast_natCast]
              linarith
        | true =>
            refine ⟨true, number.wholePart + 1, small, if_pos rfl,
              Int.floor_eq_iff.mpr ⟨?_, ?_⟩⟩
            · rw [le_div_iff₀ scale]
              simp only [signed, if_true]
              push_cast
              linarith
            · rw [div_lt_iff₀ scale]
              simp only [signed, if_true]
              push_cast
              linarith
      obtain ⟨negative, size, bound, chosen, floorEq⟩ := nearest
      obtain ⟨wholeFinite, wholeEq⟩ := whole_value negative bound
      rw [if_neg Bool.false_ne_true, chosen, floorEq]
      exact ⟨wholeFinite, (isWhole_iff _).mpr ⟨_, wholeEq⟩, wholeEq⟩

theorem eq_floor_iff {number : Double} (finite : number.finite = true) :
    number.eq number.floor = true ↔ number.isWhole = true :=
  eq_rounded_iff finite (fun isWhole => if_pos isWhole) (floor_value finite).2.1

/-! ### Mantissa and exponent -/

private theorem toNat_of_unit {number : Double} (unit : number.field = 1075) :
    number.toNat = 2 ^ 52 + number.fraction := by
  unfold field at unit
  have nonzero : number.isZero = false := by
    unfold isZero
    rw [decide_eq_false_iff_not]
    omega
  unfold toNat fraction
  simp only [nonzero, unit, Bool.false_eq_true, if_false, Nat.lt_irrefl, Nat.sub_self,
    Nat.pow_zero, Nat.mul_one]

private theorem toNat_of_zero {number : Double} (zero : number.significand = 0) :
    number.toNat = 0 := by
  have isZero : number.isZero = true := by
    unfold significand field fraction at zero
    unfold Double.isZero
    rw [decide_eq_true_eq]
    split at zero <;> omega
  unfold toNat
  simp only [isZero, if_true]

private theorem toInt64_exact (number : Double) (small : number.toNat < 2 ^ 63) :
    ∃ word, number.toInt64 = some word ∧
      word.toInt = signed number.negative number.toNat := by
  have range : -2 ^ 63 ≤ signed number.negative number.toNat ∧
      signed number.negative number.toNat < 2 ^ 63 := by
    unfold signed
    split <;> omega
  refine ⟨Int64.ofInt (signed number.negative number.toNat), if_pos range, ?_⟩
  exact Int64.toInt_ofInt_of_le range.1 range.2

theorem frexp_exponent_bound (number : Double) :
    -1100 < (frexp number).2 ∧ (frexp number).2 < 1100 := by
  have fieldBound := number.field_lt
  unfold frexp
  by_cases zero : number.significand = 0
  · rw [if_pos zero]
    exact ⟨show (-1100 : Int) < 0 by decide, show (0 : Int) < 1100 by decide⟩
  · obtain ⟨top, _⟩ := leading_bit (Nat.pos_of_ne_zero zero) number.significand_lt
    rw [if_neg zero]
    unfold exponent
    simp only
    omega

/-- The mantissa becomes a whole number of 53 bits, and with the power that is
left it is the number exactly. -/
theorem mantissa_exact (number : Double) :
    ∃ mantissa word, ldexp (frexp number).1 53 = some mantissa ∧
      mantissa.toInt64 = some word ∧
      number.value = word.toInt * (2 : ℚ) ^ ((frexp number).2 - 53) := by
  by_cases zero : number.significand = 0
  · have left : frexp number = (number, 0) := if_pos zero
    have none_ := toNat_of_zero zero
    obtain ⟨word, cast, wordEq⟩ := toInt64_exact number (by omega)
    refine ⟨number, word, ?_, cast, ?_⟩
    · rw [left]
      exact if_pos zero
    · rw [wordEq, none_]
      unfold value
      rw [zero]
      unfold signed
      split <;> simp
  · have positive := Nat.pos_of_ne_zero zero
    have small := number.significand_lt
    have left : frexp number = (normal number.negative 1022 number.significand,
        number.exponent + number.significand.log2 + 1) := if_neg zero
    obtain ⟨top, lower, upper⟩ := leading_bit positive small
    obtain ⟨sign, fieldEq, significandEq⟩ := normal_fields number.negative positive small
      (show 1 ≤ 1022 by decide) (by decide)
    have fractionEq : 2 ^ 52 + (normal number.negative 1022 number.significand).fraction =
        number.significand * 2 ^ (52 - number.significand.log2) := by
      rw [← significandEq]
      exact (significand_of_normal (by omega)).symm
    have nonzero : (normal number.negative 1022 number.significand).significand ≠ 0 := by
      rw [significandEq]
      omega
    obtain ⟨packedSign, packedField, packedFraction⟩ := pack_fields
      number.negative (show 1075 < 2 ^ 11 by decide)
      (fraction_lt (normal number.negative 1022 number.significand))
    have size := toNat_of_unit packedField
    rw [packedFraction, fractionEq] at size
    obtain ⟨word, cast, wordEq⟩ := toInt64_exact
      (pack number.negative 1075
        (normal number.negative 1022 number.significand).fraction) (by omega)
    refine ⟨_, word, ?_, cast, ?_⟩
    · rw [left]
      unfold ldexp
      rw [if_neg nonzero, fieldEq, sign]
      exact if_pos (by decide)
    · rw [wordEq, packedSign, size, left, signed_mul]
      have shift : number.exponent = ((52 - number.significand.log2 : Nat) : Int) +
          (number.exponent + number.significand.log2 + 1 - 53) := by omega
      have powers : (2 : ℚ) ^ number.exponent = 2 ^ (52 - number.significand.log2) *
          (2 : ℚ) ^ (number.exponent + number.significand.log2 + 1 - 53) := by
        rw [← zpow_natCast, ← zpow_add₀ (by norm_num), ← shift]
      unfold value
      rw [powers]
      push_cast
      ring

end CScript.Double
