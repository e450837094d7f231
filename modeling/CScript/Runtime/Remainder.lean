/-
The remainder of two numbers, as the interpreter, the interpreter of the
intermediate representation and the compiled code each compute it.

All three divide integers where their own guard says that this is the same, and
call `fmod` where it does not.  An integer has no negative zero, and a guard that
converts first has already converted a number that is too large.
-/

import CScript.Runtime.NumberConversion

namespace CScript

namespace Double

/-! ### fmod -/

/-- What `fmod` answers where there is no remainder. -/
def notANumber : Double :=
  ⟨0x7ff8000000000000⟩

/-- Both numbers are multiples of the smaller of their last bits, and so is the
remainder, which is exact. -/
def fmod (x y : Double) : Double :=
  if x.isNaN || y.isNaN || x.isInf || y.isZero then notANumber
  else if y.isInf then x
  else
    let power := min x.exponent y.exponent
    let dividend := x.significand * 2 ^ (x.exponent - power).toNat
    let divisor := y.significand * 2 ^ (y.exponent - power).toNat
    scaled x.negative (dividend % divisor) power

theorem value_aligned (number : Double) {power : Int} (below : power ≤ number.exponent) :
    number.value = signed number.negative
      (number.significand * 2 ^ (number.exponent - power).toNat) * (2 : ℚ) ^ power := by
  obtain ⟨shift, shiftEq⟩ := Int.eq_ofNat_of_zero_le (show 0 ≤ number.exponent - power by omega)
  have split : number.exponent = (shift : Int) + power := by omega
  unfold value
  rw [shiftEq, Int.toNat_natCast, signed_mul, split, zpow_add₀ two_ne_zero, zpow_natCast]
  push_cast
  ring

private theorem signed_div_mod (first second : Bool) (dividend divisor : Nat) :
    signed first dividend = signed (first != second) (dividend / divisor) *
      signed second divisor + signed first (dividend % divisor) := by
  have split : (divisor : Int) * (dividend / divisor : Nat) + (dividend % divisor : Nat) =
      dividend := by
    exact_mod_cast Nat.div_add_mod dividend divisor
  rw [Int.mul_comm] at split
  cases first <;> cases second <;> simp only [signed, bne_self_eq_false, Bool.false_eq_true,
    if_false, if_true, bne_iff_ne, ne_eq, not_false_eq_true, reduceCtorEq] <;>
    linarith

private theorem remainder_small {x y : Double} (positive : 0 < y.significand) :
    (x.significand * 2 ^ (x.exponent - min x.exponent y.exponent).toNat) %
      (y.significand * 2 ^ (y.exponent - min x.exponent y.exponent).toNat) < 2 ^ 53 := by
  cases Int.le_total x.exponent y.exponent with
  | inl below =>
      rw [min_eq_left below, Int.sub_self, Int.toNat_zero, Nat.pow_zero, Nat.mul_one]
      exact lt_of_le_of_lt (Nat.mod_le _ _) x.significand_lt
  | inr below =>
      rw [min_eq_right below, Int.sub_self, Int.toNat_zero, Nat.pow_zero, Nat.mul_one]
      exact lt_trans (Nat.mod_lt _ positive) y.significand_lt

theorem fmod_value {x y : Double} (xFinite : x.finite = true) (yFinite : y.finite = true)
    (nonzero : y.isZero = false) :
    (fmod x y).finite = true ∧ (fmod x y).negative = x.negative ∧
      |(fmod x y).value| < |y.value| ∧
      ∃ quotient : Int, x.value = quotient * y.value + (fmod x y).value := by
  obtain ⟨xNumber, xBounded⟩ := x.finite_iff.mp xFinite
  obtain ⟨yNumber, yBounded⟩ := y.finite_iff.mp yFinite
  have positive : 0 < y.significand := by
    apply Nat.pos_of_ne_zero
    intro zero
    have vanishes : |y.value| = 0 := by rw [abs_value, zero, Nat.cast_zero, zero_mul]
    rw [y.isZero_iff_value.mpr (abs_eq_zero.mp vanishes)] at nonzero
    cases nonzero
  have small := remainder_small (x := x) positive
  have xAligned := x.value_aligned (min_le_left x.exponent y.exponent)
  have yAligned := y.value_aligned (min_le_right x.exponent y.exponent)
  have exponents : -1074 ≤ min x.exponent y.exponent ∧ min x.exponent y.exponent ≤ 971 := by
    have xField : x.field < 2047 := of_decide_eq_true xFinite
    unfold exponent
    omega
  have divisorPositive : 0 < y.significand *
      2 ^ (y.exponent - min x.exponent y.exponent).toNat :=
    Nat.mul_pos positive (Nat.two_pow_pos _)
  unfold fmod
  rw [xNumber, yNumber, xBounded, nonzero, yBounded]
  simp only [Bool.or_self, Bool.false_eq_true, if_false]
  generalize min x.exponent y.exponent = power at *
  generalize x.significand * 2 ^ (x.exponent - power).toNat = dividend at *
  generalize y.significand * 2 ^ (y.exponent - power).toNat = divisor at *
  have top : (dividend % divisor).log2 ≤ 52 := by
    by_cases zero : dividend % divisor = 0
    · rw [zero]
      decide
    · exact (leading_bit (Nat.pos_of_ne_zero zero) small).1
  obtain ⟨finite, sign, value⟩ := scaled_value x.negative small exponents.1 (by omega)
  have scale : (0 : ℚ) < 2 ^ power := by positivity
  refine ⟨finite, sign, ?_, signed (x.negative != y.negative) (dividend / divisor), ?_⟩
  · rw [value, yAligned, abs_mul, abs_mul, ← Int.cast_abs, ← Int.cast_abs, Int.abs_eq_natAbs,
      Int.abs_eq_natAbs, signed_natAbs, signed_natAbs]
    apply mul_lt_mul_of_pos_right _ (abs_pos.mpr scale.ne')
    exact_mod_cast Nat.mod_lt dividend divisorPositive
  · have split : (signed x.negative dividend : ℚ) =
        signed (x.negative != y.negative) (dividend / divisor) * signed y.negative divisor +
          signed x.negative (dividend % divisor) := by
      exact_mod_cast signed_div_mod x.negative y.negative dividend divisor
    rw [value, xAligned, yAligned, split]
    ring

/-- On integers it is the remainder of a division that truncates, with the sign
of the dividend where that is zero. -/
theorem fmod_of_integers {x y : Double} (xFinite : x.finite = true) (yFinite : y.finite = true)
    {a b : Int} (xStands : x.value = a) (yStands : y.value = b) (nonzero : b ≠ 0) :
    (fmod x y).finite = true ∧ (fmod x y).negative = x.negative ∧
      (fmod x y).value = (a.tmod b : Int) := by
  have notZero : y.isZero = false := by
    rw [← Bool.not_eq_true, isZero_iff_value, yStands, Int.cast_eq_zero]
    exact nonzero
  obtain ⟨finite, sign, less, quotient, split⟩ := fmod_value xFinite yFinite notZero
  refine ⟨finite, sign, ?_⟩
  rw [xStands, yStands] at split
  rw [yStands] at less
  obtain ⟨rest, restEq⟩ : ∃ rest : Int, (fmod x y).value = rest :=
    ⟨a - quotient * b, by push_cast; linarith⟩
  rw [restEq] at split less ⊢
  have whole : rest + b * quotient = a := by
    have exact : a = quotient * b + rest := by exact_mod_cast split
    linarith
  have bound : rest.natAbs < b.natAbs := by
    have absolute : |rest| < |b| := by exact_mod_cast less
    rw [Int.abs_eq_natAbs, Int.abs_eq_natAbs] at absolute
    exact_mod_cast absolute
  congr 1
  cases negative : x.negative with
  | false =>
      have dividend := value_nonneg negative
      have remainder := value_nonneg (sign.trans negative)
      rw [xStands] at dividend
      rw [restEq] at remainder
      have aNonneg : 0 ≤ a := by exact_mod_cast dividend
      have restNonneg : 0 ≤ rest := by exact_mod_cast remainder
      exact ((Int.tdiv_tmod_unique aNonneg nonzero).mpr ⟨whole, restNonneg, by omega⟩).2.symm
  | true =>
      have dividend := value_nonpos negative
      have remainder := value_nonpos (sign.trans negative)
      rw [xStands] at dividend
      rw [restEq] at remainder
      have aNonpos : a ≤ 0 := by exact_mod_cast dividend
      have restNonpos : rest ≤ 0 := by exact_mod_cast remainder
      exact ((Int.tdiv_tmod_unique' aNonpos nonzero).mpr ⟨whole, by omega, restNonpos⟩).2.symm

end Double

open Double

/-! ### The three paths -/

/-- C's `%`; it leaves a division by zero undefined, and the one quotient that is
too large. -/
def remainderInt64 (a b : Int64) : Option Int64 :=
  if b = 0 ∨ a = Int64.minValue ∧ b = -1 then none else some (a % b)

/-- What both interpreters do once their guard has answered; nothing where one of
the conversions is undefined. -/
def remainderGuarded (takesIntegers : Option Bool) (a b : Double) : Option Double := do
  if ← takesIntegers then
    return ofInt64 (← remainderInt64 (← a.toInt64) (← b.toInt64))
  else return fmod a b

def isExactInteger (value : Double) : Option Bool :=
  if CompareOp.greaterEqual.numbers value (ofInt (-9007199254740992)) &&
      CompareOp.lessEqual.numbers value (ofInt 9007199254740992) then do
    return value.eq (ofInt64 (← value.toInt64))
  else some false

/-- The guard of `OP_MODULO`. -/
def moduloTakesIntegers (a b : Double) : Option Bool :=
  if !b.eq ⟨0⟩ && !a.eq ⟨0⟩ then do
    if ← isExactInteger a then isExactInteger b else return false
  else some false

/-- `OP_MODULO` on two numbers. -/
def modulo (a b : Double) : Option Double :=
  remainderGuarded (moduloTakesIntegers a b) a b

/-- The guard of `IR_MOD` in the interpreter of the intermediate representation. -/
def irModTakesIntegers (x y : Double) : Option Bool :=
  if CompareOp.greaterEqual.numbers x ⟨0⟩ && CompareOp.greater.numbers y ⟨0⟩ then do
    if x.eq (ofInt64 (← x.toInt64)) then return y.eq (ofInt64 (← y.toInt64)) else return false
  else some false

def irMod (x y : Double) : Option Double :=
  remainderGuarded (irModTakesIntegers x y) x y

/-- The branches that `IR_MOD` compiles to before it divides. -/
def compiledModTakesIntegers (left right : Double) : Bool :=
  (ofInt64 left.fcvtzs).eq left && (ofInt64 right.fcvtzs).eq right &&
    decide (right.fcvtzs ≠ 0) && decide (left.fcvtzs ≠ 0)

/-- `sdiv` and `msub` wrap where C says nothing. -/
def compiledMod (left right : Double) : Double :=
  if compiledModTakesIntegers left right then
    ofInt64 (left.fcvtzs - left.fcvtzs / right.fcvtzs * right.fcvtzs)
  else fmod left right

/-! ### What is asked of a path -/

/-- An `int64_t` represents the number exactly. -/
def IsInt64 (number : Double) : Prop :=
  ∃ n : Int, number.value = n ∧ -2 ^ 63 ≤ n ∧ n < 2 ^ 63

/-- A path leaves nothing undefined, answers as `fmod` does to the last bit, and
divides integers only where both numbers are. -/
structure RemainderAgrees (takesIntegers : Option Bool) (answer : Option Double) (x y : Double) :
    Prop where
  defined : takesIntegers ≠ none
  answers : answer = some (fmod x y)
  exact : takesIntegers = some true → IsInt64 x ∧ IsInt64 y

def ModuloLosesSign (a b : Int) : Prop :=
  a < 0 ∧ b ≠ 0 ∧ |a| ≤ 2 ^ 53 ∧ |b| ≤ 2 ^ 53 ∧ b ∣ a

def IrModFails (x : Double) (a b : Int) : Prop :=
  0 < b ∧ (a = 0 ∧ x.negative = true ∨ 2 ^ 63 ≤ a ∨ 0 ≤ a ∧ 2 ^ 63 ≤ b)

def CompiledModFails (a b : Int) : Prop :=
  a ≠ 0 ∧ b ≠ 0 ∧ |a| ≤ 2 ^ 63 ∧ |b| ≤ 2 ^ 63 ∧
    (a = 2 ^ 63 ∨ b = 2 ^ 63 ∨ a < 0 ∧ b ∣ a)

/-! ### Conversions of integers -/

theorem Double.numbers_of_finite {left right : Double} (op : CompareOp)
    (leftFinite : left.finite = true) (rightFinite : right.finite = true) :
    op.numbers left right = decide (op.orders left.value right.value) := by
  unfold CompareOp.numbers
  rw [place_of_finite leftFinite, place_of_finite rightFinite]
  simp only
  rw [decide_eq_decide]
  cases op with
  | less => exact NumberPlace.ofRat_lt_iff
  | greater => exact NumberPlace.ofRat_lt_iff
  | lessEqual => exact not_lt.symm.trans ((not_congr NumberPlace.ofRat_lt_iff).trans not_lt)
  | greaterEqual => exact not_lt.symm.trans ((not_congr NumberPlace.ofRat_lt_iff).trans not_lt)

private theorem fits_power {n : Int} (power : Nat) (small : power ≤ 971)
    (size : n.natAbs = 2 ^ power) : Double.Fits n :=
  ⟨1, power, by decide, small, size.trans (Nat.one_mul _).symm⟩

private theorem ofInt_last : ofInt (2 ^ 63 - 1) = ofInt (2 ^ 63) := by
  decide

theorem saturated_value {number : Double} {n : Int} (finite : number.finite = true)
    (stands : number.value = n) :
    (ofInt64 number.fcvtzs).finite = true ∧
      (ofInt64 number.fcvtzs).value = (max (-2 ^ 63) (min n (2 ^ 63)) : Int) := by
  obtain ⟨notNaN, _⟩ := number.finite_iff.mp finite
  unfold ofInt64 fcvtzs
  rw [notNaN, if_neg Bool.false_ne_true, signed_toNat stands,
    Int64.toInt_ofInt_of_le (by omega) (by omega)]
  by_cases above : 2 ^ 63 ≤ n
  · obtain ⟨last, _, value⟩ := ofInt_value (fits_power (n := 2 ^ 63) 63 (by decide) rfl)
    have clamped : max (-2 ^ 63) (min n (2 ^ 63 - 1)) = 2 ^ 63 - 1 := by omega
    have nearest : max (-2 ^ 63) (min n (2 ^ 63)) = 2 ^ 63 := by omega
    rw [clamped, nearest, ofInt_last]
    exact ⟨last, value⟩
  · have clamped : max (-2 ^ 63) (min n (2 ^ 63 - 1)) = max (-2 ^ 63) (min n (2 ^ 63)) := by omega
    have fits : Double.Fits (max (-2 ^ 63) (min n (2 ^ 63))) := by
      by_cases below : n ≤ -2 ^ 63
      · exact fits_power 63 (by decide) (by omega)
      · have inside : max (-2 ^ 63) (min n (2 ^ 63)) = n := by omega
        rw [inside]
        exact fits_of_value finite stands
    obtain ⟨inRange, _, value⟩ := ofInt_value fits
    rw [clamped]
    exact ⟨inRange, value⟩

theorem saturated_eq_iff {number : Double} {n : Int} (finite : number.finite = true)
    (stands : number.value = n) :
    (ofInt64 number.fcvtzs).eq number = true ↔ |n| ≤ 2 ^ 63 := by
  obtain ⟨saturated, value⟩ := saturated_value finite stands
  rw [eq_iff_value saturated finite, value, stands, Int.cast_inj, abs_le]
  omega

theorem converts {number : Double} {n : Int} (finite : number.finite = true)
    (stands : number.value = n) (low : -2 ^ 63 ≤ n) (high : n < 2 ^ 63) :
    number.toInt64 = some (Int64.ofInt n) ∧ number.eq (ofInt64 (Int64.ofInt n)) = true := by
  obtain ⟨back, _, value⟩ := ofInt_value (fits_of_value finite stands)
  refine ⟨(toInt64_of_value stands).trans (if_pos ⟨low, high⟩), ?_⟩
  unfold ofInt64
  rw [Int64.toInt_ofInt_of_le low high, eq_iff_value finite back, value]
  exact stands

theorem Double.eq_zero_iff {number : Double} {n : Int} (finite : number.finite = true)
    (stands : number.value = n) : number.eq ⟨0⟩ = true ↔ n = 0 := by
  have zero : (⟨0⟩ : Double).value = 0 := (isZero_iff_value _).mp (by decide)
  rw [eq_iff_value finite (by decide), zero, stands, Int.cast_eq_zero]

theorem isExactInteger_of_value {number : Double} {n : Int} (finite : number.finite = true)
    (stands : number.value = n) : isExactInteger number = some (decide (|n| ≤ 2 ^ 53)) := by
  obtain ⟨upperFinite, _, upper⟩ := ofInt_value
    (fits_power (n := 9007199254740992) 53 (by decide) rfl)
  obtain ⟨lowerFinite, _, lower⟩ := ofInt_value
    (fits_power (n := -9007199254740992) 53 (by decide) rfl)
  unfold isExactInteger
  rw [numbers_of_finite _ finite lowerFinite, numbers_of_finite _ finite upperFinite, stands,
    lower, upper]
  simp only [CompareOp.orders, Int.cast_le, Bool.and_eq_true, decide_eq_true_eq, abs_le]
  by_cases inside : -9007199254740992 ≤ n ∧ n ≤ 9007199254740992
  · obtain ⟨converted, equal⟩ := converts finite stands (by omega) (by omega)
    rw [if_pos inside, converted, decide_eq_true (show -2 ^ 53 ≤ n ∧ n ≤ 2 ^ 53 by omega)]
    exact congrArg some equal
  · rw [if_neg inside, decide_eq_false (show ¬(-2 ^ 53 ≤ n ∧ n ≤ 2 ^ 53) by omega)]

/-! ### Agreement -/

structure Integers (x y : Double) (a b : Int) : Prop where
  xFinite : x.finite = true
  yFinite : y.finite = true
  xStands : x.value = a
  yStands : y.value = b

section Integers

variable {x y : Double} {a b : Int}

theorem Integers.ofInt_tmod_iff (integers : Integers x y a b) (nonzero : b ≠ 0) :
    ofInt (a.tmod b) = fmod x y ↔ ¬(x.negative = true ∧ b ∣ a) := by
  obtain ⟨_, sign, value⟩ := fmod_of_integers integers.xFinite integers.yFinite integers.xStands
    integers.yStands nonzero
  obtain ⟨_, made, madeValue⟩ := ofInt_value
    ((fits_of_value integers.xFinite integers.xStands).tmod
      (fits_of_value integers.yFinite integers.yStands) nonzero)
  have same : ofInt (a.tmod b) = fmod x y ↔
      decide (a.tmod b < 0) = x.negative := by
    rw [← made, ← sign]
    exact ⟨congrArg negative, fun signs => eq_of_value signs (madeValue.trans value.symm)⟩
  rw [same, Int.dvd_iff_tmod_eq_zero]
  by_cases divides : a.tmod b = 0
  · rw [divides]
    cases x.negative <;> simp
  · rw [← sign, negative_of_value value divides]
    simp [divides]

theorem remainderInt64_eq (low : -2 ^ 63 ≤ a) (high : a < 2 ^ 63) (divisorLow : -2 ^ 63 ≤ b)
    (divisorHigh : b < 2 ^ 63) (nonzero : b ≠ 0) (quotient : a ≠ -2 ^ 63 ∨ b ≠ -1) :
    ∃ word, remainderInt64 (Int64.ofInt a) (Int64.ofInt b) = some word ∧
      word.toInt = a.tmod b := by
  have dividend := Int64.toInt_ofInt_of_le low high
  have divisor := Int64.toInt_ofInt_of_le divisorLow divisorHigh
  refine ⟨Int64.ofInt a % Int64.ofInt b, if_neg ?_, ?_⟩
  · rintro (zero | ⟨least, minusOne⟩)
    · rw [← Int64.toInt_inj, divisor] at zero
      exact nonzero zero
    · rw [← Int64.toInt_inj, dividend] at least
      rw [← Int64.toInt_inj, divisor] at minusOne
      exact quotient.elim (fun other => other least) (fun other => other minusOne)
  · rw [Int64.toInt_mod, dividend, divisor]

/-- A guard that lets only numbers of 64 bits through goes wrong at the zeros a
negative dividend leaves, or by converting too early. -/
theorem agrees_iff_guard (integers : Integers x y a b) {takesIntegers : Option Bool}
    (sound : takesIntegers = some true →
      -2 ^ 63 < a ∧ a < 2 ^ 63 ∧ -2 ^ 63 ≤ b ∧ b < 2 ^ 63 ∧ b ≠ 0) :
    RemainderAgrees takesIntegers (remainderGuarded takesIntegers x y) x y ↔
      takesIntegers ≠ none ∧ ¬(takesIntegers = some true ∧ x.negative = true ∧ b ∣ a) := by
  cases guard : takesIntegers with
  | none => exact ⟨fun agrees => absurd rfl agrees.defined, fun holds => absurd rfl holds.1⟩
  | some takes =>
      cases takes with
      | false => exact ⟨fun _ => ⟨nofun, nofun⟩, fun _ => ⟨nofun, rfl, nofun⟩⟩
      | true =>
          obtain ⟨low, high, divisorLow, divisorHigh, nonzero⟩ := sound guard
          have dividend := (converts integers.xFinite integers.xStands low.le high).1
          have divisor := (converts integers.yFinite integers.yStands divisorLow divisorHigh).1
          obtain ⟨word, divided, wordEq⟩ := remainderInt64_eq low.le high divisorLow divisorHigh
            nonzero (Or.inl low.ne')
          have answer : remainderGuarded (some true) x y = some (ofInt (a.tmod b)) := by
            unfold remainderGuarded
            simp only [Option.bind_eq_bind, Option.bind_some, if_true, dividend, divisor, divided]
            unfold ofInt64
            rw [wordEq]
            rfl
          have right := integers.ofInt_tmod_iff nonzero
          constructor
          · intro agrees
            have same := answer.symm.trans agrees.answers
            exact ⟨nofun, fun fails => right.mp (Option.some.inj same) fails.2⟩
          · rintro ⟨_, holds⟩
            have same := right.mpr (fun fails => holds ⟨rfl, fails⟩)
            exact ⟨nofun, answer.trans (congrArg some same), fun _ =>
              ⟨⟨a, integers.xStands, low.le, high⟩, ⟨b, integers.yStands, divisorLow, divisorHigh⟩⟩⟩

theorem moduloTakesIntegers_eq (integers : Integers x y a b) :
    moduloTakesIntegers x y =
      some (decide (a ≠ 0 ∧ b ≠ 0 ∧ |a| ≤ 2 ^ 53 ∧ |b| ≤ 2 ^ 53)) := by
  have dividend := Double.eq_zero_iff integers.xFinite integers.xStands
  have divisor := Double.eq_zero_iff integers.yFinite integers.yStands
  unfold moduloTakesIntegers
  rw [isExactInteger_of_value integers.xFinite integers.xStands,
    isExactInteger_of_value integers.yFinite integers.yStands, Bool.eq_iff_iff.mpr
      (dividend.trans decide_eq_true_iff.symm),
    Bool.eq_iff_iff.mpr (divisor.trans decide_eq_true_iff.symm)]
  simp only [ne_eq, Bool.decide_and, decide_not]
  cases decide (a = 0) <;> cases decide (b = 0) <;> cases decide (|a| ≤ 2 ^ 53) <;> rfl

theorem modulo_agrees_iff (integers : Integers x y a b) :
    RemainderAgrees (moduloTakesIntegers x y) (modulo x y) x y ↔ ¬ModuloLosesSign a b := by
  unfold modulo
  rw [agrees_iff_guard integers, moduloTakesIntegers_eq integers]
  · unfold ModuloLosesSign
    rw [Option.some.injEq, decide_eq_true_eq]
    constructor
    · rintro ⟨_, holds⟩ ⟨below, nonzero, small, divisorSmall, divides⟩
      refine holds ⟨⟨below.ne, nonzero, small, divisorSmall⟩, ?_, divides⟩
      rw [negative_of_value integers.xStands below.ne]
      exact decide_eq_true below
    · intro holds
      refine ⟨nofun, ?_⟩
      rintro ⟨⟨dividend, nonzero, small, divisorSmall⟩, sign, divides⟩
      rw [negative_of_value integers.xStands dividend] at sign
      exact holds ⟨of_decide_eq_true sign, nonzero, small, divisorSmall, divides⟩
  · rw [moduloTakesIntegers_eq integers, Option.some.injEq, decide_eq_true_eq, abs_le, abs_le]
    omega

theorem irModTakesIntegers_eq (integers : Integers x y a b) :
    irModTakesIntegers x y =
      if 0 ≤ a ∧ 0 < b then if a < 2 ^ 63 ∧ b < 2 ^ 63 then some true else none
      else some false := by
  have zeroFinite : (⟨0⟩ : Double).finite = true := by decide
  have zero : (⟨0⟩ : Double).value = 0 := (isZero_iff_value _).mp (by decide)
  unfold irModTakesIntegers
  rw [numbers_of_finite _ integers.xFinite zeroFinite,
    numbers_of_finite _ integers.yFinite zeroFinite, integers.xStands, integers.yStands, zero]
  simp only [CompareOp.orders, Int.cast_nonneg_iff, Int.cast_pos, Bool.and_eq_true,
    decide_eq_true_eq]
  by_cases signs : 0 ≤ a ∧ 0 < b
  · rw [if_pos signs, if_pos signs]
    by_cases small : a < 2 ^ 63
    · obtain ⟨dividend, equal⟩ := converts integers.xFinite integers.xStands (by omega) small
      rw [dividend]
      simp only [Option.bind_eq_bind, Option.bind_some, equal, if_true]
      by_cases divisorSmall : b < 2 ^ 63
      · obtain ⟨divisor, divisorEqual⟩ :=
          converts integers.yFinite integers.yStands (by omega) divisorSmall
        rw [divisor, if_pos ⟨small, divisorSmall⟩]
        exact congrArg some divisorEqual
      · rw [toInt64_of_value integers.yStands, if_neg (fun range => divisorSmall range.2),
          if_neg (fun range => divisorSmall range.2)]
        rfl
    · rw [toInt64_of_value integers.xStands, if_neg (fun range => small range.2),
        if_neg (fun range => small range.1)]
      rfl
  · rw [if_neg signs, if_neg signs]

theorem irMod_agrees_iff (integers : Integers x y a b) :
    RemainderAgrees (irModTakesIntegers x y) (irMod x y) x y ↔ ¬IrModFails x a b := by
  have guard := irModTakesIntegers_eq integers
  unfold irMod
  rw [agrees_iff_guard integers, guard]
  · unfold IrModFails
    by_cases signs : 0 ≤ a ∧ 0 < b
    · rw [if_pos signs]
      by_cases small : a < 2 ^ 63 ∧ b < 2 ^ 63
      · rw [if_pos small]
        have negativeZero : x.negative = true ∧ b ∣ a ↔ a = 0 ∧ x.negative = true := by
          constructor
          · rintro ⟨sign, _⟩
            by_cases zero : a = 0
            · exact ⟨zero, sign⟩
            · rw [negative_of_value integers.xStands zero, decide_eq_true_eq] at sign
              omega
          · rintro ⟨zero, sign⟩
            exact ⟨sign, zero ▸ Int.dvd_zero b⟩
        rw [negativeZero]
        constructor
        · rintro ⟨_, holds⟩ ⟨_, zero | large | ⟨_, large⟩⟩
          · exact holds ⟨rfl, zero⟩
          · omega
          · omega
        · intro holds
          exact ⟨nofun, fun fails => holds ⟨signs.2, Or.inl fails.2⟩⟩
      · rw [if_neg small]
        constructor
        · exact fun holds => absurd rfl holds.1
        · intro holds
          exact absurd ⟨signs.2, by omega⟩ holds
    · rw [if_neg signs]
      constructor
      · rintro _ ⟨positive, zero | large | ⟨nonneg, _⟩⟩ <;> omega
      · exact fun _ => ⟨nofun, nofun⟩
  · intro takes
    rw [guard] at takes
    by_cases signs : 0 ≤ a ∧ 0 < b
    · rw [if_pos signs] at takes
      by_cases small : a < 2 ^ 63 ∧ b < 2 ^ 63
      · omega
      · rw [if_neg small] at takes
        cases takes
    · rw [if_neg signs] at takes
      cases takes

theorem msub_toInt (dividend divisor : Int64) :
    (dividend - dividend / divisor * divisor).toInt = dividend.toInt.tmod divisor.toInt := by
  have split := Int.tmod_add_tdiv_mul dividend.toInt divisor.toInt
  have rest : dividend.toInt - dividend.toInt.tdiv divisor.toInt * divisor.toInt =
      dividend.toInt.tmod divisor.toInt := by omega
  rw [Int64.toInt_sub, Int64.toInt_mul, Int64.toInt_div, Int.bmod_mul_bmod, Int.sub_bmod_bmod,
    rest, ← Int64.toInt_mod, Int64.toInt_bmod]

theorem fcvtzs_toInt {number : Double} {n : Int} (finite : number.finite = true)
    (stands : number.value = n) :
    number.fcvtzs.toInt = max (-2 ^ 63) (min n (2 ^ 63 - 1)) := by
  obtain ⟨notNaN, _⟩ := number.finite_iff.mp finite
  unfold fcvtzs
  rw [notNaN, if_neg Bool.false_ne_true, signed_toNat stands,
    Int64.toInt_ofInt_of_le (by omega) (by omega)]

theorem compiledModTakesIntegers_eq (integers : Integers x y a b) :
    compiledModTakesIntegers x y =
      decide (a ≠ 0 ∧ b ≠ 0 ∧ |a| ≤ 2 ^ 63 ∧ |b| ≤ 2 ^ 63) := by
  have dividend := fcvtzs_toInt integers.xFinite integers.xStands
  have divisor := fcvtzs_toInt integers.yFinite integers.yStands
  have dividendZero : x.fcvtzs ≠ 0 ↔ a ≠ 0 := by
    rw [Ne, ← Int64.toInt_inj, dividend, Int64.toInt_zero]
    omega
  have divisorZero : y.fcvtzs ≠ 0 ↔ b ≠ 0 := by
    rw [Ne, ← Int64.toInt_inj, divisor, Int64.toInt_zero]
    omega
  unfold compiledModTakesIntegers
  rw [Bool.eq_iff_iff, Bool.and_eq_true, Bool.and_eq_true, Bool.and_eq_true, decide_eq_true_eq,
    decide_eq_true_eq, decide_eq_true_eq, saturated_eq_iff integers.xFinite integers.xStands,
    saturated_eq_iff integers.yFinite integers.yStands, dividendZero, divisorZero]
  tauto

theorem compiledMod_of_small (integers : Integers x y a b)
    (takes : compiledModTakesIntegers x y = true) (dividendSmall : a < 2 ^ 63)
    (divisorSmall : b < 2 ^ 63) : compiledMod x y = ofInt (a.tmod b) := by
  have guard := compiledModTakesIntegers_eq integers
  rw [takes, eq_comm, decide_eq_true_eq, abs_le, abs_le] at guard
  have dividend := fcvtzs_toInt integers.xFinite integers.xStands
  have divisor := fcvtzs_toInt integers.yFinite integers.yStands
  have dividendEq : max (-2 ^ 63) (min a (2 ^ 63 - 1)) = a := by omega
  have divisorEq : max (-2 ^ 63) (min b (2 ^ 63 - 1)) = b := by omega
  unfold compiledMod ofInt64
  rw [takes, if_pos rfl, msub_toInt, dividend, divisor, dividendEq, divisorEq]

theorem compiledMod_agrees_iff (integers : Integers x y a b) :
    RemainderAgrees (some (compiledModTakesIntegers x y)) (some (compiledMod x y)) x y ↔
      ¬CompiledModFails a b := by
  have guard := compiledModTakesIntegers_eq integers
  unfold CompiledModFails
  by_cases takes : a ≠ 0 ∧ b ≠ 0 ∧ |a| ≤ 2 ^ 63 ∧ |b| ≤ 2 ^ 63
  · rw [decide_eq_true takes] at guard
    obtain ⟨dividendZero, nonzero, dividendRange, divisorRange⟩ := takes
    have sign := negative_of_value integers.xStands dividendZero
    by_cases small : a < 2 ^ 63 ∧ b < 2 ^ 63
    · have right := integers.ofInt_tmod_iff nonzero
      rw [← compiledMod_of_small integers guard small.1 small.2, sign, decide_eq_true_eq] at right
      constructor
      · rintro agrees ⟨_, _, _, _, large | large | fails⟩
        · omega
        · omega
        · exact right.mp (Option.some.inj agrees.answers) fails
      · intro holds
        have same := right.mpr (fun fails =>
          holds ⟨dividendZero, nonzero, dividendRange, divisorRange, Or.inr (Or.inr fails)⟩)
        rw [abs_le] at dividendRange divisorRange
        exact ⟨nofun, congrArg some same, fun _ =>
          ⟨⟨a, integers.xStands, by omega, small.1⟩, ⟨b, integers.yStands, by omega, small.2⟩⟩⟩
    · constructor
      · intro agrees
        obtain ⟨⟨n, stands, _, nSmall⟩, ⟨m, divisorStands, _, mSmall⟩⟩ :=
          agrees.exact (congrArg some guard)
        rw [integers.xStands, Int.cast_inj] at stands
        rw [integers.yStands, Int.cast_inj] at divisorStands
        omega
      · intro holds
        refine absurd ⟨dividendZero, nonzero, dividendRange, divisorRange, ?_⟩ holds
        rw [abs_le] at dividendRange divisorRange
        omega
  · rw [decide_eq_false takes] at guard
    have slow : compiledMod x y = fmod x y := by
      unfold compiledMod
      rw [guard, if_neg Bool.false_ne_true]
    rw [guard, slow]
    constructor
    · rintro _ ⟨dividendZero, nonzero, dividendRange, divisorRange, _⟩
      exact takes ⟨dividendZero, nonzero, dividendRange, divisorRange⟩
    · exact fun _ => ⟨nofun, rfl, nofun⟩

/-- Each of the three paths answers as `fmod` does, leaves nothing undefined and
divides only what fits, exactly away from the inputs its own guard mishandles. -/
theorem remainder_paths_agree_iff (integers : Integers x y a b) :
    (RemainderAgrees (moduloTakesIntegers x y) (modulo x y) x y ∧
      RemainderAgrees (irModTakesIntegers x y) (irMod x y) x y ∧
      RemainderAgrees (some (compiledModTakesIntegers x y)) (some (compiledMod x y)) x y) ↔
    ¬ModuloLosesSign a b ∧ ¬IrModFails x a b ∧ ¬CompiledModFails a b := by
  rw [modulo_agrees_iff integers, irMod_agrees_iff integers, compiledMod_agrees_iff integers]

end Integers

theorem integers_ofInt {a b : Int} (aFits : Double.Fits a) (bFits : Double.Fits b) :
    Integers (ofInt a) (ofInt b) a b where
  xFinite := (ofInt_value aFits).1
  yFinite := (ofInt_value bFits).1
  xStands := (ofInt_value aFits).2.2
  yStands := (ofInt_value bFits).2.2

theorem remainder_paths_agree_seven :
    RemainderAgrees (moduloTakesIntegers (ofInt 7) (ofInt 3)) (modulo (ofInt 7) (ofInt 3))
        (ofInt 7) (ofInt 3) ∧
      RemainderAgrees (irModTakesIntegers (ofInt 7) (ofInt 3)) (irMod (ofInt 7) (ofInt 3))
        (ofInt 7) (ofInt 3) ∧
      RemainderAgrees (some (compiledModTakesIntegers (ofInt 7) (ofInt 3)))
        (some (compiledMod (ofInt 7) (ofInt 3))) (ofInt 7) (ofInt 3) := by
  have integers := integers_ofInt (a := 7) (b := 3) ⟨7, 0, by decide, by decide, rfl⟩
    ⟨3, 0, by decide, by decide, rfl⟩
  refine (remainder_paths_agree_iff integers).mpr ⟨?_, ?_, ?_⟩
  · rintro ⟨negative, _⟩
    omega
  · rintro ⟨_, ⟨zero, _⟩ | large | ⟨_, large⟩⟩ <;> omega
  · rintro ⟨_, _, _, _, large | large | ⟨negative, _⟩⟩ <;> omega

/-- Four is a multiple of two, and so is its opposite, whose remainder loses its
sign twice; the remainder of negative zero loses it once. -/
theorem remainder_paths_differ :
    ¬(∀ x y a b, Integers x y a b →
      RemainderAgrees (moduloTakesIntegers x y) (modulo x y) x y ∧
        RemainderAgrees (irModTakesIntegers x y) (irMod x y) x y ∧
        RemainderAgrees (some (compiledModTakesIntegers x y)) (some (compiledMod x y)) x y) ∧
    ¬RemainderAgrees (moduloTakesIntegers (ofInt (-4)) (ofInt 2)) (modulo (ofInt (-4)) (ofInt 2))
      (ofInt (-4)) (ofInt 2) ∧
    ¬RemainderAgrees (irModTakesIntegers (pack true 0 0) (ofInt 1))
      (irMod (pack true 0 0) (ofInt 1)) (pack true 0 0) (ofInt 1) ∧
    ¬RemainderAgrees (some (compiledModTakesIntegers (ofInt (-4)) (ofInt 2)))
      (some (compiledMod (ofInt (-4)) (ofInt 2))) (ofInt (-4)) (ofInt 2) := by
  have four := integers_ofInt (a := -4) (b := 2) ⟨4, 0, by decide, by decide, rfl⟩
    ⟨2, 0, by decide, by decide, rfl⟩
  have one := ofInt_value (n := 1) ⟨1, 0, by decide, by decide, rfl⟩
  have zero : Integers (pack true 0 0) (ofInt 1) 0 1 :=
    { xFinite := by decide
      yFinite := one.1
      xStands := by
        rw [Int.cast_zero]
        exact (isZero_iff_value _).mp (by decide)
      yStands := one.2.2 }
  have interpreter : ModuloLosesSign (-4) 2 :=
    ⟨by decide, by decide, by decide, by decide, by decide⟩
  have compiled : CompiledModFails (-4) 2 :=
    ⟨by decide, by decide, by decide, by decide, Or.inr (Or.inr ⟨by decide, by decide⟩)⟩
  have first := fun agrees => (modulo_agrees_iff four).mp agrees interpreter
  refine ⟨fun always => first (always _ _ _ _ four).1, first, ?_, ?_⟩
  · exact fun agrees => (irMod_agrees_iff zero).mp agrees ⟨by decide, Or.inl ⟨rfl, by decide⟩⟩
  · exact fun agrees => (compiledMod_agrees_iff four).mp agrees compiled

end CScript
