/-
BigInts and numbers, compared without rounding either.

A whole double is read exactly into a BigInt by scaling its mantissa; comparing
reads the floor, and a fraction left over decides a tie.  Every BigInt and every
number except NaN has its place in one order.
-/

import CScript.Runtime.BigIntText
import CScript.Runtime.NumberValue
import CScript.Runtime.PropertyOps
import CScript.Runtime.ValueEquality

namespace CScript

/-! ### Comparing doubles -/

inductive CompareOp where
  | less
  | lessEqual
  | greater
  | greaterEqual
  deriving DecidableEq, Repr

namespace CompareOp

def text : CompareOp → List UInt8
  | less => ascii "<"
  | lessEqual => ascii "<="
  | greater => ascii ">"
  | greaterEqual => ascii ">="

def orders {α : Type*} [LT α] [LE α] (left right : α) : CompareOp → Prop
  | less => left < right
  | lessEqual => left ≤ right
  | greater => right < left
  | greaterEqual => right ≤ left

instance {α : Type*} [LinearOrder α] (left right : α) (op : CompareOp) :
    Decidable (op.orders left right) :=
  match op with
  | less => inferInstanceAs (Decidable (left < right))
  | lessEqual => inferInstanceAs (Decidable (left ≤ right))
  | greater => inferInstanceAs (Decidable (right < left))
  | greaterEqual => inferInstanceAs (Decidable (right ≤ left))

end CompareOp

abbrev NumberPlace := WithBot (WithTop ℚ)

def NumberPlace.ofRat (number : ℚ) : NumberPlace :=
  ((number : WithTop ℚ) : WithBot (WithTop ℚ))

def Double.place (number : Double) : Option NumberPlace :=
  if number.isNaN then none
  else if number.isInf then some (if number.negative then ⊥ else ⊤)
  else some (NumberPlace.ofRat number.value)

/-- C's comparison of two doubles: by value, and false where one is NaN. -/
def CompareOp.numbers (op : CompareOp) (left right : Double) : Bool :=
  match left.place, right.place with
  | some left, some right => decide (op.orders left right)
  | _, _ => false

/-! ### The source -/

/-- The second half of `csBigFromDouble`: `out` times a power of two. -/
def applyExponent (out : BigInt) (exponent : Int) : Option (Option BigInt) :=
  if exponent = 0 then some (some out)
  else do
    let size := if exponent > 0 then exponent else -exponent
    match ← csBigPower (csBigFromInt64 2) (csBigFromInt64 (Int64.ofInt size)) with
    | none => return none
    | some scale =>
        if exponent > 0 then
          let scaled ← csBigMultiply out scale
          return some scaled
        else csBigDivide out scale

/-- The inner option is the BigInt, or the refusal of a number that is not
whole. -/
def csBigFromDouble (value : Double) : Option (Option BigInt) :=
  if value.isNaN || value.isInf then some none
  else if !value.eq value.trunc then some none
  else do
    let (fraction, exponent) := value.frexp
    let mantissa ← fraction.ldexp 53
    let word ← mantissa.toInt64
    applyExponent (csBigFromInt64 word) (exponent - 53)

/-- 2 is the answer for a NaN. -/
def csBigCompareDouble (value : BigInt) (number : Double) : Option Int :=
  if number.isNaN then some 2
  else if number.isInf then some (if CompareOp.greater.numbers number ⟨0⟩ then -1 else 1)
  else do
    match ← csBigFromDouble number.floor with
    | none => return 2
    | some whole =>
        let order := csBigCompare value whole
        if order = 0 ∧ (!number.eq number.floor) = true then return -1 else return order

inductive OrderResult where
  | known (order : Int)
  | unordered
  | invalid (message : List UInt8)
  deriving DecidableEq, Repr

def Value.asBigInt : Value → Option Nat
  | .obj object => object.asBigInt
  | _ => none

def comparingExactly (bigints : BigIntCells) (a b : Value) : Option OrderResult :=
  match a.asBigInt, a.asNumber, b.asBigInt, b.asNumber with
  | some left, _, some right, _ =>
      some (.known (csBigCompare (bigints left) (bigints right)))
  | some left, _, none, some right => do
      let order ← csBigCompareDouble (bigints left) right
      return if order = 2 then .unordered else .known order
  | none, some left, some right, _ => do
      let reversed ← csBigCompareDouble (bigints right) left
      return if reversed = 2 then .unordered else .known (-reversed)
  | _, _, _, _ =>
      some (.invalid (ascii "cannot compare " ++ csValueTypeName a ++ ascii " with " ++
        csValueTypeName b))

/-- `BINARY_COMPARE_OP`: the answer, or the text of the error thrown. -/
def binaryCompare (bigints : BigIntCells) (op : CompareOp) (a b : Value) :
    Option (Except (List UInt8) Bool) :=
  if b.asBigInt.isSome || a.asBigInt.isSome then do
    match ← comparingExactly bigints a b with
    | .invalid message => return .error message
    | .unordered => return .ok false
    | .known order => return .ok (decide (op.orders order 0))
  else
    match a.asNumber, b.asNumber with
    | some left, some right => some (.ok (op.numbers left right))
    | _, _ =>
        some (.error (ascii "operands of '" ++ op.text ++ ascii "' must be numbers, got " ++
          csValueTypeName a ++ ascii " and " ++ csValueTypeName b))

/-! ### Places -/

def Value.place (bigints : BigIntCells) (value : Value) : Option NumberPlace :=
  match value.asBigInt with
  | some address => some (NumberPlace.ofRat (bigints address).toInt)
  | none => value.asNumber.bind Double.place

structure OrderSign {α : Type*} [LT α] (order : Int) (left right : α) : Prop where
  below : left < right → order = -1
  same : left = right → order = 0
  above : right < left → order = 1

/-! ### Reading a double -/

private theorem fromInt64_size {size : Int} (nonnegative : 0 ≤ size) (small : size < 2 ^ 63) :
    (csBigFromInt64 (Int64.ofInt size)).negative = false ∧
      magnitude (csBigFromInt64 (Int64.ofInt size)).limbs = size.toNat := by
  obtain ⟨canonical, valueEq⟩ := csBigFromInt64_exact (Int64.ofInt size)
  rw [Int64.toInt_ofInt_of_le (by omega) small] at valueEq
  constructor
  · by_contra negative
    rw [Bool.not_eq_false] at negative
    have nonempty : (csBigFromInt64 (Int64.ofInt size)).limbs ≠ [] := by
      intro empty
      rw [canonical.unsignedZero empty] at negative
      cases negative
    have positive := canonical.magnitude_pos nonempty
    unfold BigInt.toInt at valueEq
    rw [if_pos negative] at valueEq
    omega
  · rw [magnitude_eq_natAbs, valueEq]
    omega

theorem applyExponent_exact {out : BigInt} (canonical : out.Canonical) {exponent n : Int}
    (low : -2 ^ 62 < exponent) (high : exponent < 2 ^ 62)
    (whole : (n : ℚ) = out.toInt * (2 : ℚ) ^ exponent) :
    ∃ scaled, applyExponent out exponent = some (some scaled) ∧ scaled.Canonical ∧
      scaled.toInt = n := by
  unfold applyExponent
  by_cases zero : exponent = 0
  · refine ⟨out, if_pos zero, canonical, ?_⟩
    rw [zero, zpow_zero, mul_one] at whole
    exact_mod_cast whole.symm
  · have base : (csBigFromInt64 2).Canonical := by decide
    have baseEq : (csBigFromInt64 2).toInt = 2 := by decide
    rw [if_neg zero]
    by_cases up : exponent > 0
    · obtain ⟨unsigned, size⟩ := fromInt64_size (show 0 ≤ exponent by omega) (by omega)
      obtain ⟨scale, ranPower, scaleCanonical, scaleEq⟩ := csBigPower_exact base unsigned
      obtain ⟨scaled, ranMultiply, scaledCanonical, scaledEq⟩ :=
        csBigMultiply_exact canonical scaleCanonical
      refine ⟨scaled, ?_, scaledCanonical, ?_⟩
      · simp only [if_pos up, ranPower, ranMultiply, Option.bind_eq_bind, Option.bind_some,
          Option.pure_def]
      · obtain ⟨power, powerEq⟩ := Int.eq_ofNat_of_zero_le (show 0 ≤ exponent by omega)
        rw [powerEq, zpow_natCast] at whole
        rw [scaledEq, scaleEq, size, baseEq, powerEq, Int.toNat_natCast]
        exact_mod_cast whole.symm
    · obtain ⟨unsigned, size⟩ := fromInt64_size (show 0 ≤ -exponent by omega) (by omega)
      obtain ⟨scale, ranPower, scaleCanonical, scaleEq⟩ := csBigPower_exact base unsigned
      rw [size, baseEq] at scaleEq
      have positive : 0 < scale.toInt := by
        rw [scaleEq]
        exact pow_pos (by decide) _
      have nonzero : csBigIsZero scale = false := by
        rw [← Bool.not_eq_true, scaleCanonical.isZero_iff, magnitude_eq_natAbs]
        omega
      obtain ⟨scaled, ranDivide, scaledCanonical, scaledEq⟩ :=
        csBigDivide_exact out scaleCanonical nonzero
      refine ⟨scaled, ?_, scaledCanonical, ?_⟩
      · simp only [if_neg up, ranPower, ranDivide, Option.bind_eq_bind, Option.bind_some]
      · obtain ⟨power, powerEq⟩ := Int.eq_ofNat_of_zero_le (show 0 ≤ -exponent by omega)
        have exponentEq : exponent = -(power : Int) := by omega
        rw [exponentEq, zpow_neg, zpow_natCast, ← div_eq_mul_inv,
          eq_div_iff (pow_ne_zero _ (by norm_num))] at whole
        have product : n * scale.toInt = out.toInt := by
          rw [scaleEq, powerEq, Int.toNat_natCast]
          exact_mod_cast whole
        rw [scaledEq, ← product]
        exact Int.mul_tdiv_cancel _ (by omega)

theorem Double.finite_iff (number : Double) :
    number.finite = true ↔ number.isNaN = false ∧ number.isInf = false := by
  unfold Double.finite Double.field Double.isNaN Double.isInf
  rw [decide_eq_true_eq, decide_eq_false_iff_not, decide_eq_false_iff_not]
  omega

theorem csBigFromDouble_whole {number : Double} (finite : number.finite = true) {n : Int}
    (whole : number.value = n) :
    ∃ read, csBigFromDouble number = some (some read) ∧ read.Canonical ∧ read.toInt = n := by
  obtain ⟨notNaN, notInf⟩ := (Double.finite_iff number).mp finite
  have keeps := (Double.eq_trunc_iff finite).mpr (number.isWhole_iff.mpr ⟨n, whole⟩)
  obtain ⟨mantissa, word, scaled, cast, exact⟩ := number.mantissa_exact
  obtain ⟨canonical, wordEq⟩ := csBigFromInt64_exact word
  have range := number.frexp_exponent_bound
  rw [whole, ← wordEq] at exact
  obtain ⟨read, ran, readCanonical, readEq⟩ :=
    applyExponent_exact canonical (by omega) (by omega) exact
  refine ⟨read, ?_, readCanonical, readEq⟩
  unfold csBigFromDouble
  simp only [notNaN, notInf, keeps, Bool.or_self, Bool.not_true, Bool.false_eq_true, if_false,
    scaled, cast, Option.bind_eq_bind, Option.bind_some, ran]

theorem csBigFromDouble_fraction {number : Double} (finite : number.finite = true)
    (fraction : ¬∃ n : Int, number.value = n) : csBigFromDouble number = some none := by
  obtain ⟨notNaN, notInf⟩ := (Double.finite_iff number).mp finite
  rw [← Double.isWhole_iff, ← Double.eq_trunc_iff finite, Bool.not_eq_true] at fraction
  unfold csBigFromDouble
  simp only [notNaN, notInf, fraction, Bool.or_self, Bool.false_eq_true, if_false, Bool.not_false,
    if_true]

/-! ### OrderSign -/

theorem OrderSign.swap {α : Type*} [LT α] {order : Int} {left right : α}
    (ranks : OrderSign order left right) : OrderSign (-order) right left := by
  constructor
  · intro less
    rw [ranks.above less]
  · intro same
    rw [ranks.same same.symm, Int.neg_zero]
  · intro less
    rw [ranks.below less, Int.neg_neg]

theorem OrderSign.orders_iff {α : Type*} [LinearOrder α] {order : Int} {left right : α}
    (ranks : OrderSign order left right) (op : CompareOp) :
    op.orders order 0 ↔ op.orders left right := by
  rcases lt_trichotomy left right with less | same | less
  · rw [ranks.below less]
    cases op with
    | less => simp [CompareOp.orders, less]
    | lessEqual => simp [CompareOp.orders, less.le]
    | greater => simp [CompareOp.orders, less.le]
    | greaterEqual => simp [CompareOp.orders, less]
  · rw [ranks.same same, same]
    cases op <;> simp [CompareOp.orders]
  · rw [ranks.above less]
    cases op with
    | less => simp [CompareOp.orders, less.le]
    | lessEqual => simp [CompareOp.orders, less]
    | greater => simp [CompareOp.orders, less]
    | greaterEqual => simp [CompareOp.orders, less.le]

theorem OrderSign.ne_two {α : Type*} [LinearOrder α] {order : Int} {left right : α}
    (ranks : OrderSign order left right) : order ≠ 2 := by
  rcases lt_trichotomy left right with less | same | less
  · rw [ranks.below less]
    decide
  · rw [ranks.same same]
    decide
  · rw [ranks.above less]
    decide

theorem NumberPlace.ofRat_lt_iff {left right : ℚ} :
    NumberPlace.ofRat left < NumberPlace.ofRat right ↔ left < right := by
  unfold NumberPlace.ofRat
  rw [WithBot.coe_lt_coe, WithTop.coe_lt_coe]

private theorem OrderSign.ofRat {order : Int} {left right : ℚ} (ranks : OrderSign order left right) :
    OrderSign order (NumberPlace.ofRat left) (NumberPlace.ofRat right) := by
  constructor
  · intro less
    exact ranks.below (NumberPlace.ofRat_lt_iff.mp less)
  · intro same
    unfold NumberPlace.ofRat at same
    exact ranks.same (WithTop.coe_inj.mp (WithBot.coe_inj.mp same))
  · intro less
    exact ranks.above (NumberPlace.ofRat_lt_iff.mp less)

theorem csBigCompare_ranks {a b : BigInt} (aCanonical : a.Canonical) (bCanonical : b.Canonical) :
    OrderSign (csBigCompare a b) (a.toInt : ℚ) b.toInt := by
  rw [csBigCompare_exact aCanonical bCanonical]
  constructor
  · intro less
    have order : a.toInt < b.toInt := by exact_mod_cast less
    exact Int.sign_eq_neg_one_of_neg (by omega)
  · intro same
    have equal : a.toInt = b.toInt := by exact_mod_cast same
    rw [equal, Int.sub_self]
    rfl
  · intro less
    have order : b.toInt < a.toInt := by exact_mod_cast less
    exact Int.sign_eq_one_of_pos (by omega)

/-! ### Comparing with a double -/

theorem csBigCompareDouble_finite {value : BigInt} (canonical : value.Canonical)
    {number : Double} (finite : number.finite = true) :
    ∃ order, csBigCompareDouble value number = some order ∧
      OrderSign order (value.toInt : ℚ) number.value := by
  obtain ⟨notNaN, notInf⟩ := (Double.finite_iff number).mp finite
  obtain ⟨floorFinite, _, floorEq⟩ := Double.floor_value finite
  obtain ⟨whole, read, wholeCanonical, wholeEq⟩ := csBigFromDouble_whole floorFinite floorEq
  have ranks := csBigCompare_ranks canonical wholeCanonical
  rw [wholeEq] at ranks
  have floorLe := Int.floor_le number.value
  have ltFloor := Int.lt_floor_add_one number.value
  refine ⟨if csBigCompare value whole = 0 ∧ (!number.eq number.floor) = true then -1
    else csBigCompare value whole, ?_, ?_⟩
  · unfold csBigCompareDouble
    simp only [notNaN, notInf, Bool.false_eq_true, if_false, read, Option.bind_eq_bind,
      Option.bind_some, Option.pure_def]
    split <;> rfl
  · rcases lt_trichotomy value.toInt ⌊number.value⌋ with less | same | less
    · have below : (value.toInt : ℚ) < (⌊number.value⌋ : Int) := by exact_mod_cast less
      rw [ranks.below below, if_neg (by simp)]
      exact ⟨fun _ => rfl, fun equal => by linarith, fun more => by linarith⟩
    · have equal : (value.toInt : ℚ) = (⌊number.value⌋ : Int) := by exact_mod_cast same
      rw [ranks.same equal]
      cases kept : number.eq number.floor with
      | true =>
          obtain ⟨n, isInt⟩ := number.isWhole_iff.mp ((Double.eq_floor_iff finite).mp kept)
          have exact : (value.toInt : ℚ) = number.value := by
            rw [equal, isInt, Int.floor_intCast]
          rw [if_neg (by decide), exact]
          exact ⟨fun less => absurd less (lt_irrefl _), fun _ => rfl,
            fun less => absurd less (lt_irrefl _)⟩
      | false =>
          have fraction : (⌊number.value⌋ : ℚ) ≠ number.value := by
            intro exact
            have isWhole := number.isWhole_iff.mpr ⟨_, exact.symm⟩
            rw [← Double.eq_floor_iff finite, kept] at isWhole
            cases isWhole
          have less : (value.toInt : ℚ) < number.value := by
            rw [equal]
            exact lt_of_le_of_ne floorLe fraction
          rw [if_pos ⟨rfl, rfl⟩]
          exact ⟨fun _ => rfl, fun same => by linarith, fun more => by linarith⟩
    · have above : ((⌊number.value⌋ : Int) : ℚ) < value.toInt := by exact_mod_cast less
      have beyond : (⌊number.value⌋ : ℚ) + 1 ≤ value.toInt := by exact_mod_cast less
      rw [ranks.above above, if_neg (by simp)]
      exact ⟨fun less => by linarith, fun same => by linarith, fun _ => rfl⟩

private theorem bot_lt_ofRat (number : ℚ) : ⊥ < NumberPlace.ofRat number :=
  WithBot.bot_lt_coe _

private theorem ofRat_lt_top (number : ℚ) : NumberPlace.ofRat number < ⊤ := by
  unfold NumberPlace.ofRat
  rw [← WithBot.coe_top, WithBot.coe_lt_coe]
  exact WithTop.coe_lt_top number

theorem Double.place_of_infinite {number : Double} (infinite : number.isInf = true) :
    number.place = some (if number.negative then ⊥ else ⊤) := by
  have notNaN : number.isNaN = false := by
    unfold Double.isInf at infinite
    rw [decide_eq_true_eq] at infinite
    unfold Double.isNaN
    rw [infinite]
    decide
  unfold Double.place
  rw [notNaN, infinite]
  rfl

theorem Double.place_of_finite {number : Double} (finite : number.finite = true) :
    number.place = some (NumberPlace.ofRat number.value) := by
  obtain ⟨notNaN, notInf⟩ := (Double.finite_iff number).mp finite
  unfold Double.place
  rw [notNaN, notInf]
  rfl

private theorem greater_zero_of_infinite {number : Double} (infinite : number.isInf = true) :
    CompareOp.greater.numbers number ⟨0⟩ = !number.negative := by
  have zero : (⟨0⟩ : Double).place = some (NumberPlace.ofRat (⟨0⟩ : Double).value) :=
    Double.place_of_finite (by decide)
  unfold CompareOp.numbers
  rw [Double.place_of_infinite infinite, zero]
  cases number.negative with
  | true => exact decide_eq_false (not_lt_bot)
  | false => exact decide_eq_true (ofRat_lt_top _)

theorem csBigCompareDouble_infinite (value : BigInt) {number : Double}
    (infinite : number.isInf = true) :
    csBigCompareDouble value number = some (if number.negative then 1 else -1) := by
  have notNaN : number.isNaN = false := by
    have place := Double.place_of_infinite infinite
    by_contra isNaN
    rw [Bool.not_eq_false] at isNaN
    rw [Double.place, if_pos isNaN] at place
    cases place
  unfold csBigCompareDouble
  rw [notNaN, infinite, greater_zero_of_infinite infinite]
  cases number.negative <;> rfl

theorem csBigCompareDouble_place {value : BigInt} (canonical : value.Canonical)
    {number : Double} {place : NumberPlace} (stands : number.place = some place) :
    ∃ order, csBigCompareDouble value number = some order ∧
      OrderSign order (NumberPlace.ofRat value.toInt) place := by
  cases infinite : number.isInf with
  | true =>
      rw [Double.place_of_infinite infinite, Option.some.injEq] at stands
      refine ⟨_, csBigCompareDouble_infinite value infinite, ?_⟩
      have below := bot_lt_ofRat value.toInt
      have above := ofRat_lt_top value.toInt
      rw [← stands]
      cases number.negative with
      | true =>
          exact ⟨fun less => absurd less (not_lt_bot), fun same => absurd same below.ne',
            fun _ => rfl⟩
      | false =>
          exact ⟨fun _ => rfl, fun same => absurd same above.ne,
            fun more => absurd more (not_top_lt)⟩
  | false =>
      have notNaN : number.isNaN = false := by
        by_contra isNaN
        rw [Bool.not_eq_false] at isNaN
        rw [Double.place, if_pos isNaN] at stands
        cases stands
      have finite := (Double.finite_iff number).mpr ⟨notNaN, infinite⟩
      obtain ⟨order, ran, ranks⟩ := csBigCompareDouble_finite canonical finite
      rw [Double.place_of_finite finite, Option.some.injEq] at stands
      refine ⟨order, ran, ?_⟩
      rw [← stands]
      exact ranks.ofRat

/-! ### Comparing values -/

/-- `IS_BIGINT(value) || IS_NUMBER(value)`. -/
def Value.Comparable (value : Value) : Prop :=
  value.asBigInt.isSome = true ∨ value.asNumber.isSome = true

theorem comparingExactly_known {bigints : BigIntCells}
    (canonical : ∀ address, (bigints address).Canonical) {a b : Value} {left right : NumberPlace}
    (aStands : a.place bigints = some left) (bStands : b.place bigints = some right)
    (mixed : (b.asBigInt.isSome || a.asBigInt.isSome) = true) :
    ∃ order, comparingExactly bigints a b = some (.known order) ∧ OrderSign order left right := by
  unfold Value.place at aStands bStands
  unfold comparingExactly
  cases aBig : a.asBigInt with
  | some leftAddress =>
      rw [aBig] at aStands
      cases bBig : b.asBigInt with
      | some rightAddress =>
          rw [bBig] at bStands
          cases aStands
          cases bStands
          exact ⟨_, rfl, (csBigCompare_ranks (canonical _) (canonical _)).ofRat⟩
      | none =>
          rw [bBig] at bStands
          cases aStands
          obtain ⟨number, bNumber, stands⟩ := Option.bind_eq_some_iff.mp bStands
          obtain ⟨order, ran, ranks⟩ :=
            csBigCompareDouble_place (canonical leftAddress) stands
          refine ⟨order, ?_, ranks⟩
          simp only [bNumber, ran, Option.bind_eq_bind, Option.bind_some, if_neg ranks.ne_two,
            Option.pure_def]
  | none =>
      rw [aBig] at aStands mixed
      obtain ⟨number, aNumber, stands⟩ := Option.bind_eq_some_iff.mp aStands
      cases bBig : b.asBigInt with
      | some rightAddress =>
          rw [bBig] at bStands
          cases bStands
          obtain ⟨order, ran, ranks⟩ :=
            csBigCompareDouble_place (canonical rightAddress) stands
          refine ⟨-order, ?_, ranks.swap⟩
          simp only [aNumber, ran, Option.bind_eq_bind, Option.bind_some, if_neg ranks.ne_two,
            Option.pure_def]
      | none =>
          rw [bBig] at mixed
          cases mixed

theorem binaryCompare_orders {bigints : BigIntCells}
    (canonical : ∀ address, (bigints address).Canonical) (op : CompareOp) {a b : Value}
    {left right : NumberPlace} (aStands : a.place bigints = some left)
    (bStands : b.place bigints = some right) :
    binaryCompare bigints op a b = some (.ok (decide (op.orders left right))) := by
  unfold binaryCompare
  cases mixed : b.asBigInt.isSome || a.asBigInt.isSome with
  | true =>
      obtain ⟨order, compared, ranks⟩ := comparingExactly_known canonical aStands bStands mixed
      simp only [if_true, compared, Option.bind_eq_bind, Option.bind_some, Option.pure_def,
        ranks.orders_iff op]
  | false =>
      rw [Bool.or_eq_false_iff, Option.isSome_eq_false_iff, Option.isNone_iff_eq_none,
        Option.isSome_eq_false_iff, Option.isNone_iff_eq_none] at mixed
      unfold Value.place at aStands bStands
      rw [mixed.2] at aStands
      rw [mixed.1] at bStands
      obtain ⟨x, aNumber, xStands⟩ := Option.bind_eq_some_iff.mp aStands
      obtain ⟨y, bNumber, yStands⟩ := Option.bind_eq_some_iff.mp bStands
      simp only [Bool.false_eq_true, if_false, aNumber, bNumber, CompareOp.numbers, xStands,
        yStands]

theorem Double.place_eq_none_iff (number : Double) :
    number.place = none ↔ number.isNaN = true := by
  unfold Double.place
  cases number.isNaN <;> cases number.isInf <;> simp

theorem csBigCompareDouble_nan (value : BigInt) {number : Double}
    (nan : number.isNaN = true) : csBigCompareDouble value number = some 2 := by
  unfold csBigCompareDouble
  rw [if_pos nan]

private theorem nan_of_placeless {bigints : BigIntCells} {value : Value}
    (comparable : value.Comparable) (placeless : value.place bigints = none) :
    value.asBigInt = none ∧
      ∃ number, value.asNumber = some number ∧ number.isNaN = true := by
  unfold Value.place at placeless
  unfold Value.Comparable at comparable
  cases big : value.asBigInt with
  | some address =>
      rw [big] at placeless
      cases placeless
  | none =>
      rw [big] at placeless comparable
      obtain ⟨number, isNumber⟩ := Option.isSome_iff_exists.mp
        (comparable.resolve_left Bool.false_ne_true)
      simp only [isNumber, Option.bind_some] at placeless
      exact ⟨rfl, number, isNumber, number.place_eq_none_iff.mp placeless⟩

theorem binaryCompare_unordered {bigints : BigIntCells} (op : CompareOp) {a b : Value}
    (aComparable : a.Comparable) (bComparable : b.Comparable)
    (unordered : a.place bigints = none ∨ b.place bigints = none) :
    binaryCompare bigints op a b = some (.ok false) := by
  have neither : ∀ left right : Double, left.isNaN = true ∨ right.isNaN = true →
      op.numbers left right = false := by
    intro left right nan
    rw [← left.place_eq_none_iff, ← right.place_eq_none_iff] at nan
    unfold CompareOp.numbers
    rcases nan with nan | nan
    · rw [nan]
    · rw [nan]
      cases left.place <;> rfl
  unfold binaryCompare comparingExactly
  rcases unordered with placeless | placeless
  · obtain ⟨aBig, x, aNumber, nan⟩ := nan_of_placeless aComparable placeless
    cases bBig : b.asBigInt with
    | some address =>
        simp [aBig, aNumber, csBigCompareDouble_nan (bigints address) nan]
    | none =>
        obtain ⟨y, bNumber⟩ := Option.isSome_iff_exists.mp
          (bComparable.resolve_left (by rw [bBig]; exact Bool.false_ne_true))
        simp [aBig, aNumber, bNumber, neither x y (Or.inl nan)]
  · obtain ⟨bBig, y, bNumber, nan⟩ := nan_of_placeless bComparable placeless
    cases aBig : a.asBigInt with
    | some address =>
        simp [bBig, bNumber, csBigCompareDouble_nan (bigints address) nan]
    | none =>
        obtain ⟨x, aNumber⟩ := Option.isSome_iff_exists.mp
          (aComparable.resolve_left (by rw [aBig]; exact Bool.false_ne_true))
        simp [bBig, aNumber, bNumber, neither x y (Or.inr nan)]

/-- Every canonical BigInt and every double: reading is exact and succeeds for
the whole numbers alone, comparing is the sign of the exact difference, and with
the infinities at its ends one order answers every comparison of values. -/
theorem bigint_number_order {bigints : BigIntCells}
    (canonical : ∀ address, (bigints address).Canonical) :
    (∀ number : Double, number.finite = true →
      ∃ read, csBigFromDouble number = some read ∧
        (read.isSome = true ↔ ∃ n : Int, number.value = n) ∧
        ∀ value, read = some value → value.Canonical ∧ (value.toInt : ℚ) = number.value) ∧
    (∀ value : BigInt, value.Canonical → ∀ number : Double,
      (number.finite = true → ∃ order, csBigCompareDouble value number = some order ∧
        OrderSign order (value.toInt : ℚ) number.value) ∧
      (number.isInf = true →
        csBigCompareDouble value number = some (if number.negative then 1 else -1)) ∧
      (csBigCompareDouble value number = some 2 ↔ number.isNaN = true)) ∧
    (∀ (op : CompareOp) (a b : Value) (left right : NumberPlace), a.place bigints = some left →
      b.place bigints = some right →
      binaryCompare bigints op a b = some (.ok (decide (op.orders left right)))) ∧
    ∀ (op : CompareOp) (a b : Value), a.Comparable → b.Comparable →
      a.place bigints = none ∨ b.place bigints = none →
      binaryCompare bigints op a b = some (.ok false) := by
  refine ⟨?_, ?_, ?_, ?_⟩
  · intro number finite
    by_cases whole : ∃ n : Int, number.value = n
    · obtain ⟨n, exact⟩ := whole
      obtain ⟨read, ran, readCanonical, readEq⟩ := csBigFromDouble_whole finite exact
      refine ⟨some read, ran, ⟨fun _ => ⟨n, exact⟩, fun _ => rfl⟩, ?_⟩
      rintro value ⟨⟩
      exact ⟨readCanonical, by rw [readEq, exact]⟩
    · refine ⟨none, csBigFromDouble_fraction finite whole, ⟨?_, fun some_ => absurd some_ whole⟩,
        ?_⟩
      · intro isSome
        cases isSome
      · intro value impossible
        cases impossible
  · intro value valueCanonical number
    refine ⟨csBigCompareDouble_finite valueCanonical, csBigCompareDouble_infinite value, ?_,
      csBigCompareDouble_nan value⟩
    intro answered
    by_contra notNaN
    obtain ⟨place, stands⟩ := Option.ne_none_iff_exists'.mp
      (mt number.place_eq_none_iff.mp notNaN)
    obtain ⟨order, ran, ranks⟩ := csBigCompareDouble_place valueCanonical stands
    rw [ran, Option.some.injEq] at answered
    exact ranks.ne_two answered
  · intro op a b left right aStands bStands
    exact binaryCompare_orders canonical op aStands bStands
  · intro op a b aComparable bComparable unordered
    exact binaryCompare_unordered op aComparable bComparable unordered

/-- 2^53 + 1 is above the double 2^53, which it would be rounded to. -/
theorem bigint_number_order_above :
    (9007199254740992 : ℚ) < 9007199254740993 ∧
      csBigCompareDouble { limbs := [1, 2097152], negative := false } ⟨0x4340000000000000⟩ =
        some 1 := by
  have canonical : ({ limbs := [1, 2097152], negative := false } : BigInt).Canonical := by decide
  obtain ⟨order, compared, ranks⟩ := ((bigint_number_order (fun _ : Nat => canonical)).2.1 _
    canonical ⟨0x4340000000000000⟩).1 (by decide)
  have bigEq : ({ limbs := [1, 2097152], negative := false } : BigInt).toInt =
      9007199254740993 := by decide
  have numberEq : (⟨0x4340000000000000⟩ : Double).value = 9007199254740992 := by
    have sign : (⟨0x4340000000000000⟩ : Double).negative = false := by decide
    have size : (⟨0x4340000000000000⟩ : Double).significand = 2 ^ 52 := by decide
    have power : (⟨0x4340000000000000⟩ : Double).exponent = 1 := by decide
    rw [Double.value, sign, size, power]
    norm_num [Double.signed]
  rw [bigEq, numberEq] at ranks
  have less : (9007199254740992 : ℚ) < 9007199254740993 := by norm_num
  refine ⟨less, ?_⟩
  rw [compared, ranks.above (by exact_mod_cast less)]

end CScript
