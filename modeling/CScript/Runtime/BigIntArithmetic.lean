/-
BigInt arithmetic is exact, canonical and free of overflow.

Each loop is given the equation its partial result satisfies: what is written so
far, together with the carry or borrow, accounts for the limbs already read.
-/

import CScript.Runtime.BigInt
import Mathlib.Data.Nat.Bitwise
import Mathlib.Tactic.Linarith
import Mathlib.Tactic.Ring

namespace CScript

/-! ### The number a list of limbs stands for -/

def magnitude (limbs : List UInt32) : Nat :=
  Nat.ofDigits (2 ^ 32) (limbs.map UInt32.toNat)

def BigInt.toInt (value : BigInt) : Int :=
  if value.negative then -(magnitude value.limbs : Int) else magnitude value.limbs

structure BigInt.Canonical (value : BigInt) : Prop where
  trimmed : value.limbs.getLast? ≠ some 0
  unsignedZero : value.limbs = [] → value.negative = false

instance (value : BigInt) : Decidable value.Canonical :=
  decidable_of_iff
    (value.limbs.getLast? ≠ some 0 ∧ (value.limbs = [] → value.negative = false))
    ⟨fun both => ⟨both.1, both.2⟩, fun canonical => ⟨canonical.1, canonical.2⟩⟩

@[simp] theorem magnitude_nil : magnitude [] = 0 := rfl

theorem magnitude_cons (limb : UInt32) (rest : List UInt32) :
    magnitude (limb :: rest) = limb.toNat + 2 ^ 32 * magnitude rest := by
  unfold magnitude
  rw [List.map_cons, Nat.ofDigits_cons]

theorem magnitude_append (low high : List UInt32) :
    magnitude (low ++ high) = magnitude low + (2 ^ 32) ^ low.length * magnitude high := by
  unfold magnitude
  rw [List.map_append, Nat.ofDigits_append, List.length_map]

theorem magnitude_singleton (limb : UInt32) : magnitude [limb] = limb.toNat := by
  rw [magnitude_cons, magnitude_nil, Nat.mul_zero, Nat.add_zero]

theorem magnitude_lt (limbs : List UInt32) : magnitude limbs < (2 ^ 32) ^ limbs.length := by
  induction limbs with
  | nil => decide
  | cons limb rest ih =>
      have bound := limb.toNat_lt
      calc magnitude (limb :: rest) = limb.toNat + 2 ^ 32 * magnitude rest := magnitude_cons _ _
        _ < 2 ^ 32 * (magnitude rest + 1) := by omega
        _ ≤ 2 ^ 32 * (2 ^ 32) ^ rest.length := Nat.mul_le_mul_left _ ih
        _ = (2 ^ 32) ^ (rest.length + 1) := (Nat.pow_succ').symm

theorem magnitude_zeros (count : Nat) : magnitude (List.replicate count 0) = 0 := by
  induction count with
  | zero => rfl
  | succ count ih => rw [List.replicate_succ, magnitude_cons, ih]; rfl

theorem magnitude_drop (limbs : List UInt32) (i : Nat) :
    magnitude (limbs.drop i) =
      (limbs.getD i 0).toNat + 2 ^ 32 * magnitude (limbs.drop (i + 1)) := by
  by_cases bound : i < limbs.length
  · rw [List.drop_eq_getElem_cons bound, magnitude_cons, List.getD_eq_getElem _ _ bound]
  · rw [List.drop_of_length_le (by omega), List.drop_of_length_le (by omega),
      List.getD_eq_default _ _ (by omega)]
    rfl

theorem magnitude_take_succ {limbs : List UInt32} {i : Nat} (bound : i < limbs.length) :
    magnitude (limbs.take (i + 1)) =
      magnitude (limbs.take i) + (2 ^ 32) ^ i * (limbs.getD i 0).toNat := by
  rw [List.take_succ_eq_append_getElem bound, magnitude_append, magnitude_singleton,
    List.length_take, Nat.min_eq_left (Nat.le_of_lt bound), List.getD_eq_getElem _ _ bound]

theorem magnitude_set {limbs : List UInt32} {i : Nat} {held : UInt32}
    (here : limbs[i]? = some held) (limb : UInt32) :
    magnitude (limbs.set i limb) + (2 ^ 32) ^ i * held.toNat =
      magnitude limbs + (2 ^ 32) ^ i * limb.toNat := by
  induction limbs generalizing i with
  | nil => cases here
  | cons first rest ih =>
      cases i with
      | zero =>
          cases here
          simp only [List.set_cons_zero, magnitude_cons, Nat.pow_zero, Nat.one_mul]
          omega
      | succ i =>
          have later := ih here
          simp only [List.set_cons_succ, magnitude_cons, Nat.pow_succ]
          calc first.toNat + 2 ^ 32 * magnitude (rest.set i limb) +
                (2 ^ 32) ^ i * 2 ^ 32 * held.toNat
              = first.toNat + 2 ^ 32 * (magnitude (rest.set i limb) +
                  (2 ^ 32) ^ i * held.toNat) := by ring
            _ = first.toNat + 2 ^ 32 * (magnitude rest + (2 ^ 32) ^ i * limb.toNat) := by
                rw [later]
            _ = first.toNat + 2 ^ 32 * magnitude rest +
                  (2 ^ 32) ^ i * 2 ^ 32 * limb.toNat := by ring

/-! ### Machine words -/

@[simp] theorem lowLimb_toNat (value : UInt64) :
    (lowLimb value).toNat = value.toNat % 2 ^ 32 := by
  unfold lowLimb
  rw [UInt64.toNat_toUInt32, UInt64.toNat_and]
  have mask : (0xffffffff : UInt64).toNat = 2 ^ 32 - 1 := rfl
  rw [mask, Nat.and_two_pow_sub_one_eq_mod, Nat.mod_mod]

theorem highLimb_toNat (value : UInt64) : (value >>> 32).toNat = value.toNat / 2 ^ 32 := by
  rw [UInt64.toNat_shiftRight]
  have amount : (32 : UInt64).toNat % 64 = 32 := rfl
  rw [amount, Nat.shiftRight_eq_div_pow]

theorem plus64_exact (x y : UInt64) (fits : x.toNat + y.toNat < 2 ^ 64) :
    ∃ sum, plus64 x y = some sum ∧ sum.toNat = x.toNat + y.toNat := by
  refine ⟨x + y, if_pos fits, ?_⟩
  rw [UInt64.toNat_add, Nat.mod_eq_of_lt fits]

theorem times64_exact (x y : UInt64) (fits : x.toNat * y.toNat < 2 ^ 64) :
    ∃ product, times64 x y = some product ∧ product.toNat = x.toNat * y.toNat := by
  refine ⟨x * y, if_pos fits, ?_⟩
  rw [UInt64.toNat_mul, Nat.mod_eq_of_lt fits]

theorem plus32_exact (x y : UInt32) (fits : x.toNat + y.toNat < 2 ^ 32) :
    ∃ sum, plus32 x y = some sum ∧ sum.toNat = x.toNat + y.toNat := by
  refine ⟨x + y, if_pos fits, ?_⟩
  rw [UInt32.toNat_add, Nat.mod_eq_of_lt fits]

/-! ### Trimming -/

private theorem take_count (value : BigInt) : value.limbs.take value.count = value.limbs :=
  List.take_length

private theorem trimCount_spec (limbs : List UInt32) :
    ∀ count, count ≤ limbs.length →
      trimCount limbs count ≤ count ∧
        magnitude (limbs.take (trimCount limbs count)) = magnitude (limbs.take count) ∧
        (limbs.take (trimCount limbs count)).getLast? ≠ some 0
  | 0, _ => ⟨Nat.le_refl 0, rfl, by simp [trimCount]⟩
  | count + 1, bound => by
      unfold trimCount
      have inside : count < limbs.length := bound
      by_cases zero : limbs[count]? = some 0
      · obtain ⟨smaller, same, last⟩ := trimCount_spec limbs count (Nat.le_of_lt inside)
        rw [if_pos zero]
        refine ⟨Nat.le_succ_of_le smaller, ?_, last⟩
        have digit : limbs.getD count 0 = 0 := by
          rw [List.getD_eq_getElem?_getD, zero, Option.getD_some]
        rw [same, magnitude_take_succ inside, digit]
        rfl
      · rw [if_neg zero]
        refine ⟨Nat.le_refl _, rfl, ?_⟩
        rw [List.take_succ_eq_append_getElem inside, List.getLast?_concat]
        rw [List.getElem?_eq_getElem inside] at zero
        exact zero

theorem magnitude_trim (value : BigInt) : magnitude (trim value).limbs = magnitude value.limbs := by
  obtain ⟨_, same, _⟩ := trimCount_spec value.limbs value.count (Nat.le_refl _)
  unfold trim
  simp only [same, take_count]

theorem trim_canonical (value : BigInt) : (trim value).Canonical := by
  obtain ⟨smaller, _, last⟩ := trimCount_spec value.limbs value.count (Nat.le_refl _)
  refine ⟨last, ?_⟩
  intro empty
  have none : trimCount value.limbs value.count = 0 := by
    have length := congrArg List.length empty
    simp only [trim, List.length_take, List.length_nil] at length
    have within : value.count = value.limbs.length := rfl
    omega
  simp only [trim, none, if_true]

theorem toInt_trim (value : BigInt) : (trim value).toInt = value.toInt := by
  unfold BigInt.toInt
  rw [magnitude_trim]
  by_cases none : trimCount value.limbs value.count = 0
  · have zero : magnitude value.limbs = 0 := by
      rw [← magnitude_trim]
      simp only [trim, none, List.take_zero, magnitude_nil]
    simp [zero]
  · simp only [trim, if_neg none]

theorem reserve_zero_canonical : (reserve 0).Canonical := by decide

theorem reserve_zero_toInt : (reserve 0).toInt = 0 := rfl

/-! ### What canonical buys -/

theorem BigInt.Canonical.magnitude_ge {value : BigInt} (canonical : value.Canonical)
    (nonempty : value.limbs ≠ []) :
    (2 ^ 32) ^ (value.count - 1) ≤ magnitude value.limbs := by
  have last := canonical.trimmed
  rw [List.getLast?_eq_some_getLast nonempty] at last
  have positive : 0 < (value.limbs.getLast nonempty).toNat := by
    apply Nat.pos_of_ne_zero
    intro zero
    exact last (congrArg some (UInt32.toNat_inj.mp zero))
  have split := magnitude_append value.limbs.dropLast [value.limbs.getLast nonempty]
  rw [List.dropLast_concat_getLast, magnitude_singleton, List.length_dropLast] at split
  rw [split]
  exact Nat.le_add_left_of_le (Nat.le_mul_of_pos_right _ positive)

theorem BigInt.Canonical.magnitude_pos {value : BigInt} (canonical : value.Canonical)
    (nonempty : value.limbs ≠ []) : 0 < magnitude value.limbs :=
  Nat.lt_of_lt_of_le (Nat.pow_pos (by decide)) (canonical.magnitude_ge nonempty)

theorem BigInt.Canonical.isZero_iff {value : BigInt} (canonical : value.Canonical) :
    csBigIsZero value = true ↔ magnitude value.limbs = 0 := by
  unfold csBigIsZero BigInt.count
  rw [beq_iff_eq, List.length_eq_zero_iff]
  constructor
  · intro empty
    rw [empty, magnitude_nil]
  · intro zero
    by_contra nonempty
    exact absurd zero (Nat.ne_of_gt (canonical.magnitude_pos nonempty))

/-! ### Comparing -/

private theorem compareLimbs_spec (a b : List UInt32) :
    ∀ count, count ≤ a.length → count ≤ b.length →
      (compareLimbs a b count = 0 ∧ a.take count = b.take count) ∨
      (compareLimbs a b count = -1 ∧ magnitude (a.take count) < magnitude (b.take count)) ∨
      (compareLimbs a b count = 1 ∧ magnitude (b.take count) < magnitude (a.take count))
  | 0, _, _ => Or.inl ⟨rfl, rfl⟩
  | i + 1, aBound, bBound => by
      have aDigit := magnitude_take_succ aBound
      have bDigit := magnitude_take_succ bBound
      have aLow := magnitude_lt (a.take i)
      have bLow := magnitude_lt (b.take i)
      rw [List.length_take, Nat.min_eq_left (Nat.le_of_lt aBound)] at aLow
      rw [List.length_take, Nat.min_eq_left (Nat.le_of_lt bBound)] at bLow
      unfold compareLimbs
      by_cases same : a.getD i 0 = b.getD i 0
      · rw [if_neg (not_not.mpr same), aDigit, bDigit, same]
        rcases compareLimbs_spec a b i (Nat.le_of_lt aBound) (Nat.le_of_lt bBound) with
          ⟨answer, equal⟩ | ⟨answer, less⟩ | ⟨answer, less⟩
        · left
          refine ⟨answer, ?_⟩
          rw [List.getD_eq_getElem _ _ aBound, List.getD_eq_getElem _ _ bBound] at same
          rw [List.take_succ_eq_append_getElem aBound, List.take_succ_eq_append_getElem bBound,
            equal, same]
        · exact Or.inr (Or.inl ⟨answer, Nat.add_lt_add_right less _⟩)
        · exact Or.inr (Or.inr ⟨answer, Nat.add_lt_add_right less _⟩)
      · rw [if_pos same, aDigit, bDigit]
        by_cases less : a.getD i 0 < b.getD i 0
        · rw [if_pos less]
          have digits : (a.getD i 0).toNat + 1 ≤ (b.getD i 0).toNat := UInt32.lt_iff_toNat_lt.mp less
          have scaled := Nat.mul_le_mul_left ((2 ^ 32) ^ i) digits
          rw [Nat.mul_add, Nat.mul_one] at scaled
          exact Or.inr (Or.inl ⟨rfl, by omega⟩)
        · rw [if_neg less]
          have digits : (b.getD i 0).toNat + 1 ≤ (a.getD i 0).toNat := by
            have differ : (a.getD i 0).toNat ≠ (b.getD i 0).toNat :=
              fun equal => same (UInt32.toNat_inj.mp equal)
            have order := mt UInt32.lt_iff_toNat_lt.mpr less
            omega
          have scaled := Nat.mul_le_mul_left ((2 ^ 32) ^ i) digits
          rw [Nat.mul_add, Nat.mul_one] at scaled
          exact Or.inr (Or.inr ⟨rfl, by omega⟩)

theorem magnitude_lt_of_count {a b : BigInt} (canonical : b.Canonical)
    (shorter : a.count < b.count) : magnitude a.limbs < magnitude b.limbs := by
  have nonempty : b.limbs ≠ [] := by
    intro empty
    simp [BigInt.count, empty] at shorter
  calc magnitude a.limbs < (2 ^ 32) ^ a.count := magnitude_lt a.limbs
    _ ≤ (2 ^ 32) ^ (b.count - 1) := Nat.pow_le_pow_right (by decide) (by omega)
    _ ≤ magnitude b.limbs := canonical.magnitude_ge nonempty

theorem compareMagnitude_spec {a b : BigInt} (aCanonical : a.Canonical)
    (bCanonical : b.Canonical) :
    (compareMagnitude a b = 0 ∧ magnitude a.limbs = magnitude b.limbs) ∨
      (compareMagnitude a b = -1 ∧ magnitude a.limbs < magnitude b.limbs) ∨
      (compareMagnitude a b = 1 ∧ magnitude b.limbs < magnitude a.limbs) := by
  unfold compareMagnitude
  by_cases counts : a.count = b.count
  · rw [if_neg (not_not.mpr counts)]
    have spec := compareLimbs_spec a.limbs b.limbs a.count (Nat.le_refl _)
      (Nat.le_of_eq counts)
    rw [take_count, counts, take_count, ← counts] at spec
    rcases spec with ⟨answer, equal⟩ | ⟨answer, less⟩ | ⟨answer, less⟩
    · exact Or.inl ⟨answer, congrArg magnitude equal⟩
    · exact Or.inr (Or.inl ⟨answer, less⟩)
    · exact Or.inr (Or.inr ⟨answer, less⟩)
  · rw [if_pos counts]
    by_cases shorter : a.count < b.count
    · rw [if_pos shorter]
      exact Or.inr (Or.inl ⟨rfl, magnitude_lt_of_count bCanonical shorter⟩)
    · rw [if_neg shorter]
      exact Or.inr (Or.inr ⟨rfl, magnitude_lt_of_count aCanonical (by omega)⟩)

private theorem compareMagnitude_eq_zero_iff {a b : BigInt} :
    compareMagnitude a b = 0 ↔ a.limbs = b.limbs := by
  unfold compareMagnitude
  by_cases counts : a.count = b.count
  · rw [if_neg (not_not.mpr counts)]
    have spec := compareLimbs_spec a.limbs b.limbs a.count (Nat.le_refl _)
      (Nat.le_of_eq counts)
    rw [take_count, counts, take_count, ← counts] at spec
    rcases spec with ⟨answer, equal⟩ | ⟨answer, less⟩ | ⟨answer, less⟩
    · exact ⟨fun _ => equal, fun _ => answer⟩
    · rw [answer]
      simp only [Int.reduceNeg, reduceCtorEq, false_iff]
      intro equal
      exact absurd (congrArg magnitude equal) (Nat.ne_of_lt less)
    · rw [answer]
      simp only [one_ne_zero, false_iff]
      intro equal
      exact absurd (congrArg magnitude equal) (Nat.ne_of_gt less)
  · rw [if_pos counts]
    constructor
    · intro zero
      split at zero <;> cases zero
    · intro equal
      exact absurd (congrArg List.length equal) counts

theorem csBigCompare_eq_zero_iff {a b : BigInt} : csBigCompare a b = 0 ↔ a = b := by
  unfold csBigCompare
  by_cases signs : a.negative = b.negative
  · rw [if_neg (not_not.mpr signs)]
    have order : (if a.negative then -compareMagnitude a b else compareMagnitude a b) = 0 ↔
        compareMagnitude a b = 0 := by
      split
      · exact Int.neg_eq_zero
      · exact Iff.rfl
    rw [order, compareMagnitude_eq_zero_iff]
    constructor
    · intro limbs
      cases a
      cases b
      simp only at limbs signs
      rw [limbs, signs]
    · intro equal
      rw [equal]
  · rw [if_pos signs]
    constructor
    · intro zero
      split at zero <;> cases zero
    · intro equal
      exact absurd (congrArg BigInt.negative equal) signs

theorem csBigCompare_exact {a b : BigInt} (aCanonical : a.Canonical)
    (bCanonical : b.Canonical) : csBigCompare a b = (a.toInt - b.toInt).sign := by
  have spec := compareMagnitude_spec aCanonical bCanonical
  have negativePositive : ∀ value : BigInt, value.Canonical → value.negative = true →
      0 < magnitude value.limbs := by
    intro value canonical negative
    apply canonical.magnitude_pos
    intro empty
    rw [canonical.unsignedZero empty] at negative
    cases negative
  unfold csBigCompare BigInt.toInt
  cases aSign : a.negative <;> cases bSign : b.negative
  · simp only [ne_eq, not_true_eq_false, if_false, Bool.false_eq_true]
    rcases spec with ⟨answer, order⟩ | ⟨answer, order⟩ | ⟨answer, order⟩ <;> rw [answer]
    · rw [order, Int.sub_self]; rfl
    · exact (Int.sign_eq_neg_one_of_neg (by omega)).symm
    · exact (Int.sign_eq_one_of_pos (by omega)).symm
  · have positive := negativePositive b bCanonical bSign
    simp only [ne_eq, Bool.false_eq_true, not_false_eq_true, if_true, if_false]
    exact (Int.sign_eq_one_of_pos (by omega)).symm
  · have positive := negativePositive a aCanonical aSign
    simp only [ne_eq, Bool.true_eq_false, not_false_eq_true, if_true, if_false,
      Bool.false_eq_true]
    exact (Int.sign_eq_neg_one_of_neg (by omega)).symm
  · simp only [ne_eq, not_true_eq_false, if_false, if_true]
    rcases spec with ⟨answer, order⟩ | ⟨answer, order⟩ | ⟨answer, order⟩ <;> rw [answer]
    · rw [order, Int.sub_self]; rfl
    · exact (Int.sign_eq_one_of_pos (by omega)).symm
    · exact (Int.sign_eq_neg_one_of_neg (by omega)).symm

/-! ### Adding magnitudes -/

private theorem addLimb_spec (limbs : List UInt32) (i : Nat) (word : UInt64)
    (fits : word.toNat + (limbs.getD i 0).toNat < 2 ^ 64) :
    ∃ sum, addLimb limbs i word = some sum ∧
      sum.toNat = word.toNat + (limbs.getD i 0).toNat := by
  rw [List.getD_eq_getElem?_getD] at fits ⊢
  unfold addLimb
  cases here : limbs[i]? with
  | none => exact ⟨word, rfl, rfl⟩
  | some limb =>
      rw [here, Option.getD_some] at fits
      obtain ⟨sum, ran, sumEq⟩ := plus64_exact word limb.toUInt64
        (by rw [UInt32.toNat_toUInt64]; exact fits)
      exact ⟨sum, ran, by rw [sumEq, UInt32.toNat_toUInt64, Option.getD_some]⟩

private theorem addLimbs_spec (a b : List UInt32) :
    ∀ (steps i : Nat) (carry : UInt64), carry.toNat ≤ 1 →
      a.length ≤ i + steps → b.length ≤ i + steps →
      ∃ limbs last, addLimbs a b steps i carry = some (limbs, last) ∧
        limbs.length = steps ∧ last.toNat ≤ 1 ∧
        magnitude limbs + (2 ^ 32) ^ steps * last.toNat =
          magnitude (a.drop i) + magnitude (b.drop i) + carry.toNat
  | 0, i, carry, small, aRead, bRead => by
      refine ⟨[], carry, rfl, rfl, small, ?_⟩
      rw [List.drop_of_length_le (by omega), List.drop_of_length_le (by omega)]
      simp
  | steps + 1, i, carry, small, aRead, bRead => by
      have aBound := (a.getD i 0).toNat_lt
      have bBound := (b.getD i 0).toNat_lt
      obtain ⟨partialSum, ranFirst, firstEq⟩ := addLimb_spec a i carry (by omega)
      obtain ⟨sum, ranSecond, sumEq⟩ := addLimb_spec b i partialSum (by omega)
      have carryEq := highLimb_toNat sum
      obtain ⟨limbs, last, ran, length, lastSmall, total⟩ :=
        addLimbs_spec a b steps (i + 1) (sum >>> 32) (by omega) (by omega) (by omega)
      refine ⟨lowLimb sum :: limbs, last, ?_, by rw [List.length_cons, length], lastSmall, ?_⟩
      · unfold addLimbs
        simp only [ranFirst, ranSecond, ran, Option.bind_eq_bind, Option.bind_some,
          Option.pure_def]
      · have split := Nat.mod_add_div sum.toNat (2 ^ 32)
        rw [magnitude_drop a i, magnitude_drop b i, magnitude_cons, lowLimb_toNat]
        calc sum.toNat % 2 ^ 32 + 2 ^ 32 * magnitude limbs + (2 ^ 32) ^ (steps + 1) * last.toNat
            = sum.toNat % 2 ^ 32 +
                2 ^ 32 * (magnitude limbs + (2 ^ 32) ^ steps * last.toNat) := by ring
          _ = sum.toNat % 2 ^ 32 + 2 ^ 32 * (magnitude (a.drop (i + 1)) +
                magnitude (b.drop (i + 1)) + sum.toNat / 2 ^ 32) := by rw [total, carryEq]
          _ = (a.getD i 0).toNat + 2 ^ 32 * magnitude (a.drop (i + 1)) +
                ((b.getD i 0).toNat + 2 ^ 32 * magnitude (b.drop (i + 1))) + carry.toNat := by
              omega

theorem addMagnitude_spec (a b : BigInt) :
    ∃ sum, addMagnitude a b = some sum ∧
      magnitude sum.limbs = magnitude a.limbs + magnitude b.limbs := by
  generalize longestEq : (if a.count > b.count then a.count else b.count) = longest
  have aRead : a.limbs.length ≤ 0 + longest := by
    unfold BigInt.count at longestEq
    split at longestEq <;> omega
  have bRead : b.limbs.length ≤ 0 + longest := by
    unfold BigInt.count at longestEq
    split at longestEq <;> omega
  obtain ⟨limbs, last, ran, length, small, total⟩ :=
    addLimbs_spec a.limbs b.limbs longest 0 0 (by decide) aRead bRead
  refine ⟨trim { limbs := limbs ++ [last.toUInt32], negative := false }, ?_, ?_⟩
  · unfold addMagnitude
    simp only [longestEq, ran, Option.bind_eq_bind, Option.bind_some, Option.pure_def]
  · rw [magnitude_trim, magnitude_append, magnitude_singleton, length, UInt64.toNat_toUInt32,
      Nat.mod_eq_of_lt (by omega), total]
    rfl

/-! ### Subtracting magnitudes -/

private theorem signed64_exact {value : Int} (low : -2 ^ 63 ≤ value) (high : value < 2 ^ 63) :
    signed64 value = some value :=
  if_pos ⟨low, high⟩

/-- The limbs written make up the difference; the borrow is never left over
when what remains of `a` is at least what remains of `b`. -/
private theorem subtractLimbs_spec (a b : List UInt32) :
    ∀ (steps i : Nat) (borrow : Int), (borrow = 0 ∨ borrow = 1) →
      i + steps = a.length →
      (magnitude (b.drop i) : Int) + borrow ≤ magnitude (a.drop i) →
      ∃ limbs, subtractLimbs a b steps i borrow = some limbs ∧
        (magnitude limbs : Int) =
          magnitude (a.drop i) - magnitude (b.drop i) - borrow
  | 0, i, borrow, bit, aRead, enough => by
      have consumed : a.drop i = [] := List.drop_of_length_le (by omega)
      refine ⟨[], rfl, ?_⟩
      rw [consumed, magnitude_nil] at enough ⊢
      omega
  | steps + 1, i, borrow, bit, aRead, enough => by
      have aBound : i < a.length := by omega
      have here : a[i]? = some (a.getD i 0) := by
        rw [List.getElem?_eq_getElem aBound, List.getD_eq_getElem _ _ aBound]
      have aLimb := (a.getD i 0).toNat_lt
      have bLimb := (b.getD i 0).toNat_lt
      rw [magnitude_drop a i, magnitude_drop b i] at enough ⊢
      unfold subtractLimbs
      simp only [here, Option.bind_eq_bind, Option.bind_some]
      rw [signed64_exact (by omega) (by omega), Option.bind_some]
      by_cases below : ((a.getD i 0).toNat : Int) - borrow - (b.getD i 0).toNat < 0
      · obtain ⟨limbs, ran, total⟩ := subtractLimbs_spec a b steps (i + 1) 1 (Or.inr rfl)
          (by omega) (by push_cast at enough ⊢; omega)
        rw [if_pos below, signed64_exact (by omega) (by omega), Option.bind_some, ran]
        refine ⟨_, rfl, ?_⟩
        rw [magnitude_cons, UInt32.toNat_ofNat', Nat.mod_eq_of_lt (by omega)]
        push_cast
        rw [total, Int.toNat_of_nonneg (by omega)]
        ring
      · obtain ⟨limbs, ran, total⟩ := subtractLimbs_spec a b steps (i + 1) 0 (Or.inl rfl)
          (by omega) (by push_cast at enough ⊢; omega)
        rw [if_neg below, ran]
        refine ⟨_, rfl, ?_⟩
        rw [magnitude_cons, UInt32.toNat_ofNat', Nat.mod_eq_of_lt (by omega)]
        push_cast
        rw [total, Int.toNat_of_nonneg (by omega)]
        ring

theorem subtractMagnitude_spec {a b : BigInt} (enough : magnitude b.limbs ≤ magnitude a.limbs) :
    ∃ difference, subtractMagnitude a b = some difference ∧
      magnitude difference.limbs = magnitude a.limbs - magnitude b.limbs := by
  obtain ⟨limbs, ran, total⟩ := subtractLimbs_spec a.limbs b.limbs a.count 0 0 (Or.inl rfl)
    (Nat.zero_add _) (by simpa using enough)
  refine ⟨trim { limbs := limbs, negative := false }, ?_, ?_⟩
  · unfold subtractMagnitude
    simp only [ran, Option.bind_eq_bind, Option.bind_some, Option.pure_def]
  · simp only [List.drop_zero] at total
    rw [magnitude_trim]
    show magnitude limbs = magnitude a.limbs - magnitude b.limbs
    omega

/-! ### The ring operations -/

private theorem toInt_signed (value : BigInt) (negative : Bool) :
    (BigInt.toInt { value with negative := negative }) =
      if negative then -(magnitude value.limbs : Int) else magnitude value.limbs := rfl

theorem csBigAdd_exact {a b : BigInt} (aCanonical : a.Canonical) (bCanonical : b.Canonical) :
    ∃ sum, csBigAdd a b = some sum ∧ sum.Canonical ∧ sum.toInt = a.toInt + b.toInt := by
  unfold csBigAdd
  by_cases signs : a.negative = b.negative
  · obtain ⟨sum, ran, total⟩ := addMagnitude_spec a b
    rw [if_pos signs, ran]
    refine ⟨_, rfl, trim_canonical _, ?_⟩
    rw [toInt_trim, toInt_signed, total]
    unfold BigInt.toInt
    rw [← signs]
    cases a.negative
    · simp
    · simp only [if_true]
      push_cast
      ring
  · rw [if_neg signs]
    have opposite : b.negative = !a.negative := by
      cases here : a.negative <;> cases there : b.negative <;> simp_all
    rcases compareMagnitude_spec aCanonical bCanonical with
      ⟨answer, equal⟩ | ⟨answer, less⟩ | ⟨answer, less⟩
    · rw [answer]
      refine ⟨_, rfl, reserve_zero_canonical, ?_⟩
      rw [reserve_zero_toInt]
      unfold BigInt.toInt
      rw [opposite, equal]
      cases a.negative <;> simp
    · obtain ⟨difference, ran, total⟩ := subtractMagnitude_spec (Nat.le_of_lt less)
      rw [answer]
      simp only [Int.reduceNeg, reduceCtorEq, if_false, gt_iff_lt, Int.reduceLT, ran,
        Option.bind_eq_bind, Option.bind_some, Option.pure_def]
      refine ⟨_, rfl, trim_canonical _, ?_⟩
      rw [toInt_trim, toInt_signed, total, opposite]
      unfold BigInt.toInt
      rw [opposite]
      cases a.negative <;> simp <;> omega
    · obtain ⟨difference, ran, total⟩ := subtractMagnitude_spec (Nat.le_of_lt less)
      rw [answer]
      simp only [one_ne_zero, if_false, gt_iff_lt, Int.zero_lt_one, if_true, ran,
        Option.bind_eq_bind, Option.bind_some, Option.pure_def]
      refine ⟨_, rfl, trim_canonical _, ?_⟩
      rw [toInt_trim, toInt_signed, total]
      unfold BigInt.toInt
      rw [opposite]
      cases a.negative <;> simp <;> omega

theorem csBigNegate_exact {value : BigInt} (canonical : value.Canonical) :
    (csBigNegate value).Canonical ∧ (csBigNegate value).toInt = -value.toInt := by
  unfold csBigNegate
  by_cases zero : csBigIsZero value = true
  · rw [if_pos zero]
    refine ⟨canonical, ?_⟩
    unfold BigInt.toInt
    rw [canonical.isZero_iff.mp zero]
    simp
  · rw [if_neg zero]
    refine ⟨⟨canonical.trimmed, ?_⟩, ?_⟩
    · intro empty
      exact absurd (canonical.isZero_iff.mpr (by rw [empty, magnitude_nil])) zero
    · unfold BigInt.toInt
      cases value.negative <;> simp

theorem csBigSubtract_exact {a b : BigInt} (aCanonical : a.Canonical)
    (bCanonical : b.Canonical) :
    ∃ difference, csBigSubtract a b = some difference ∧ difference.Canonical ∧
      difference.toInt = a.toInt - b.toInt := by
  obtain ⟨flippedCanonical, flipped⟩ := csBigNegate_exact bCanonical
  obtain ⟨difference, ran, canonical, total⟩ := csBigAdd_exact aCanonical flippedCanonical
  exact ⟨difference, ran, canonical, by rw [total, flipped, Int.sub_eq_add_neg]⟩

/-! ### Multiplying -/

private theorem multiplyRow_spec (limb : UInt32) (b : List UInt32) (i : Nat) :
    ∀ (steps j : Nat) (carry : UInt64) (product : List UInt32),
      j + steps = b.length → carry.toNat < 2 ^ 32 → i + b.length < product.length →
      ∃ after last, multiplyRow limb b i steps j carry product = some (after, last) ∧
        after.length = product.length ∧ last.toNat < 2 ^ 32 ∧
        (∀ k, i + b.length ≤ k → after[k]? = product[k]?) ∧
        magnitude after + (2 ^ 32) ^ (i + b.length) * last.toNat =
          magnitude product + (2 ^ 32) ^ (i + j) *
            (carry.toNat + limb.toNat * magnitude (b.drop j))
  | 0, j, carry, product, read, small, room => by
      refine ⟨product, carry, rfl, rfl, small, fun _ _ => rfl, ?_⟩
      have atEnd : j = b.length := by omega
      rw [List.drop_of_length_le (by omega), magnitude_nil, Nat.mul_zero, Nat.add_zero, atEnd]
  | steps + 1, j, carry, product, read, small, room => by
      have jBound : j < b.length := by omega
      have factorHere : b[j]? = some (b.getD j 0) := by
        rw [List.getElem?_eq_getElem jBound, List.getD_eq_getElem _ _ jBound]
      obtain ⟨held, heldHere⟩ : ∃ held, product[i + j]? = some held :=
        ⟨product[i + j], List.getElem?_eq_getElem (by omega)⟩
      have heldBound := held.toNat_lt
      have limbBound := limb.toNat_lt
      have factorBound := (b.getD j 0).toNat_lt
      have scaledBound : limb.toNat * (b.getD j 0).toNat ≤ (2 ^ 32 - 1) * (2 ^ 32 - 1) :=
        Nat.mul_le_mul (by omega) (by omega)
      obtain ⟨scaled, ranScaled, scaledEq⟩ :=
        times64_exact limb.toUInt64 (b.getD j 0).toUInt64
          (by rw [UInt32.toNat_toUInt64, UInt32.toNat_toUInt64]; omega)
      rw [UInt32.toNat_toUInt64, UInt32.toNat_toUInt64] at scaledEq
      obtain ⟨sum, ranSum, sumEq⟩ := plus64_exact held.toUInt64 scaled
        (by rw [UInt32.toNat_toUInt64]; omega)
      rw [UInt32.toNat_toUInt64] at sumEq
      obtain ⟨total, ranTotal, totalEq⟩ := plus64_exact sum carry (by omega)
      have carryEq := highLimb_toNat total
      have totalBound := total.toNat_lt
      obtain ⟨after, last, ran, length, lastSmall, beyond, value⟩ :=
        multiplyRow_spec limb b i steps (j + 1) (total >>> 32)
          (product.set (i + j) (lowLimb total)) (by omega) (by omega)
          (by rw [List.length_set]; exact room)
      refine ⟨after, last, ?_, by rw [length, List.length_set], lastSmall, ?_, ?_⟩
      · unfold multiplyRow
        simp only [heldHere, factorHere, ranScaled, ranSum, ranTotal, Option.bind_eq_bind,
          Option.bind_some]
        exact ran
      · intro k reached
        rw [beyond k reached, List.getElem?_set_ne (by omega)]
      · have written := magnitude_set heldHere (lowLimb total)
        rw [lowLimb_toNat] at written
        have split := Nat.mod_add_div total.toNat (2 ^ 32)
        rw [value, carryEq, magnitude_drop b j]
        have weight : (2 ^ 32) ^ (i + (j + 1)) = (2 ^ 32) ^ (i + j) * 2 ^ 32 := pow_succ _ _
        rw [weight]
        generalize (2 ^ 32) ^ (i + j) = w at written ⊢
        apply Nat.add_right_cancel (m := w * held.toNat)
        calc magnitude (product.set (i + j) (lowLimb total)) + w * 2 ^ 32 *
                (total.toNat / 2 ^ 32 + limb.toNat * magnitude (b.drop (j + 1))) +
                w * held.toNat
            = magnitude (product.set (i + j) (lowLimb total)) + w * held.toNat +
                w * 2 ^ 32 * (total.toNat / 2 ^ 32 +
                  limb.toNat * magnitude (b.drop (j + 1))) := by ring
          _ = magnitude product + w * (total.toNat % 2 ^ 32 + 2 ^ 32 * (total.toNat / 2 ^ 32)) +
                w * 2 ^ 32 * (limb.toNat * magnitude (b.drop (j + 1))) := by
                rw [written]; ring
          _ = magnitude product + w * (held.toNat + limb.toNat * (b.getD j 0).toNat +
                carry.toNat) + w * 2 ^ 32 * (limb.toNat * magnitude (b.drop (j + 1))) := by
                rw [split, totalEq, sumEq, scaledEq]
          _ = magnitude product + w * (carry.toNat + limb.toNat *
                ((b.getD j 0).toNat + 2 ^ 32 * magnitude (b.drop (j + 1)))) +
                w * held.toNat := by ring

/-- The rows from limb `i` of `a` on.  No row has reached a limb past its own
top yet, so the carry lands on a zero limb. -/
private theorem multiplyRows_spec (a b : List UInt32) :
    ∀ (steps i : Nat) (product : List UInt32),
      i + steps = a.length → product.length = a.length + b.length →
      (∀ k, i + b.length ≤ k → k < product.length → product[k]? = some 0) →
      ∃ after, multiplyRows a b steps i product = some after ∧
        magnitude after =
          magnitude product + (2 ^ 32) ^ i * (magnitude (a.drop i) * magnitude b)
  | 0, i, product, read, length, untouched => by
      refine ⟨product, rfl, ?_⟩
      rw [List.drop_of_length_le (by omega), magnitude_nil, Nat.zero_mul, Nat.mul_zero,
        Nat.add_zero]
  | steps + 1, i, product, read, length, untouched => by
      have iBound : i < a.length := by omega
      have limbHere : a[i]? = some (a.getD i 0) := by
        rw [List.getElem?_eq_getElem iBound, List.getD_eq_getElem _ _ iBound]
      obtain ⟨row, carry, ranRow, rowLength, carrySmall, beyond, rowValue⟩ :=
        multiplyRow_spec (a.getD i 0) b i b.length 0 0 product (Nat.zero_add _) (by decide)
          (by omega)
      have topHere : row[i + b.length]? = some 0 := by
        rw [beyond _ (Nat.le_refl _)]
        exact untouched _ (Nat.le_refl _) (by omega)
      have carryLimb : carry.toUInt32.toNat = carry.toNat := by
        rw [UInt64.toNat_toUInt32, Nat.mod_eq_of_lt carrySmall]
      obtain ⟨top, ranTop, topEq⟩ := plus32_exact 0 carry.toUInt32
        (by rw [carryLimb]; simpa using carrySmall)
      obtain ⟨after, ran, value⟩ := multiplyRows_spec a b steps (i + 1)
        (row.set (i + b.length) top) (by omega) (by rw [List.length_set]; omega)
        (by
          intro k reached bound
          rw [List.length_set] at bound
          rw [List.getElem?_set_ne (by omega), beyond k (by omega)]
          exact untouched k (by omega) (by omega))
      refine ⟨after, ?_, ?_⟩
      · unfold multiplyRows
        simp only [limbHere, ranRow, topHere, ranTop, Option.bind_eq_bind, Option.bind_some]
        exact ran
      · have written := magnitude_set topHere top
        have zero : (0 : UInt32).toNat = 0 := rfl
        rw [zero, Nat.mul_zero, Nat.add_zero] at written
        rw [zero, Nat.zero_add, carryLimb] at topEq
        rw [topEq] at written
        have noCarry : (0 : UInt64).toNat = 0 := rfl
        rw [Nat.add_zero, List.drop_zero, noCarry, Nat.zero_add] at rowValue
        rw [value, written, rowValue, magnitude_drop a i, Nat.pow_succ]
        ring

theorem csBigMultiply_exact {a b : BigInt} (aCanonical : a.Canonical)
    (bCanonical : b.Canonical) :
    ∃ product, csBigMultiply a b = some product ∧ product.Canonical ∧
      product.toInt = a.toInt * b.toInt := by
  unfold csBigMultiply
  by_cases zero : (csBigIsZero a || csBigIsZero b) = true
  · rw [if_pos zero]
    refine ⟨_, rfl, reserve_zero_canonical, ?_⟩
    rw [reserve_zero_toInt]
    unfold BigInt.toInt
    rw [Bool.or_eq_true, aCanonical.isZero_iff, bCanonical.isZero_iff] at zero
    rcases zero with zero | zero <;> simp [zero]
  · have room : (reserve (a.count + b.count)).limbs.length =
        a.limbs.length + b.limbs.length := List.length_replicate
    obtain ⟨product, ran, value⟩ := multiplyRows_spec a.limbs b.limbs a.count 0
      (reserve (a.count + b.count)).limbs (Nat.zero_add _) room
      (by
        intro k _ bound
        rw [room] at bound
        exact List.getElem?_replicate_of_lt bound)
    rw [if_neg zero, ran]
    refine ⟨_, rfl, trim_canonical _, ?_⟩
    have empty : magnitude (reserve (a.count + b.count)).limbs = 0 := magnitude_zeros _
    rw [toInt_trim]
    unfold BigInt.toInt
    rw [empty, Nat.zero_add, Nat.pow_zero, Nat.one_mul, List.drop_zero] at value
    simp only [value]
    cases a.negative <;> cases b.negative <;> simp

/-! ### Powers -/

theorem limb_bit (limb : UInt32) {bit : Nat} (small : bit < 32) :
    ((limb >>> UInt32.ofNat bit) &&& 1 ≠ 0) ↔ limb.toNat.testBit bit = true := by
  have amount : (UInt32.ofNat bit).toNat % 32 = bit := by
    rw [UInt32.toNat_ofNat']
    omega
  rw [Nat.testBit, bne_iff_ne, ne_eq, ne_eq, not_iff_not, ← UInt32.toNat_inj, UInt32.toNat_and,
    UInt32.toNat_shiftRight, amount, Nat.and_comm]
  exact Iff.rfl

theorem magnitude_testBit (limbs : List UInt32) (i : Nat) :
    (magnitude limbs).testBit i = (limbs.getD (i / 32) 0).toNat.testBit (i % 32) := by
  induction limbs generalizing i with
  | nil => simp
  | cons limb rest ih =>
      rw [magnitude_cons, Nat.add_comm, Nat.testBit_two_pow_mul_add _ limb.toNat_lt]
      by_cases low : i < 32
      · rw [if_pos low, Nat.div_eq_of_lt low, Nat.mod_eq_of_lt low, List.getD_cons_zero]
      · have quotient : i / 32 = (i - 32) / 32 + 1 := by omega
        have remainder : i % 32 = (i - 32) % 32 := by omega
        rw [if_neg low, ih, quotient, remainder, List.getD_cons_succ]

private theorem powerBits_spec {base exponent : BigInt} (canonical : base.Canonical) :
    ∀ (i : Nat) (result : BigInt), i ≤ exponent.count * 32 → result.Canonical →
      result.toInt = base.toInt ^ (magnitude exponent.limbs / 2 ^ i) →
      ∃ power, powerBits base exponent i result = some power ∧ power.Canonical ∧
        power.toInt = base.toInt ^ magnitude exponent.limbs
  | 0, result, _, resultCanonical, sofar =>
      ⟨result, rfl, resultCanonical, by rw [sofar, Nat.pow_zero, Nat.div_one]⟩
  | i + 1, result, bound, resultCanonical, sofar => by
      obtain ⟨squared, ranSquare, squareCanonical, squareEq⟩ :=
        csBigMultiply_exact resultCanonical resultCanonical
      have inside : i / 32 < exponent.limbs.length := by
        have within : exponent.count = exponent.limbs.length := rfl
        omega
      have limbHere : exponent.limbs[i / 32]? = some (exponent.limbs.getD (i / 32) 0) := by
        rw [List.getElem?_eq_getElem inside, List.getD_eq_getElem _ _ inside]
      have bit := limb_bit (exponent.limbs.getD (i / 32) 0) (Nat.mod_lt i (by decide : 0 < 32))
      rw [← magnitude_testBit, Nat.testBit_eq_decide_div_mod_eq, decide_eq_true_eq] at bit
      have halves : magnitude exponent.limbs / 2 ^ i =
          2 * (magnitude exponent.limbs / 2 ^ (i + 1)) +
            magnitude exponent.limbs / 2 ^ i % 2 := by
        rw [Nat.pow_succ, ← Nat.div_div_eq_div_mul, Nat.div_add_mod]
      have doubled : squared.toInt =
          base.toInt ^ (2 * (magnitude exponent.limbs / 2 ^ (i + 1))) := by
        rw [squareEq, sofar, ← pow_add, Nat.two_mul]
      unfold powerBits
      simp only [ranSquare, limbHere, Option.bind_eq_bind, Option.bind_some]
      by_cases set : (exponent.limbs.getD (i / 32) 0 >>> UInt32.ofNat (i % 32)) &&& 1 ≠ 0
      · obtain ⟨scaled, ranScale, scaleCanonical, scaleEq⟩ :=
          csBigMultiply_exact squareCanonical canonical
        rw [if_pos set, ranScale, Option.bind_some]
        apply powerBits_spec canonical i scaled (by omega) scaleCanonical
        rw [halves, bit.mp set, pow_succ, scaleEq, doubled]
      · have clear : magnitude exponent.limbs / 2 ^ i % 2 = 0 := by
          have notOne := mt bit.mpr set
          omega
        rw [if_neg set]
        apply powerBits_spec canonical i squared (by omega) squareCanonical
        rw [halves, clear, Nat.add_zero, doubled]

theorem csBigPower_exact {base exponent : BigInt} (canonical : base.Canonical)
    (whole : exponent.negative = false) :
    ∃ power, csBigPower base exponent = some (some power) ∧ power.Canonical ∧
      power.toInt = base.toInt ^ magnitude exponent.limbs := by
  have top : magnitude exponent.limbs / 2 ^ (exponent.count * 32) = 0 := by
    apply Nat.div_eq_of_lt
    rw [Nat.mul_comm, Nat.pow_mul]
    exact magnitude_lt exponent.limbs
  obtain ⟨power, ran, powerCanonical, powerEq⟩ :=
    powerBits_spec canonical (exponent.count * 32) (csBigFromInt64 1) (Nat.le_refl _)
      (by decide) (by rw [top, pow_zero]; decide)
  refine ⟨power, ?_, powerCanonical, powerEq⟩
  unfold csBigPower
  rw [whole, ran]
  rfl

/-! ### The representation is unique -/

theorem BigInt.Canonical.eq_of_toInt {a b : BigInt} (aCanonical : a.Canonical)
    (bCanonical : b.Canonical) (same : a.toInt = b.toInt) : a = b := by
  apply csBigCompare_eq_zero_iff.mp
  rw [csBigCompare_exact aCanonical bCanonical, same, Int.sub_self]
  rfl

/-- On canonical operands of any size the ring operations never overflow and
answer the canonical form of the exact result, and the comparison answers the
sign of the exact difference. -/
theorem bigArithmetic_exact {a b : BigInt} (aCanonical : a.Canonical)
    (bCanonical : b.Canonical) :
    (∃ sum, csBigAdd a b = some sum ∧ sum.Canonical ∧ sum.toInt = a.toInt + b.toInt) ∧
      (∃ difference, csBigSubtract a b = some difference ∧ difference.Canonical ∧
        difference.toInt = a.toInt - b.toInt) ∧
      (∃ product, csBigMultiply a b = some product ∧ product.Canonical ∧
        product.toInt = a.toInt * b.toInt) ∧
      ((csBigNegate a).Canonical ∧ (csBigNegate a).toInt = -a.toInt) ∧
      (0 ≤ b.toInt → ∃ power, csBigPower a b = some (some power) ∧ power.Canonical ∧
        power.toInt = a.toInt ^ b.toInt.toNat) ∧
      csBigCompare a b = (a.toInt - b.toInt).sign := by
  refine ⟨csBigAdd_exact aCanonical bCanonical, csBigSubtract_exact aCanonical bCanonical,
    csBigMultiply_exact aCanonical bCanonical, csBigNegate_exact aCanonical, ?_,
    csBigCompare_exact aCanonical bCanonical⟩
  intro whole
  have positive : b.negative = false := by
    by_contra negative
    rw [Bool.not_eq_false] at negative
    have nonempty : b.limbs ≠ [] := by
      intro empty
      rw [bCanonical.unsignedZero empty] at negative
      cases negative
    have large := bCanonical.magnitude_pos nonempty
    unfold BigInt.toInt at whole
    rw [negative, if_pos rfl] at whole
    omega
  have exponentEq : b.toInt.toNat = magnitude b.limbs := by
    unfold BigInt.toInt
    rw [positive]
    rfl
  rw [exponentEq]
  exact csBigPower_exact aCanonical positive

theorem bigArithmetic_exact_at_carry :
    let a : BigInt := { limbs := [0xffffffff, 0xffffffff], negative := false }
    let b : BigInt := { limbs := [3], negative := false }
    a.Canonical ∧ b.Canonical ∧
      ∃ power, csBigPower a b = some (some power) ∧ power.toInt = a.toInt ^ 3 := by
  intro a b
  have aCanonical : a.Canonical := by decide
  have bCanonical : b.Canonical := by decide
  obtain ⟨_, _, _, _, power, _⟩ := bigArithmetic_exact aCanonical bCanonical
  obtain ⟨cube, ran, _, value⟩ := power (by decide)
  exact ⟨aCanonical, bCanonical, cube, ran, value⟩

end CScript
