/-
BigInts as text.

The encoder divides its working copy in place and writes the buffer from the
end; a write below the first byte is `none`.  The decoder multiplies and adds.
Numerals are compared with the digits of the magnitude.
-/

import CScript.Runtime.BigIntDivision
import Mathlib.Data.Nat.Digits.Lemmas

namespace CScript

/-! ### The source -/

/-- The loop of `divideBySmall`, which starts from the top limb. -/
def divideLimbs (divisor : UInt32) : List UInt32 → List UInt32 × UInt64
  | [] => ([], 0)
  | limb :: above =>
      let (quotient, remainder) := divideLimbs divisor above
      let current := (remainder <<< 32) ||| limb.toUInt64
      ((current / divisor.toUInt64).toUInt32 :: quotient, current % divisor.toUInt64)

def divideBySmall (value : BigInt) (divisor : UInt32) : BigInt × UInt32 :=
  let (quotient, remainder) := divideLimbs divisor value.limbs
  (trim { value with limbs := quotient }, remainder.toUInt32)

def digitByte (remainder : UInt32) : UInt8 :=
  (if remainder < 10 then 48 + remainder else 97 + remainder - 10).toUInt8

/-- The loop of `csBigToText`: what is written so far begins at the index. -/
def writeDigits (radix : UInt32) : Nat → BigInt → List UInt8 → Option (Nat × List UInt8)
  | 0, working, written => if csBigIsZero working then some (0, written) else none
  | index + 1, working, written =>
      if csBigIsZero working then some (index + 1, written)
      else
        let (working, remainder) := divideBySmall working radix
        writeDigits radix index working (digitByte remainder :: written)

/-- The bytes answered, with the NUL that ends them. -/
def csBigToText (value : BigInt) (radix : UInt32) : Option (List UInt8) :=
  if csBigIsZero value then some [48, 0]
  else do
    let capacity := value.count * 34 + 2
    let (index, digits) ←
      writeDigits radix (capacity - 1) { value with negative := false } [0]
    if value.negative then
      if index = 0 then none else return 45 :: digits
    else return digits

def digitValue (c : UInt8) : Int :=
  if 48 ≤ c ∧ c ≤ 57 then c.toNat - 48
  else if 97 ≤ c ∧ c ≤ 122 then c.toNat - 97 + 10
  else if 65 ≤ c ∧ c ≤ 90 then c.toNat - 65 + 10
  else -1

def readSign : List UInt8 → Bool × List UInt8
  | [] => (false, [])
  | c :: rest => if c = 43 ∨ c = 45 then (decide (c = 45), rest) else (false, c :: rest)

def readRadix : List UInt8 → Int × List UInt8
  | zero :: marker :: rest =>
      if zero = 48 then
        if marker = 120 ∨ marker = 88 then (16, rest)
        else if marker = 111 ∨ marker = 79 then (8, rest)
        else if marker = 98 ∨ marker = 66 then (2, rest)
        else (10, zero :: marker :: rest)
      else (10, zero :: marker :: rest)
  | text => (10, text)

/-- The loop of `csBigFromText`.  The inner option is the number read, or the
refusal of a character. -/
def readDigits (radix : Int) (scale : BigInt) : List UInt8 → BigInt → Option (Option BigInt)
  | [], out => some (some out)
  | c :: rest, out =>
      if c = 95 then readDigits radix scale rest out
      else if digitValue c < 0 ∨ digitValue c ≥ radix then some none
      else do
        let shifted ← csBigMultiply out scale
        let summed ← csBigAdd shifted (csBigFromInt64 (Int64.ofInt (digitValue c)))
        readDigits radix scale rest summed

def csBigFromText (text : List UInt8) : Option (Option BigInt) :=
  let (negative, text) := readSign text
  let (radix, text) := readRadix text
  if text = [] then some none
  else do
    let read ← readDigits radix (csBigFromInt64 (Int64.ofInt radix)) text (reserve 0)
    return read.map fun out => trim { out with negative := negative }

/-! ### Numerals -/

def digitBytes (radix : UInt32) (size : Nat) : List UInt8 :=
  (Nat.digits radix.toNat size).reverse.map fun digit => digitByte (UInt32.ofNat digit)

def numeral (radix : UInt32) (size : Nat) : List UInt8 :=
  if size = 0 then [48] else digitBytes radix size

def signOf (value : BigInt) : List UInt8 :=
  if value.negative then [45] else []

def Signs (value : BigInt) (sign : List UInt8) : Prop :=
  if value.negative then sign = [45] else sign = [] ∨ sign = [43]

def DigitOf (radix : Nat) (c : UInt8) : Prop :=
  ∃ digit < radix, c.toNat = 48 + digit ∧ digit < 10 ∨
    (c.toNat = 87 + digit ∨ c.toNat = 55 + digit) ∧ 10 ≤ digit ∧ digit < 36

/-! ### Small numbers -/

theorem csBigFromInt64_exact (value : Int64) :
    (csBigFromInt64 value).Canonical ∧ (csBigFromInt64 value).toInt = value.toInt := by
  unfold csBigFromInt64
  refine ⟨trim_canonical _, ?_⟩
  rw [toInt_trim]
  have cond := BitVec.toInt_eq_toNat_cond value.toBitVec
  rw [Int64.toInt_toBitVec] at cond
  have bound := value.toUInt64.toNat_lt
  have same : value.toBitVec.toNat = value.toUInt64.toNat := rfl
  rw [same] at cond
  have halves (word : UInt64) :
      magnitude [lowLimb word, (word >>> 32).toUInt32] = word.toNat := by
    rw [magnitude_cons, magnitude_singleton, lowLimb_toNat, UInt64.toNat_toUInt32, highLimb_toNat]
    have small := word.toNat_lt
    omega
  unfold BigInt.toInt
  by_cases below : value < 0
  · have negative : value.toInt < 0 := Int64.lt_iff_toInt_lt.mp below
    have word : (~~~value.toUInt64 + 1).toNat = 2 ^ 64 - value.toUInt64.toNat := by
      have one : (1 : UInt64).toNat = 1 := rfl
      have size : UInt64.size = 2 ^ 64 := rfl
      rw [UInt64.toNat_add, UInt64.toNat_not, one, size]
      split at cond <;> omega
    simp only [below, decide_true, if_true, halves, word]
    split at cond <;> omega
  · have positive : 0 ≤ value.toInt := by
      have order := mt Int64.lt_iff_toInt_lt.mpr below
      rw [Int64.toInt_zero] at order
      omega
    simp only [below, decide_false, Bool.false_eq_true, if_false, halves]
    split at cond <;> omega

/-! ### Dividing in place -/

private theorem current_toNat (remainder : UInt64) (limb : UInt32)
    (small : remainder.toNat < 2 ^ 32) :
    ((remainder <<< 32) ||| limb.toUInt64).toNat = 2 ^ 32 * remainder.toNat + limb.toNat := by
  have amount : (32 : UInt64).toNat % 64 = 32 := rfl
  rw [UInt64.toNat_or, UInt64.toNat_shiftLeft, amount, UInt32.toNat_toUInt64, Nat.shiftLeft_eq,
    Nat.mod_eq_of_lt (by omega), Nat.mul_comm, Nat.two_pow_add_eq_or_of_lt limb.toNat_lt]

theorem divideLimbs_exact {divisor : UInt32} (positive : 0 < divisor.toNat) :
    ∀ limbs, magnitude (divideLimbs divisor limbs).1 = magnitude limbs / divisor.toNat ∧
      (divideLimbs divisor limbs).2.toNat = magnitude limbs % divisor.toNat
  | [] => by simp [divideLimbs]
  | limb :: above => by
      obtain ⟨quotientEq, remainderEq⟩ := divideLimbs_exact positive above
      have below : (divideLimbs divisor above).2.toNat < divisor.toNat := by
        rw [remainderEq]
        exact Nat.mod_lt _ positive
      have limbBound := limb.toNat_lt
      have divisorBound := divisor.toNat_lt
      have current := current_toNat (divideLimbs divisor above).2 limb (by omega)
      have split : magnitude (limb :: above) =
          divisor.toNat * (2 ^ 32 * magnitude (divideLimbs divisor above).1) +
            (2 ^ 32 * (divideLimbs divisor above).2.toNat + limb.toNat) := by
        have whole := Nat.div_add_mod (magnitude above) divisor.toNat
        rw [← quotientEq, ← remainderEq] at whole
        rw [magnitude_cons, ← whole]
        ring
      unfold divideLimbs
      simp only
      rw [magnitude_cons, UInt64.toNat_toUInt32, UInt64.toNat_div, UInt64.toNat_mod,
        UInt32.toNat_toUInt64, current, split, Nat.mul_add_div positive, Nat.mul_add_mod]
      have fits : (2 ^ 32 * (divideLimbs divisor above).2.toNat + limb.toNat) / divisor.toNat <
          2 ^ 32 := by
        rw [Nat.div_lt_iff_lt_mul positive]
        have scaled := Nat.mul_le_mul_left (2 ^ 32) below
        omega
      exact ⟨by rw [Nat.mod_eq_of_lt fits, Nat.add_comm], rfl⟩

theorem divideBySmall_exact (value : BigInt) {divisor : UInt32} (positive : 0 < divisor.toNat) :
    (divideBySmall value divisor).1.Canonical ∧
      magnitude (divideBySmall value divisor).1.limbs = magnitude value.limbs / divisor.toNat ∧
      (divideBySmall value divisor).2.toNat = magnitude value.limbs % divisor.toNat := by
  obtain ⟨quotientEq, remainderEq⟩ := divideLimbs_exact positive value.limbs
  have below := Nat.mod_lt (magnitude value.limbs) positive
  have divisorBound := divisor.toNat_lt
  refine ⟨trim_canonical _, ?_, ?_⟩
  · unfold divideBySmall
    simp only [magnitude_trim]
    exact quotientEq
  · unfold divideBySmall
    simp only
    rw [UInt64.toNat_toUInt32, remainderEq, Nat.mod_eq_of_lt (by omega)]

/-! ### Writing -/

theorem writeDigits_exact {radix : UInt32} (low : 2 ≤ radix.toNat) :
    ∀ (index : Nat) (working : BigInt) (written : List UInt8), working.Canonical →
      (Nat.digits radix.toNat (magnitude working.limbs)).length ≤ index →
      writeDigits radix index working written =
        some (index - (Nat.digits radix.toNat (magnitude working.limbs)).length,
          digitBytes radix (magnitude working.limbs) ++ written)
  | 0, working, written, canonical, room => by
      have none_ : magnitude working.limbs = 0 := by
        rw [← Nat.digits_eq_nil_iff_eq_zero (b := radix.toNat)]
        exact List.length_eq_zero_iff.mp (Nat.le_zero.mp room)
      unfold writeDigits digitBytes
      rw [if_pos (canonical.isZero_iff.mpr none_), none_]
      simp
  | index + 1, working, written, canonical, room => by
      unfold writeDigits
      by_cases zero : csBigIsZero working = true
      · rw [if_pos zero, canonical.isZero_iff.mp zero]
        simp [digitBytes]
      · have positive := Nat.pos_of_ne_zero (mt canonical.isZero_iff.mpr zero)
        obtain ⟨nextCanonical, quotientEq, remainderEq⟩ :=
          divideBySmall_exact working (show 0 < radix.toNat by omega)
        have digits := Nat.digits_def' (show 1 < radix.toNat from low) positive
        rw [digits, List.length_cons] at room
        have rest := writeDigits_exact low index (divideBySmall working radix).1
          (digitByte (divideBySmall working radix).2 :: written) nextCanonical
          (by rw [quotientEq]; omega)
        rw [if_neg zero]
        simp only [rest, quotientEq]
        unfold digitBytes
        rw [digits, ← remainderEq]
        simp only [List.length_cons, List.reverse_cons, List.map_append, List.map_cons,
          List.map_nil, List.append_assoc, List.singleton_append, UInt32.ofNat_toNat,
          Nat.add_sub_add_right]

private theorem digits_fit (value : BigInt) {radix : UInt32} (low : 2 ≤ radix.toNat) :
    (Nat.digits radix.toNat (magnitude value.limbs)).length ≤ value.count * 32 := by
  rw [Nat.digits_length_le_iff (show 1 < radix.toNat from low)]
  calc magnitude value.limbs < (2 ^ 32) ^ value.count := magnitude_lt value.limbs
    _ = 2 ^ (value.count * 32) := by rw [← Nat.pow_mul, Nat.mul_comm]
    _ ≤ radix.toNat ^ (value.count * 32) := Nat.pow_le_pow_left low _

theorem csBigToText_writes {value : BigInt} (canonical : value.Canonical) {radix : UInt32}
    (low : 2 ≤ radix.toNat) :
    csBigToText value radix =
      some (signOf value ++ numeral radix (magnitude value.limbs) ++ [0]) := by
  unfold csBigToText
  by_cases zero : csBigIsZero value = true
  · have empty : value.limbs = [] := by
      rw [csBigIsZero, beq_iff_eq] at zero
      exact List.length_eq_zero_iff.mp zero
    rw [if_pos zero, signOf, canonical.unsignedZero empty, empty]
    rfl
  · have nonzero := mt canonical.isZero_iff.mpr zero
    have room := digits_fit value low
    have wrote := writeDigits_exact low (value.count * 34 + 1)
      { value with negative := false } [0] ⟨canonical.trimmed, fun _ => rfl⟩
      (Nat.le_trans room (by omega))
    simp only at wrote
    rw [if_neg zero]
    simp only [Nat.reduceSubDiff, Option.bind_eq_bind, wrote, Option.bind_some, numeral,
      if_neg nonzero, signOf]
    cases value.negative with
    | false => rfl
    | true =>
        have above : value.count * 34 + 1 -
            (Nat.digits radix.toNat (magnitude value.limbs)).length ≠ 0 := by omega
        simp only [if_true, if_neg above]
        rfl

/-! ### Digits -/

private theorem digitValue_ranges (c : UInt8) :
    digitValue c =
      if 48 ≤ c.toNat ∧ c.toNat ≤ 57 then (c.toNat : Int) - 48
      else if 97 ≤ c.toNat ∧ c.toNat ≤ 122 then (c.toNat : Int) - 97 + 10
      else if 65 ≤ c.toNat ∧ c.toNat ≤ 90 then (c.toNat : Int) - 65 + 10
      else -1 := by
  unfold digitValue
  simp only [UInt8.le_iff_toNat_le, UInt8.reduceToNat]

private theorem digitValue_of_digit {radix : Nat} (high : radix ≤ 36) (c : UInt8) :
    DigitOf radix c ↔ 0 ≤ digitValue c ∧ digitValue c < radix := by
  rw [digitValue_ranges]
  unfold DigitOf
  constructor
  · rintro ⟨digit, small, holds⟩
    split
    · omega
    · split
      · omega
      · split <;> omega
  · intro range
    split at range
    · exact ⟨c.toNat - 48, by omega, by omega⟩
    · split at range
      · exact ⟨c.toNat - 87, by omega, by omega⟩
      · split at range
        · exact ⟨c.toNat - 55, by omega, by omega⟩
        · omega

private theorem digitByte_toNat {digit : Nat} (small : digit < 36) :
    (digitByte (UInt32.ofNat digit)).toNat = if digit < 10 then 48 + digit else 87 + digit := by
  have held : (UInt32.ofNat digit).toNat = digit := by
    rw [UInt32.toNat_ofNat', Nat.mod_eq_of_lt (by omega)]
  have order : UInt32.ofNat digit < 10 ↔ digit < 10 := by
    rw [UInt32.lt_iff_toNat_lt, held]
    rfl
  unfold digitByte
  rw [UInt32.toNat_toUInt8]
  by_cases decimal : digit < 10
  · have sum : (48 + UInt32.ofNat digit).toNat = 48 + digit := by
      rw [UInt32.toNat_add, held]
      exact Nat.mod_eq_of_lt (show 48 + digit < 2 ^ 32 by omega)
    rw [if_pos (order.mpr decimal), if_pos decimal, sum]
    omega
  · have sum : (97 + UInt32.ofNat digit).toNat = 97 + digit := by
      rw [UInt32.toNat_add, held]
      exact Nat.mod_eq_of_lt (show 97 + digit < 2 ^ 32 by omega)
    have ten : (10 : UInt32) ≤ 97 + UInt32.ofNat digit := by
      rw [UInt32.le_iff_toNat_le, sum]
      show 10 ≤ 97 + digit
      omega
    rw [if_neg (mt order.mp decimal), if_neg decimal, UInt32.toNat_sub_of_le _ _ ten, sum]
    show (97 + digit - 10) % 2 ^ 8 = 87 + digit
    omega

private theorem digitByte_value {digit : Nat} (small : digit < 36) :
    digitValue (digitByte (UInt32.ofNat digit)) = digit := by
  have size := digitByte_toNat small
  generalize digitByte (UInt32.ofNat digit) = c at size
  rw [digitValue_ranges]
  split at size
  · rw [if_pos (by omega)]
    omega
  · rw [if_neg (by omega), if_pos (by omega)]
    omega

/-! ### Reading -/

def Readable (radix : Int) (c : UInt8) : Prop :=
  c = 95 ∨ 0 ≤ digitValue c ∧ digitValue c < radix

private theorem accumulate {out scale : BigInt} (outCanonical : out.Canonical)
    (scaleCanonical : scale.Canonical) (c : UInt8) :
    ∃ shifted summed, csBigMultiply out scale = some shifted ∧
      csBigAdd shifted (csBigFromInt64 (Int64.ofInt (digitValue c))) = some summed ∧
      summed.Canonical ∧ summed.toInt = out.toInt * scale.toInt + digitValue c := by
  obtain ⟨shifted, multiplied, shiftedCanonical, shiftedEq⟩ :=
    csBigMultiply_exact outCanonical scaleCanonical
  obtain ⟨digitCanonical, digitEq⟩ := csBigFromInt64_exact (Int64.ofInt (digitValue c))
  obtain ⟨summed, added, summedCanonical, summedEq⟩ :=
    csBigAdd_exact shiftedCanonical digitCanonical
  refine ⟨shifted, summed, multiplied, added, summedCanonical, ?_⟩
  have bounds : -1 ≤ digitValue c ∧ digitValue c < 256 := by
    have size := c.toNat_lt
    rw [digitValue_ranges]
    split
    · omega
    · split
      · omega
      · split <;> omega
  rw [summedEq, shiftedEq, digitEq, Int64.toInt_ofInt_of_le (by omega) (by omega)]

theorem readDigits_accepts (radix : Int) {scale : BigInt} (scaleCanonical : scale.Canonical) :
    ∀ (text : List UInt8) {out : BigInt}, out.Canonical → (∀ c ∈ text, Readable radix c) →
      ∃ read, readDigits radix scale text out = some (some read) ∧ read.Canonical ∧
        read.toInt = (text.filter (· ≠ 95)).foldl
          (fun sum c => sum * scale.toInt + digitValue c) out.toInt
  | [], out, canonical, _ => ⟨out, rfl, canonical, rfl⟩
  | c :: rest, out, canonical, readable => by
      have later : ∀ c ∈ rest, Readable radix c :=
        fun c member => readable c (List.mem_cons_of_mem _ member)
      unfold readDigits
      by_cases separator : c = 95
      · rw [if_pos separator, List.filter_cons_of_neg (by simp [separator])]
        exact readDigits_accepts radix scaleCanonical rest canonical later
      · obtain ⟨shifted, summed, multiplied, added, summedCanonical, summedEq⟩ :=
          accumulate canonical scaleCanonical c
        obtain ⟨low, high⟩ := (readable c List.mem_cons_self).resolve_left separator
        rw [if_neg separator, if_neg (by omega), multiplied, Option.bind_eq_bind,
          Option.bind_some, added, Option.bind_some,
          List.filter_cons_of_pos (by simp [separator]), List.foldl_cons, ← summedEq]
        exact readDigits_accepts radix scaleCanonical rest summedCanonical later

theorem readDigits_refuses (radix : Int) {scale : BigInt} (scaleCanonical : scale.Canonical) :
    ∀ (text : List UInt8) {out : BigInt}, out.Canonical →
      (∃ c ∈ text, ¬Readable radix c) →
      readDigits radix scale text out = some none
  | [], _, _, ⟨_, member, _⟩ => absurd member List.not_mem_nil
  | c :: rest, out, canonical, ⟨bad, member, unreadable⟩ => by
      unfold readDigits
      by_cases separator : c = 95
      · rw [if_pos separator]
        refine readDigits_refuses radix scaleCanonical rest canonical ⟨bad, ?_, unreadable⟩
        rcases List.mem_cons.mp member with here | later
        · exact absurd (Or.inl (here.trans separator)) unreadable
        · exact later
      · rw [if_neg separator]
        by_cases range : digitValue c < 0 ∨ digitValue c ≥ radix
        · rw [if_pos range]
        · obtain ⟨shifted, summed, multiplied, added, summedCanonical, _⟩ :=
            accumulate canonical scaleCanonical c
          rw [if_neg range, multiplied, Option.bind_eq_bind, Option.bind_some, added,
            Option.bind_some]
          refine readDigits_refuses radix scaleCanonical rest summedCanonical
            ⟨bad, ?_, unreadable⟩
          rcases List.mem_cons.mp member with here | later
          · have held : Readable radix bad := by
              rw [here]
              exact Or.inr (by omega)
            exact absurd held unreadable
          · exact later

/-! ### Numerals are read back -/

private theorem numeral_digits {radix : UInt32} (low : 2 ≤ radix.toNat) (size : Nat) :
    ∃ digits : List Nat, digits ≠ [] ∧ (∀ digit ∈ digits, digit < radix.toNat) ∧
      numeral radix size = digits.reverse.map (fun digit => digitByte (UInt32.ofNat digit)) ∧
      Nat.ofDigits radix.toNat digits = size := by
  unfold numeral
  by_cases zero : size = 0
  · refine ⟨[0], List.cons_ne_nil _ _, ?_, by rw [if_pos zero]; rfl, by rw [zero]; rfl⟩
    intro digit member
    rw [List.mem_singleton.mp member]
    omega
  · refine ⟨Nat.digits radix.toNat size, Nat.digits_ne_nil_iff_ne_zero.mpr zero, ?_,
      if_neg zero, Nat.ofDigits_digits _ _⟩
    intro digit member
    exact Nat.digits_lt_base (by omega) member

private theorem numeral_ne_nil {radix : UInt32} (low : 2 ≤ radix.toNat) (size : Nat) :
    numeral radix size ≠ [] := by
  obtain ⟨digits, nonempty, _, written, _⟩ := numeral_digits low size
  rw [written]
  simp [nonempty]

private theorem numeral_readable {radix : UInt32} (low : 2 ≤ radix.toNat)
    (high : radix.toNat ≤ 36) (size : Nat) :
    ∀ c ∈ numeral radix size, 0 ≤ digitValue c ∧ digitValue c < radix.toNat := by
  obtain ⟨digits, _, small, written, _⟩ := numeral_digits low size
  intro c member
  rw [written, List.mem_map] at member
  obtain ⟨digit, held, rfl⟩ := member
  have bound := small digit (List.mem_reverse.mp held)
  rw [digitByte_value (by omega)]
  omega

private theorem numeral_total {radix : UInt32} (low : 2 ≤ radix.toNat)
    (high : radix.toNat ≤ 36) (size : Nat) :
    (numeral radix size).foldl (fun sum c => sum * (radix.toNat : Int) + digitValue c) 0 =
      size := by
  obtain ⟨digits, -, small, written, total⟩ := numeral_digits low size
  rw [written, List.foldl_map, List.foldl_reverse, ← total, Nat.ofDigits_eq_foldr]
  clear total written
  induction digits with
  | nil => rfl
  | cons digit rest ih =>
      rw [List.foldr_cons, List.foldr_cons,
        ih (fun digit member => small digit (List.mem_cons_of_mem _ member)),
        digitByte_value (Nat.lt_of_lt_of_le (small digit List.mem_cons_self) high)]
      push_cast
      ring

theorem readDigits_numeral {radix : UInt32} (low : 2 ≤ radix.toNat) (high : radix.toNat ≤ 36)
    (size : Nat) :
    ∃ read, readDigits radix.toNat (csBigFromInt64 (Int64.ofInt radix.toNat))
        (numeral radix size) (reserve 0) = some (some read) ∧
      read.Canonical ∧ read.toInt = size := by
  obtain ⟨scaleCanonical, scaleEq⟩ := csBigFromInt64_exact (Int64.ofInt radix.toNat)
  rw [Int64.toInt_ofInt_of_le (by omega) (by omega)] at scaleEq
  have readable := numeral_readable low high size
  obtain ⟨read, ran, canonical, total⟩ := readDigits_accepts radix.toNat
    scaleCanonical (numeral radix size) reserve_zero_canonical
    (fun c member => Or.inr (readable c member))
  refine ⟨read, ran, canonical, ?_⟩
  have separators : (numeral radix size).filter (· ≠ 95) = numeral radix size := by
    rw [List.filter_eq_self]
    intro c member
    have range := readable c member
    rw [decide_eq_true_eq]
    rintro rfl
    have value : digitValue 95 = -1 := by decide
    omega
  rw [total, separators, scaleEq, reserve_zero_toInt]
  exact numeral_total low high size

private theorem csBigFromText_numeral {value : BigInt} (canonical : value.Canonical)
    {radix : UInt32} (low : 2 ≤ radix.toNat) (high : radix.toNat ≤ 36) {text rest : List UInt8}
    (sign : readSign text = (value.negative, rest))
    (marker : readRadix rest = ((radix.toNat : Int), numeral radix value.toInt.natAbs)) :
    csBigFromText text = some (some value) := by
  obtain ⟨read, ran, readCanonical, total⟩ := readDigits_numeral low high value.toInt.natAbs
  have nonempty := numeral_ne_nil low value.toInt.natAbs
  unfold csBigFromText
  simp only [sign, marker, if_neg nonempty, ran, Option.bind_eq_bind, Option.bind_some,
    Option.map_some, Option.pure_def, Option.some.injEq]
  apply (trim_canonical _).eq_of_toInt canonical
  have size : magnitude read.limbs = magnitude value.limbs := by
    rw [magnitude_eq_natAbs, magnitude_eq_natAbs, total, Int.natAbs_natCast]
  rw [toInt_trim]
  unfold BigInt.toInt
  simp only [size]

private theorem readSign_signs {value : BigInt} {sign : List UInt8} (signs : Signs value sign)
    {c : UInt8} (rest : List UInt8) (digit : 48 ≤ c.toNat) :
    readSign (sign ++ c :: rest) = (value.negative, c :: rest) := by
  have notPlus : c ≠ 43 := by
    rintro rfl
    exact absurd digit (by decide)
  have notMinus : c ≠ 45 := by
    rintro rfl
    exact absurd digit (by decide)
  unfold Signs at signs
  split at signs
  · rename_i negative
    rw [signs, negative]
    rfl
  · rename_i positive
    rw [Bool.not_eq_true] at positive
    rcases signs with signs | signs
    · rw [signs, positive, List.nil_append, readSign, if_neg (by simp [notPlus, notMinus])]
    · rw [signs, positive]
      rfl

private theorem readRadix_decimal {text : List UInt8} (digits : ∀ c ∈ text, c.toNat ≤ 57) :
    readRadix text = (10, text) := by
  match text with
  | [] => rfl
  | [_] => rfl
  | zero :: marker :: rest =>
      have bound := digits marker (List.mem_cons_of_mem _ List.mem_cons_self)
      have letter {c : UInt8} (above : 57 < c.toNat) : marker ≠ c := by
        rintro rfl
        omega
      have neither {c d : UInt8} (cAbove : 57 < c.toNat) (dAbove : 57 < d.toNat) :
          ¬(marker = c ∨ marker = d) := by
        rintro (same | same)
        · exact letter cAbove same
        · exact letter dAbove same
      rw [readRadix, if_neg (neither (by decide) (by decide)),
        if_neg (neither (by decide) (by decide)), if_neg (neither (by decide) (by decide)),
        ite_self]

private theorem readRadix_range (text : List UInt8) :
    0 ≤ (readRadix text).1 ∧ (readRadix text).1 ≤ 36 := by
  match text with
  | [] => simp [readRadix]
  | [_] => simp [readRadix]
  | zero :: marker :: rest =>
      rw [readRadix]
      split_ifs <;> simp

def MarkerOf (radix : UInt32) (marker : UInt8) : Prop :=
  radix = 16 ∧ (marker = 120 ∨ marker = 88) ∨
    radix = 8 ∧ (marker = 111 ∨ marker = 79) ∨
    radix = 2 ∧ (marker = 98 ∨ marker = 66)

private theorem MarkerOf.reads {radix : UInt32} {marker : UInt8} (marks : MarkerOf radix marker)
    (text : List UInt8) :
    readRadix (48 :: marker :: text) = ((radix.toNat : Int), text) ∧
      2 ≤ radix.toNat ∧ radix.toNat ≤ 36 := by
  rcases marks with ⟨rfl, rfl | rfl⟩ | ⟨rfl, rfl | rfl⟩ | ⟨rfl, rfl | rfl⟩
  all_goals exact ⟨rfl, by decide, by decide⟩

/-- Every canonical BigInt of any size: in every radix the numeral is written
inside the buffer; in base 10, and after a marker in base 2, 8 or 16, it is read
back; and a character that is no digit and no separator is refused. -/
theorem bigText_round_trip {value : BigInt} (canonical : value.Canonical) :
    (∀ radix : UInt32, 2 ≤ radix.toNat → radix.toNat ≤ 36 →
      csBigToText value radix =
        some (signOf value ++ numeral radix value.toInt.natAbs ++ [0])) ∧
    (∀ text, csBigToText value 10 = some (text ++ [0]) →
      csBigFromText text = some (some value)) ∧
    (∀ sign, Signs value sign →
      csBigFromText (sign ++ numeral 10 value.toInt.natAbs) = some (some value) ∧
      ∀ radix marker, MarkerOf radix marker →
        csBigFromText (sign ++ 48 :: marker :: numeral radix value.toInt.natAbs) =
          some (some value)) ∧
    ∀ text, (∃ c ∈ (readRadix (readSign text).2).2,
        c ≠ 95 ∧ ¬DigitOf (readRadix (readSign text).2).1.toNat c) →
      csBigFromText text = some none := by
  have writes : ∀ radix : UInt32, 2 ≤ radix.toNat → csBigToText value radix =
      some (signOf value ++ numeral radix value.toInt.natAbs ++ [0]) := by
    intro radix low
    rw [csBigToText_writes canonical low, magnitude_eq_natAbs]
  have headed : ∀ {radix : UInt32}, 2 ≤ radix.toNat → radix.toNat ≤ 36 →
      ∃ c rest, numeral radix value.toInt.natAbs = c :: rest ∧ 48 ≤ c.toNat := by
    intro radix low high
    have readable := numeral_readable low high value.toInt.natAbs
    obtain ⟨c, rest, head⟩ := List.exists_cons_of_ne_nil (numeral_ne_nil low value.toInt.natAbs)
    have range := readable c (by rw [head]; exact List.mem_cons_self)
    rw [digitValue_ranges] at range
    exact ⟨c, rest, head, by split_ifs at range <;> omega⟩
  have decimal : ∀ sign, Signs value sign →
      csBigFromText (sign ++ numeral 10 value.toInt.natAbs) = some (some value) := by
    intro sign signs
    have ten : (10 : UInt32).toNat = 10 := rfl
    have low : 2 ≤ (10 : UInt32).toNat := by decide
    have high : (10 : UInt32).toNat ≤ 36 := by decide
    obtain ⟨c, rest, head, digit⟩ := headed low high
    have read := readSign_signs signs rest digit
    rw [← head] at read
    refine csBigFromText_numeral canonical low high read (readRadix_decimal ?_)
    intro c member
    have range := numeral_readable low high _ c member
    rw [digitValue_ranges, ten] at range
    split_ifs at range <;> omega
  refine ⟨fun radix low _ => writes radix low, ?_, ?_, ?_⟩
  · intro text written
    rw [writes 10 (by decide), Option.some.injEq] at written
    rw [← List.append_cancel_right written]
    apply decimal
    unfold signOf Signs
    cases value.negative with
    | false => exact Or.inl rfl
    | true => rfl
  · intro sign signs
    refine ⟨decimal sign signs, ?_⟩
    intro radix marker marks
    obtain ⟨radixRead, low, high⟩ := marks.reads (numeral radix value.toInt.natAbs)
    exact csBigFromText_numeral canonical low high
      (readSign_signs signs _ (by decide)) radixRead
  · rintro text ⟨c, member, notSeparator, notDigit⟩
    have range := readRadix_range (readSign text).2
    have nonempty := List.ne_nil_of_mem member
    have refused := readDigits_refuses (readRadix (readSign text).2).1
      (csBigFromInt64_exact (Int64.ofInt (readRadix (readSign text).2).1)).1
      (readRadix (readSign text).2).2 reserve_zero_canonical ⟨c, member, ?_⟩
    · unfold csBigFromText
      simp only [if_neg nonempty, refused]
      rfl
    · rintro (separator | readable)
      · exact notSeparator separator
      · apply notDigit
        rw [digitValue_of_digit (by omega)]
        omega

/-- -26 is written -1a in base 16, and -0X1a is read as -26. -/
theorem bigText_round_trip_hex :
    csBigToText { limbs := [26], negative := true } 16 = some [45, 49, 97, 0] ∧
      csBigFromText [45, 48, 88, 49, 97] = some (some { limbs := [26], negative := true }) := by
  have canonical : ({ limbs := [26], negative := true } : BigInt).Canonical := by decide
  have size : ({ limbs := [26], negative := true } : BigInt).toInt.natAbs = 26 := by decide
  have digits : numeral 16 26 = [49, 97] := by decide
  obtain ⟨writes, _, reads, _⟩ := bigText_round_trip canonical
  rw [size] at writes reads
  constructor
  · rw [writes 16 (by decide) (by decide), digits]
    rfl
  · have read := (reads [45] rfl).2 16 88 (Or.inl ⟨rfl, Or.inr rfl⟩)
    rw [digits] at read
    exact read

end CScript
