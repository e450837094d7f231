/-
The bitwise operations, in std:bits.

The language has none, so they are made from arithmetic on doubles.  A number is a whole
one here; every sum and product is rounded to 53 binary digits, and the quotient by a power
of two, being exact, is rounded down at once.  Only the reader of binary text takes in
more digits than a double holds.
-/

import CScript.Foundation.Rounding
import CScript.Runtime.Value
import Mathlib.Data.Nat.Bitwise

namespace CScript.Bits

open Foundation.Rounding

abbrev Text := List UInt8

def WIDTH : Int := 32

def SPAN : Int := 4294967296

def HALF : Int := 2147483648

/-! ### Numbers -/

def rounded (n : Int) : Int :=
  n.sign * roundTo 53 n.natAbs

def plus (x y : Int) : Int :=
  rounded (x + y)

def minus (x y : Int) : Int :=
  rounded (x - y)

def times (x y : Int) : Int :=
  rounded (x * y)

/-- `%` -/
def modulo (x y : Int) : Int :=
  x.tmod y

/-- `Math.floor(x / y)`, of a power of two. -/
def floorQuotient (x y : Int) : Int :=
  x / y

/-- `Math.pow(2, by)`, of a number of places from 0 to 31. -/
def powerOfTwo (places : Int) : Int :=
  2 ^ places.toNat

/-! ### The source -/

/-- A whole number is what `Math.trunc` makes of it. -/
def wrap (value : Int) : Int :=
  let inside := modulo value SPAN
  if inside < 0 then plus inside SPAN else inside

def toSigned (value : Int) : Int :=
  let bits := wrap value
  if HALF ≤ bits then minus bits SPAN else bits

/-- The loop of `pairwise`, with so many turns to go. -/
def pairwiseLoop (combine : Bool → Bool → Bool) : Nat → Int → Int → Int → Int → Int
  | 0, _, _, result, _ => result
  | turns + 1, left, right, result, place =>
      let lowLeft := modulo left 2
      let lowRight := modulo right 2
      pairwiseLoop combine turns (floorQuotient left 2) (floorQuotient right 2)
        (if combine (lowLeft = 1) (lowRight = 1) then plus result place else result)
        (times place 2)

def pairwise (a b : Int) (combine : Bool → Bool → Bool) : Int :=
  pairwiseLoop combine 32 (wrap a) (wrap b) 0 1

def and (a b : Int) : Int :=
  pairwise a b fun left right => left && right

def or (a b : Int) : Int :=
  pairwise a b fun left right => left || right

def xor (a b : Int) : Int :=
  pairwise a b fun left right => left != right

def not (value : Int) : Int :=
  minus (minus SPAN 1) (wrap value)

mutual

def shiftLeft (value places : Int) : Int :=
  if places < 0 then shiftRight value (-places)
  else if WIDTH ≤ places then 0
  else wrap (times (wrap value) (powerOfTwo places))
termination_by if places < 0 then 1 else 0
decreasing_by
  rename_i negative
  rw [if_neg (show ¬-places < 0 by omega), if_pos negative]
  exact Nat.one_pos

def shiftRight (value places : Int) : Int :=
  if places < 0 then shiftLeft value (-places)
  else if WIDTH ≤ places then 0
  else floorQuotient (wrap value) (powerOfTwo places)
termination_by if places < 0 then 1 else 0
decreasing_by
  rename_i negative
  rw [if_neg (show ¬-places < 0 by omega), if_pos negative]
  exact Nat.one_pos

end

def shiftRightSigned (value places : Int) : Int :=
  if places ≤ 0 then shiftLeft value (-places)
  else if WIDTH ≤ places then if toSigned value < 0 then minus SPAN 1 else 0
  else wrap (floorQuotient (toSigned value) (powerOfTwo places))

def rotateLeft (value count : Int) : Int :=
  let places := modulo (plus (modulo count WIDTH) WIDTH) WIDTH
  if places = 0 then wrap value
  else or (shiftLeft value places) (shiftRight value (minus WIDTH places))

def rotateRight (value count : Int) : Int :=
  rotateLeft value (minus WIDTH (modulo (plus (modulo count WIDTH) WIDTH) WIDTH))

def testBit (value index : Int) : Bool :=
  if index < 0 ∨ WIDTH ≤ index then false
  else modulo (shiftRight value index) 2 = 1

/-- The loop of `popcount`. -/
def popcountLoop (bits total : Int) : Int :=
  if 0 < bits then popcountLoop (floorQuotient bits 2) (plus total (modulo bits 2)) else total
termination_by bits.toNat
decreasing_by
  unfold floorQuotient
  omega

def popcount (value : Int) : Int :=
  popcountLoop (wrap value) 0

/-- The loop of `leadingZeros`, with so many places to go. -/
def leadingZerosLoop (bits : Int) : Nat → Int → Int
  | 0, _ => WIDTH
  | i + 1, count => if testBit bits i then count else leadingZerosLoop bits i (plus count 1)

def leadingZeros (value : Int) : Int :=
  let bits := wrap value
  if bits = 0 then WIDTH else leadingZerosLoop bits 32 0

/-- The loop of `trailingZeros`: without a bit in so many places to come it never ends. -/
def trailingZerosLoop (bits : Int) : Nat → Int → Option Int
  | 0, _ => none
  | places + 1, count =>
      if testBit bits count then some count else trailingZerosLoop bits places (plus count 1)

def trailingZeros (value : Int) : Option Int :=
  let bits := wrap value
  if bits = 0 then some WIDTH else trailingZerosLoop bits 32 0

def highestBit (value : Int) : Int :=
  let bits := wrap value
  if bits = 0 then -1 else minus (minus WIDTH 1) (leadingZeros bits)

/-- `String` of one binary digit. -/
def digitText (digit : Int) : Text :=
  if digit = 0 then ascii "0" else ascii "1"

/-- The loop of `toBinary`. -/
def toBinaryLoop (bits : Int) (out : Text) : Text :=
  if 0 < bits then toBinaryLoop (floorQuotient bits 2) (digitText (modulo bits 2) ++ out) else out
termination_by bits.toNat
decreasing_by
  unfold floorQuotient
  omega

def toBinary (value : Int) (width : Nat) : Text :=
  let out := toBinaryLoop (wrap value) []
  let out := if out = [] then ascii "0" else out
  if out.length < width then List.replicate (width - out.length) '0'.toUInt8 ++ out else out

@[irreducible] def EXPONENT : Nat := 971

def LIMIT : Nat := 2 ^ (53 + EXPONENT)

def finite (n : Int) : Option Int :=
  if n.natAbs < LIMIT then some n else none

/-- The loop of `fromBinary`, on the text that is left. -/
def fromBinaryLoop (text : Text) : Option Int → Text → Except Text (Option Int)
  | out, [] => .ok out
  | out, digit :: rest =>
      if digit ≠ '0'.toUInt8 ∧ digit ≠ '1'.toUInt8 then
        .error (ascii "bits.fromBinary needs a binary string, got " ++ text)
      else
        fromBinaryLoop text
          (do
            let doubled ← finite (times (← out) 2)
            finite (plus doubled (if digit = '1'.toUInt8 then 1 else 0)))
          rest

/-- `wrap` makes NaN of infinity, for which nothing stands again. -/
def fromBinary (text : Text) : Except Text (Option Int) :=
  (fromBinaryLoop text (some 0) text).map fun out => out.map wrap

/-! ### Numbers that are exact -/

theorem rounded_eq {n : Int} (exact_ : roundTo 53 n.natAbs = n.natAbs) : rounded n = n := by
  rw [rounded, exact_, Int.sign_mul_natAbs]

theorem rounded_small {n : Int} (small : n.natAbs < 2 ^ 53) : rounded n = n :=
  rounded_eq (roundTo_small small)

def residue (value : Int) : BitVec 32 :=
  BitVec.ofInt 32 value

theorem wrap_eq (value : Int) : wrap value = ((residue value).toNat : Int) := by
  have same : ((residue value).toNat : Int) = value % 4294967296 := by
    rw [residue, BitVec.toNat_ofInt, Int.toNat_of_nonneg (Int.emod_nonneg _ (by decide))]
    rfl
  rw [same, wrap]
  unfold modulo SPAN
  rw [Int.tmod_eq_emod, show (4294967296 : Int).natAbs = 4294967296 from rfl]
  split
  · rw [Nat.cast_zero, Int.sub_zero, if_neg (by omega)]
  · rw [if_pos (by omega), plus, rounded_small (by omega)]
    omega

theorem residue_toNat (bits : BitVec 32) : residue bits.toNat = bits := by
  rw [residue, BitVec.ofInt_natCast, BitVec.ofNat_toNat, BitVec.setWidth_eq]

theorem wrap_natCast (n : Nat) : wrap n = ((n % 2 ^ 32 : Nat) : Int) := by
  rw [wrap_eq, residue, BitVec.ofInt_natCast, BitVec.toNat_ofNat]

theorem remainder_eq (n : Nat) : modulo n 2 = ((n % 2 : Nat) : Int) :=
  (Int.ofNat_tmod n 2).symm

theorem lowest_eq (n : Nat) : decide (modulo n 2 = 1) = decide (n % 2 = 1) := by
  rw [remainder_eq]
  exact decide_eq_decide.mpr (by omega)

theorem half_eq (n : Nat) : floorQuotient n 2 = ((n / 2 : Nat) : Int) :=
  rfl

/-! ### Bit by bit -/

theorem bitwise_step {f : Bool → Bool → Bool} (none : f false false = false) (l r : Nat) :
    Nat.bitwise f l r = 2 * Nat.bitwise f (l / 2) (r / 2) +
      (f (decide (l % 2 = 1)) (decide (r % 2 = 1))).toNat := by
  have split : ∀ n : Nat, Nat.bit (decide (n % 2 = 1)) (n / 2) = n := by
    intro n
    rw [Nat.bit_val]
    rcases Nat.mod_two_eq_zero_or_one n with even | odd
    · rw [even]
      simp only [Nat.zero_ne_one, decide_false, Bool.toNat_false]
      omega
    · rw [odd]
      simp only [decide_true, Bool.toNat_true]
      omega
  have step := Nat.bitwise_bit none (decide (l % 2 = 1)) (l / 2) (decide (r % 2 = 1)) (r / 2)
  rw [split l, split r] at step
  rw [step, Nat.bit_val]

theorem pairwiseLoop_eq {f : Bool → Bool → Bool} (none : f false false = false) (turns : Nat)
    {l r result place : Nat} (left : l < 2 ^ turns) (right : r < 2 ^ turns)
    (below : result < place) (fits : place * 2 ^ turns < 2 ^ 53) :
    pairwiseLoop f turns l r result place = ((result + place * Nat.bitwise f l r : Nat) : Int) := by
  induction turns generalizing l r result place with
  | zero =>
      obtain rfl : l = 0 := by omega
      obtain rfl : r = 0 := by omega
      have zero : Nat.bitwise f 0 0 = 0 := by
        have step := bitwise_step none 0 0
        rw [Nat.zero_div, show (decide (0 % 2 = 1)) = false from rfl, none] at step
        simp only [Bool.toNat_false] at step
        omega
      rw [pairwiseLoop, zero, Nat.mul_zero, Nat.add_zero]
  | succ turns ih =>
      have power : 2 ^ (turns + 1) = 2 * 2 ^ turns := by ring
      have wider : place * 2 ^ (turns + 1) = place * 2 * 2 ^ turns := by rw [power]; ring
      have more : place * 2 ≤ place * 2 * 2 ^ turns :=
        Nat.le_mul_of_pos_right _ (Nat.two_pow_pos turns)
      have doubled : times place 2 = ((place * 2 : Nat) : Int) := by
        rw [times, rounded_small (by omega)]
        rfl
      have added : ∀ here : Bool, (if here then plus result place else (result : Int)) =
          ((result + place * here.toNat : Nat) : Int) := by
        intro here
        cases here with
        | false => rfl
        | true =>
            rw [if_pos rfl, plus, rounded_small (by omega), Bool.toNat_true, Nat.mul_one]
            push_cast
            rfl
      rw [pairwiseLoop]
      rw [lowest_eq, lowest_eq, half_eq, half_eq, doubled, added]
      generalize bit : f (decide (l % 2 = 1)) (decide (r % 2 = 1)) = here
      have small : place * here.toNat ≤ place := by cases here <;> simp
      rw [ih (by omega) (by omega) (by omega) (by omega), bitwise_step none l r, bit]
      congr 1
      ring

theorem pairwise_eq {f : Bool → Bool → Bool} (none : f false false = false) (a b : Int) :
    pairwise a b f = (Nat.bitwise f (residue a).toNat (residue b).toNat : Int) := by
  have loop := @pairwiseLoop_eq f none 32 _ _ 0 1 (residue a).isLt (residue b).isLt (by decide)
    (by decide)
  rw [Nat.zero_add, Nat.one_mul] at loop
  rw [pairwise, wrap_eq, wrap_eq]
  exact loop

theorem and_eq (a b : Int) : and a b = ((residue a &&& residue b).toNat : Int) := by
  rw [BitVec.toNat_and]
  exact pairwise_eq rfl a b

theorem or_eq (a b : Int) : or a b = ((residue a ||| residue b).toNat : Int) := by
  rw [BitVec.toNat_or]
  exact pairwise_eq rfl a b

theorem xor_eq (a b : Int) : xor a b = ((residue a ^^^ residue b).toNat : Int) := by
  rw [BitVec.toNat_xor]
  exact pairwise_eq rfl a b

theorem not_eq (value : Int) : not value = ((~~~residue value).toNat : Int) := by
  have bound := (residue value).isLt
  have whole : minus SPAN 1 = 4294967295 := rounded_small (by decide)
  rw [not, whole, wrap_eq, BitVec.toNat_not, minus, rounded_small (by omega)]
  omega

/-! ### Shifts -/

def shifted (bits : BitVec 32) (places : Int) : BitVec 32 :=
  if places < 0 then bits >>> (-places).toNat else bits <<< places.toNat

def shiftedSigned (bits : BitVec 32) (places : Int) : BitVec 32 :=
  if places < 0 then bits <<< (-places).toNat else bits.sshiftRight places.toNat

theorem powerOfTwo_natCast (places : Nat) : powerOfTwo places = ((2 ^ places : Nat) : Int) := by
  rw [powerOfTwo, Int.toNat_natCast]
  push_cast
  rfl

theorem shiftLeft_natCast (value : Int) (places : Nat) :
    shiftLeft value places = ((residue value <<< places).toNat : Int) := by
  have bound := (residue value).isLt
  rw [shiftLeft, if_neg (by omega), BitVec.toNat_shiftLeft, Nat.shiftLeft_eq]
  unfold WIDTH
  split
  · obtain ⟨more, rfl⟩ : ∃ more, places = 32 + more := ⟨places - 32, by omega⟩
    rw [pow_add, Nat.mul_left_comm, Nat.mul_mod_right]
    rfl
  · have product : wrap value * powerOfTwo places =
        (((residue value).toNat * 2 ^ places : Nat) : Int) := by
      rw [wrap_eq, powerOfTwo_natCast, Nat.cast_mul]
    have whole : times (wrap value) (powerOfTwo places) =
        (((residue value).toNat * 2 ^ places : Nat) : Int) := by
      rw [times, product]
      apply rounded_eq
      rw [Int.natAbs_natCast]
      exact roundTo_mul_pow (by omega) places
    rw [whole, wrap_natCast]

theorem shiftRight_natCast (value : Int) (places : Nat) :
    shiftRight value places = ((residue value >>> places).toNat : Int) := by
  have bound := (residue value).isLt
  rw [shiftRight, if_neg (by omega), BitVec.toNat_ushiftRight, Nat.shiftRight_eq_div_pow]
  unfold WIDTH
  split
  · have above : 2 ^ 32 ≤ 2 ^ places := Nat.pow_le_pow_right (by decide) (by omega)
    rw [Nat.div_eq_of_lt (by omega)]
    rfl
  · rw [wrap_eq, powerOfTwo_natCast]
    rfl

theorem shiftLeft_eq (value places : Int) :
    shiftLeft value places = ((shifted (residue value) places).toNat : Int) := by
  rcases Int.lt_or_le places 0 with negative | positive
  · obtain ⟨count, is⟩ := Int.eq_ofNat_of_zero_le (show 0 ≤ -places by omega)
    rw [shiftLeft, shifted, if_pos negative, if_pos negative, is, Int.toNat_natCast]
    exact shiftRight_natCast value count
  · obtain ⟨count, rfl⟩ := Int.eq_ofNat_of_zero_le positive
    rw [shifted, if_neg (by omega), Int.toNat_natCast]
    exact shiftLeft_natCast value count

theorem shiftRight_eq (value places : Int) :
    shiftRight value places = ((shifted (residue value) (-places)).toNat : Int) := by
  rcases Int.lt_or_le places 0 with negative | positive
  · rw [shiftRight, if_pos negative]
    exact shiftLeft_eq value (-places)
  · obtain ⟨count, rfl⟩ := Int.eq_ofNat_of_zero_le positive
    rw [shiftRight_natCast, shifted]
    split
    · rw [Int.neg_neg, Int.toNat_natCast]
    · obtain rfl : count = 0 := by omega
      exact congrArg _ (congrArg _ (BitVec.shiftLeft_zero _).symm)

theorem toSigned_eq (value : Int) : toSigned value = (residue value).toInt := by
  have bound := (residue value).isLt
  rw [toSigned, wrap_eq, BitVec.toInt_eq_toNat_cond]
  unfold HALF SPAN minus
  split
  · rw [if_neg (by omega), rounded_small (by omega)]
    rfl
  · rw [if_pos (by omega)]

theorem shiftRightSigned_eq (value places : Int) :
    shiftRightSigned value places = ((shiftedSigned (residue value) places).toNat : Int) := by
  unfold shiftRightSigned shiftedSigned
  rcases Int.lt_trichotomy places 0 with negative | rfl | positive
  · rw [if_pos (by omega), if_pos negative, shiftLeft_eq, shifted, if_neg (by omega)]
  · rw [if_pos (by decide), if_neg (by decide), shiftLeft_eq]
    unfold shifted
    rw [if_neg (by decide), Int.neg_zero, Int.toNat_zero, BitVec.shiftLeft_zero,
      BitVec.sshiftRight_zero]
  · obtain ⟨count, rfl⟩ := Int.eq_ofNat_of_zero_le (Int.le_of_lt positive)
    have low := (residue value).le_toInt
    have high := (residue value).toInt_lt
    have answer : ((residue value).sshiftRight count).toNat =
        (residue ((residue value).toInt / ((2 ^ count : Nat) : Int))).toNat := by
      rw [BitVec.sshiftRight, Int.shiftRight_eq_div_pow]
      rfl
    have forward : ¬((count : Int) ≤ 0) := by omega
    have never : ¬((count : Int) < 0) := by omega
    rw [if_neg forward, if_neg never, Int.toNat_natCast, answer, toSigned_eq]
    unfold WIDTH
    split
    · have above : 2 ^ 31 ≤ 2 ^ count := Nat.pow_le_pow_right (by decide) (by omega)
      split
      · have minusOne : (residue value).toInt / ((2 ^ count : Nat) : Int) = -1 :=
          Int.ediv_eq_neg_one_of_neg_of_le (by omega) (by omega)
        rw [minusOne]
        rfl
      · have zero : (residue value).toInt / ((2 ^ count : Nat) : Int) = 0 :=
          Int.ediv_eq_zero_of_lt (by omega) (by omega)
        rw [zero]
        rfl
    · rw [wrap_eq, powerOfTwo_natCast]
      rfl

/-! ### Rotations -/

theorem places_eq (count : Int) :
    modulo (plus (modulo count WIDTH) WIDTH) WIDTH = ((count % 32).toNat : Int) := by
  have low := Int.emod_nonneg count (show (32 : Int) ≠ 0 by decide)
  have high := Int.emod_lt_of_pos count (show (0 : Int) < 32 by decide)
  have sign : count.tmod 32 = count % 32 ∨ count.tmod 32 = count % 32 - 32 := by
    rw [Int.tmod_eq_emod]
    split
    · exact .inl (Int.sub_zero _)
    · exact .inr rfl
  unfold modulo plus WIDTH
  rw [rounded_small (by omega), Int.tmod_eq_emod_of_nonneg (by omega)]
  omega

theorem rotateLeft_eq (value count : Int) :
    rotateLeft value count =
      (((residue value).rotateLeft (count % 32).toNat).toNat : Int) := by
  have small : (count % 32).toNat < 32 := by omega
  unfold rotateLeft
  rw [places_eq, BitVec.rotateLeft_def, Nat.mod_eq_of_lt small]
  generalize (count % 32).toNat = places at small ⊢
  dsimp only
  split
  · obtain rfl : places = 0 := by omega
    rw [wrap_eq, BitVec.shiftLeft_zero, Nat.sub_zero,
      BitVec.ushiftRight_eq_zero (Nat.le_refl _), BitVec.or_zero]
  · have back : minus WIDTH places = ((32 - places : Nat) : Int) := by
      unfold minus WIDTH
      rw [rounded_small (by omega)]
      omega
    rw [back, shiftLeft_natCast, shiftRight_natCast, or_eq, residue_toNat, residue_toNat]

theorem rotateRight_eq (value count : Int) :
    rotateRight value count =
      (((residue value).rotateRight (count % 32).toNat).toNat : Int) := by
  have small : (count % 32).toNat < 32 := by omega
  unfold rotateRight
  rw [places_eq, BitVec.rotateRight_def, Nat.mod_eq_of_lt small]
  generalize (count % 32).toNat = places at small ⊢
  have back : minus WIDTH places = ((32 - places : Nat) : Int) := by
    unfold minus WIDTH
    rw [rounded_small (by omega)]
    omega
  rw [back, rotateLeft_eq, BitVec.rotateLeft_def]
  rcases Nat.eq_zero_or_pos places with rfl | some
  · rw [show (((32 - 0 : Nat) : Int) % 32).toNat % 32 = 0 by decide, BitVec.shiftLeft_zero,
      Nat.sub_zero, BitVec.ushiftRight_eq_zero (Nat.le_refl _), BitVec.ushiftRight_zero,
      BitVec.shiftLeft_eq_zero (Nat.le_refl _)]
  · rw [show (((32 - places : Nat) : Int) % 32).toNat % 32 = 32 - places by omega,
      show 32 - (32 - places) = places by omega, BitVec.or_comm]

/-! ### Counting -/

theorem testBit_natCast (value : Int) (index : Nat) :
    testBit value index = (residue value).getLsbD index := by
  unfold testBit WIDTH
  split
  · exact (BitVec.getLsbD_of_ge _ _ (by omega)).symm
  · rw [shiftRight_natCast, lowest_eq, BitVec.toNat_ushiftRight, Nat.shiftRight_eq_div_pow,
      BitVec.getLsbD, Nat.testBit_eq_decide_div_mod_eq]

theorem popcountLoop_eq {width : Nat} (bits : BitVec width) {total : Nat}
    (fits : total + width < 2 ^ 53) :
    popcountLoop bits.toNat total = ((total + bits.cpop.toNat : Nat) : Int) := by
  induction width generalizing total with
  | zero =>
      rw [BitVec.eq_nil bits, popcountLoop]
      rfl
  | succ width ih =>
      have bound := bits.isLt
      obtain ⟨lowest, is⟩ : ∃ lowest : Bool, bits.toNat % 2 = lowest.toNat := by
        rcases Nat.mod_two_eq_zero_or_one bits.toNat with even | odd
        · exact ⟨false, even⟩
        · exact ⟨true, odd⟩
      obtain ⟨others, half⟩ : ∃ others : BitVec width, others.toNat = bits.toNat / 2 :=
        ⟨BitVec.ofNat width (bits.toNat / 2), by
          rw [BitVec.toNat_ofNat, Nat.mod_eq_of_lt (by rw [pow_succ] at bound; omega)]⟩
      have split : bits = others.concat lowest := by
        apply BitVec.eq_of_toNat_eq
        rw [BitVec.toNat_concat]
        omega
      have small : lowest.toNat ≤ 1 := Bool.toNat_le lowest
      have added : plus total (modulo bits.toNat 2) = ((total + lowest.toNat : Nat) : Int) := by
        rw [remainder_eq, is, plus, rounded_small (by omega), Nat.cast_add]
      have quotient : floorQuotient bits.toNat 2 = (others.toNat : Int) := by
        rw [half, half_eq]
      rw [popcountLoop]
      split
      · rw [added, quotient, ih others (by omega)]
        conv_rhs => rw [split, BitVec.toNat_cpop_concat, ← Nat.add_assoc]
      · have zero : bits = 0#(width + 1) := BitVec.eq_of_toNat_eq (by
          rw [BitVec.toNat_zero]
          omega)
        rw [zero, BitVec.cpop_zero, BitVec.toNat_zero, Nat.add_zero]

theorem popcount_eq (value : Int) : popcount value = ((residue value).cpop.toNat : Int) := by
  have loop := @popcountLoop_eq 32 (residue value) 0 (by decide)
  rw [Nat.zero_add] at loop
  rw [popcount, wrap_eq]
  exact loop

theorem wrap_eq_zero (value : Int) : wrap value = 0 ↔ residue value = 0 := by
  rw [wrap_eq, Int.natCast_eq_zero, BitVec.toNat_eq]
  rfl

theorem leadingZerosLoop_eq {bits : BitVec 32} (some : bits ≠ 0) (places : Nat)
    (within : places ≤ 32) (before : 32 - places ≤ bits.clz.toNat) :
    leadingZerosLoop bits.toNat places ((32 - places : Nat) : Int) = (bits.clz.toNat : Int) := by
  have below := @BitVec.toNat_lt_two_pow_sub_clz 32 bits
  have found := BitVec.getLsbD_true_clz_of_ne_zero (by decide) some
  induction places with
  | zero =>
      rw [Nat.sub_eq_zero_of_le before, pow_zero, Nat.lt_one_iff] at below
      exact absurd (BitVec.eq_of_toNat_eq below) some
  | succ i ih =>
      rw [leadingZerosLoop, testBit_natCast, residue_toNat]
      split
      next set =>
        have least : 2 ^ i ≤ bits.toNat := Nat.ge_two_pow_of_testBit set
        have order : i < 32 - bits.clz.toNat :=
          (Nat.pow_lt_pow_iff_right (by decide)).mp (Nat.lt_of_le_of_lt least below)
        omega
      next clear =>
        have other : bits.clz.toNat ≠ 31 - i := by
          intro is
          rw [is, show 32 - 1 - (31 - i) = i by omega] at found
          exact clear found
        have next : plus ((32 - (i + 1) : Nat) : Int) 1 = ((32 - i : Nat) : Int) := by
          rw [plus, rounded_small (by omega)]
          omega
        rw [next]
        exact ih (by omega) (by omega)

theorem leadingZeros_eq (value : Int) :
    leadingZeros value = ((residue value).clz.toNat : Int) := by
  unfold leadingZeros
  dsimp only
  split
  next none =>
    have zero : (0#32).clz = 32#32 := BitVec.clz_eq_iff_eq_zero.mpr rfl
    rw [(wrap_eq_zero value).mp none]
    exact congrArg (fun bits : BitVec 32 => (bits.toNat : Int)) zero.symm
  next some =>
    rw [wrap_eq]
    exact leadingZerosLoop_eq (mt (wrap_eq_zero value).mpr some) 32 (Nat.le_refl _)
      (Nat.zero_le _)

theorem trailingZerosLoop_eq {bits : BitVec 32} (some_ : bits ≠ 0) {places count : Nat}
    (all : count + places = 32) (before : count ≤ bits.ctz.toNat) :
    trailingZerosLoop bits.toNat places count = some (bits.ctz.toNat : Int) := by
  have found := BitVec.getLsbD_true_ctz_of_ne_zero some_
  induction places generalizing count with
  | zero =>
      rw [BitVec.getLsbD_of_ge _ _ (by omega)] at found
      cases found
  | succ places ih =>
      rw [trailingZerosLoop, testBit_natCast, residue_toNat]
      split
      next set =>
        rcases Nat.lt_or_eq_of_le before with early | rfl
        · rw [BitVec.getLsbD_false_of_lt_ctz early] at set
          cases set
        · rfl
      next clear =>
        have other : count ≠ bits.ctz.toNat := by
          rintro rfl
          exact clear found
        have next : plus count 1 = ((count + 1 : Nat) : Int) := by
          rw [plus, rounded_small (by omega)]
          rfl
        rw [next]
        exact ih (by omega) (by omega)

theorem trailingZeros_eq (value : Int) :
    trailingZeros value = some ((residue value).ctz.toNat : Int) := by
  unfold trailingZeros
  dsimp only
  split
  next none =>
    have zero : (0#32).ctz = 32#32 := by
      rw [BitVec.ctz_eq_reverse_clz, BitVec.reverse_eq_zero_iff.mpr rfl]
      exact BitVec.clz_eq_iff_eq_zero.mpr rfl
    rw [(wrap_eq_zero value).mp none]
    exact congrArg (fun bits : BitVec 32 => some (bits.toNat : Int)) zero.symm
  next some_ =>
    rw [wrap_eq]
    exact trailingZerosLoop_eq (mt (wrap_eq_zero value).mpr some_) rfl (Nat.zero_le _)

def highest (bits : BitVec 32) : Int :=
  if bits = 0 then -1 else (bits.toNat.log2 : Int)

theorem highestBit_eq (value : Int) : highestBit value = highest (residue value) := by
  unfold highestBit highest
  dsimp only
  by_cases none : residue value = 0
  · rw [if_pos ((wrap_eq_zero value).mpr none), if_pos none]
  · rw [if_neg (mt (wrap_eq_zero value).mp none), if_neg none]
    have above := @BitVec.toNat_lt_two_pow_sub_clz 32 (residue value)
    have least := BitVec.two_pow_sub_clz_le_toNat_of_ne_zero (by decide) none
    have positive : (residue value).toNat ≠ 0 := fun zero => none (BitVec.eq_of_toNat_eq zero)
    have few : (residue value).clz.toNat < 32 := by
      by_contra all
      rw [Nat.sub_eq_zero_of_le (by omega), pow_zero] at above
      omega
    have place : (residue value).toNat.log2 = 31 - (residue value).clz.toNat := by
      refine (Nat.log2_eq_iff positive).mpr ⟨least, ?_⟩
      rwa [show 31 - (residue value).clz.toNat + 1 = 32 - (residue value).clz.toNat by omega]
    have top : minus WIDTH 1 = 31 := rounded_small (by decide)
    rw [leadingZeros_eq, wrap_eq, residue_toNat, place, top, minus, rounded_small (by omega)]
    omega

/-! ### Binary text -/

def Binary (text : Text) : Prop :=
  ∀ digit ∈ text, digit = '0'.toUInt8 ∨ digit = '1'.toUInt8

def digitValue (digit : UInt8) : Nat :=
  if digit = '1'.toUInt8 then 1 else 0

theorem digitValue_lt (digit : UInt8) : digitValue digit < 2 := by
  unfold digitValue
  split <;> decide

def valueBehind (value : Nat) (text : Text) : Nat :=
  text.foldl (fun value digit => 2 * value + digitValue digit) value

def binaryValue (text : Text) : Nat :=
  valueBehind 0 text

theorem valueBehind_cons (value : Nat) (digit : UInt8) (rest : Text) :
    valueBehind value (digit :: rest) = valueBehind (2 * value + digitValue digit) rest :=
  rfl

theorem valueBehind_zeros (count : Nat) (text : Text) :
    valueBehind 0 (List.replicate count '0'.toUInt8 ++ text) = valueBehind 0 text := by
  induction count with
  | zero => rfl
  | succ count ih => rw [List.replicate_succ, List.cons_append, valueBehind_cons]; exact ih

theorem digitText_spec {digit : Nat} (bit : digit < 2) :
    ∃ char, digitText digit = [char] ∧ digitValue char = digit ∧
      (char = '0'.toUInt8 ∨ char = '1'.toUInt8) := by
  rcases Nat.lt_succ_iff_lt_or_eq.mp bit with zero | rfl
  · obtain rfl := Nat.lt_one_iff.mp zero
    exact ⟨'0'.toUInt8, rfl, rfl, .inl rfl⟩
  · exact ⟨'1'.toUInt8, rfl, rfl, .inr rfl⟩

theorem toBinaryLoop_spec (bits : Nat) {out : Text} (binary : Binary out) :
    Binary (toBinaryLoop bits out) ∧
      valueBehind 0 (toBinaryLoop bits out) = valueBehind bits out := by
  induction bits using Nat.strong_induction_on generalizing out with
  | _ bits ih =>
      rw [toBinaryLoop]
      split
      · obtain ⟨char, is, value, digit⟩ := digitText_spec (Nat.mod_lt bits (by decide))
        have longer : Binary (char :: out) := by
          intro other inside
          rcases List.mem_cons.mp inside with rfl | inside
          · exact digit
          · exact binary other inside
        rw [half_eq, remainder_eq, is, List.singleton_append]
        obtain ⟨all, same⟩ := ih (bits / 2) (by omega) longer
        refine ⟨all, same.trans ?_⟩
        rw [valueBehind_cons, value, Nat.div_add_mod]
      · obtain rfl : bits = 0 := by omega
        exact ⟨binary, rfl⟩

theorem toBinary_spec (value : Int) (width : Nat) :
    Binary (toBinary value width) ∧
      binaryValue (toBinary value width) = (residue value).toNat := by
  have empty : Binary [] := fun digit inside => absurd inside List.not_mem_nil
  obtain ⟨binary, same⟩ := toBinaryLoop_spec (residue value).toNat empty
  rw [show valueBehind (residue value).toNat [] = (residue value).toNat from rfl] at same
  unfold toBinary
  rw [wrap_eq]
  generalize toBinaryLoop (residue value).toNat [] = out at binary same
  have shown : Binary (if out = [] then ascii "0" else out) ∧
      valueBehind 0 (if out = [] then ascii "0" else out) = (residue value).toNat := by
    split
    next none =>
      subst none
      refine ⟨fun digit inside => .inl (List.mem_singleton.mp inside), ?_⟩
      rw [← same]
      rfl
    · exact ⟨binary, same⟩
  dsimp only
  generalize (if out = [] then ascii "0" else out) = out at shown
  obtain ⟨binary, same⟩ := shown
  split
  · refine ⟨fun digit inside => ?_, ?_⟩
    · rcases List.mem_append.mp inside with zeros | inside
      · exact .inl (List.eq_of_mem_replicate zeros)
      · exact binary digit inside
    · rw [binaryValue, valueBehind_zeros, same]
  · exact ⟨binary, same⟩

/-! ### Reading it -/

theorem exponent_pos : 1 ≤ EXPONENT := by
  unfold EXPONENT
  decide

theorem limit_large : 2 ^ 54 ≤ LIMIT :=
  Nat.pow_le_pow_right (by decide) (Nat.add_le_add_left exponent_pos 53)

def readSoFar (value : Nat) : Option Int :=
  if taken 53 value < LIMIT then some (taken 53 value : Int) else none

theorem finite_natCast (n : Nat) : finite n = if n < LIMIT then some (n : Int) else none := by
  rw [finite, Int.natAbs_natCast]

theorem rounded_natCast (n : Nat) : rounded n = ((roundTo 53 n : Nat) : Int) := by
  rw [rounded, Int.natAbs_natCast]
  rcases Nat.eq_zero_or_pos n with rfl | positive
  · rfl
  · rw [Int.sign_eq_one_of_pos (by omega), Int.one_mul]

theorem doubled_eq (value : Nat) :
    times (taken 53 value) 2 = ((2 * taken 53 value : Nat) : Int) := by
  have product : (taken 53 value : Int) * 2 = ((2 * taken 53 value : Nat) : Int) := by
    push_cast
    ring
  rw [times, product, rounded_natCast, roundTo_double (by decide)]

theorem appended_eq (value : Nat) (digit : UInt8) :
    plus ((2 * taken 53 value : Nat) : Int) (if digit = '1'.toUInt8 then 1 else 0) =
      ((taken 53 (2 * value + digitValue digit) : Nat) : Int) := by
  have sum : ((2 * taken 53 value : Nat) : Int) + (if digit = '1'.toUInt8 then 1 else 0) =
      ((2 * taken 53 value + digitValue digit : Nat) : Int) := by
    unfold digitValue
    split <;> push_cast <;> rfl
  rw [plus, sum, rounded_natCast, roundTo_taken (by decide) value (digitValue_lt digit)]

theorem readSoFar_step (value : Nat) (digit : UInt8) :
    (do
      let doubled ← finite (times (← readSoFar value) 2)
      finite (plus doubled (if digit = '1'.toUInt8 then 1 else 0))) =
        readSoFar (2 * value + digitValue digit) := by
  have bit := digitValue_lt digit
  -- Where twice the number is infinite, so is what comes of it with the digit.
  have order : taken 53 (2 * value + digitValue digit) < LIMIT →
      2 * taken 53 value < LIMIT := by
    intro within
    by_cases large : 2 ^ 53 ≤ value
    · rwa [taken_longer large bit] at within
    · have limit := limit_large
      rw [taken_small (by omega)]
      omega
  unfold readSoFar
  by_cases within : 2 * taken 53 value < LIMIT
  · rw [if_pos (show taken 53 value < LIMIT by omega), Option.bind_eq_bind, Option.bind_some,
      doubled_eq, finite_natCast, if_pos within, Option.bind_some,
      appended_eq, finite_natCast]
  · rw [if_neg (mt order within)]
    split
    · rw [Option.bind_eq_bind, Option.bind_some, doubled_eq, finite_natCast, if_neg within,
        Option.bind_none]
    · rfl

theorem fromBinaryLoop_eq (text : Text) {rest : Text} (binary : Binary rest) (value : Nat) :
    fromBinaryLoop text (readSoFar value) rest = .ok (readSoFar (valueBehind value rest)) := by
  induction rest generalizing value with
  | nil => rfl
  | cons digit rest ih =>
      have known : ¬(digit ≠ '0'.toUInt8 ∧ digit ≠ '1'.toUInt8) := by
        rintro ⟨zero, one⟩
        exact (binary digit List.mem_cons_self).elim zero one
      rw [fromBinaryLoop, if_neg known, readSoFar_step, valueBehind_cons]
      exact ih (fun other inside => binary other (List.mem_cons_of_mem digit inside)) _

theorem fromBinaryLoop_error (text : Text) {rest : Text} (other : ¬Binary rest)
    (out : Option Int) :
    fromBinaryLoop text out rest =
      .error (ascii "bits.fromBinary needs a binary string, got " ++ text) := by
  induction rest generalizing out with
  | nil => exact absurd (fun digit inside => absurd inside List.not_mem_nil) other
  | cons digit rest ih =>
      rw [fromBinaryLoop]
      split
      · rfl
      next known =>
        apply ih
        intro binary
        refine other fun each inside => ?_
        rcases List.mem_cons.mp inside with rfl | inside
        · by_contra neither
          exact known (not_or.mp neither)
        · exact binary each inside

def Faithful (value : Nat) : Prop :=
  value < 2 ^ 53 ∨ value < LIMIT - 2 ^ (EXPONENT - 1) ∧ 2 ^ min (value.size - 53) 32 ∣ value

theorem readSoFar_iff (value : Nat) :
    (readSoFar value).map wrap = some ((value % 2 ^ 32 : Nat) : Int) ↔ Faithful value := by
  have limit : taken 53 value < LIMIT ↔ value < LIMIT - 2 ^ (EXPONENT - 1) := by
    have whole : LIMIT = 2 ^ (53 + (EXPONENT - 1) + 1) := by
      rw [LIMIT, Nat.add_assoc, Nat.sub_add_cancel exponent_pos]
    rw [whole]
    exact taken_lt_iff (by decide) value (EXPONENT - 1)
  unfold Faithful
  by_cases large : 2 ^ 53 ≤ value
  · rw [← limit, ← taken_mod_iff large 32, readSoFar]
    split
    next within =>
      rw [Option.map_some, wrap_natCast]
      constructor
      · intro same
        exact .inr ⟨within, Int.ofNat_inj.mp (Option.some.inj same)⟩
      · rintro (small | ⟨-, same⟩)
        · omega
        · rw [same]
    next beyond =>
      constructor
      · intro same
        cases same
      · rintro (small | ⟨within, -⟩)
        · omega
        · exact absurd within beyond
  · have small : value < 2 ^ 53 := by omega
    have room := limit_large
    have within : taken 53 value < LIMIT := by
      rw [taken_small small]
      omega
    rw [readSoFar, if_pos within, Option.map_some, wrap_natCast, taken_small small]
    exact iff_of_true rfl (.inl small)

theorem fromBinary_eq {text : Text} (binary : Binary text) :
    fromBinary text = .ok ((readSoFar (binaryValue text)).map wrap) := by
  have room := limit_large
  have zero : readSoFar 0 = some 0 := by
    rw [readSoFar, taken_small (by decide), if_pos (by omega)]
    rfl
  have loop := fromBinaryLoop_eq text binary 0
  rw [zero] at loop
  rw [fromBinary, loop]
  rfl

theorem fromBinary_iff (text : Text) :
    fromBinary text = .ok (some ((binaryValue text % 2 ^ 32 : Nat) : Int)) ↔
      Binary text ∧ Faithful (binaryValue text) := by
  by_cases binary : Binary text
  · rw [fromBinary_eq binary, Except.ok.injEq, readSoFar_iff]
    exact (and_iff_right binary).symm
  · rw [fromBinary, fromBinaryLoop_error text binary]
    exact iff_of_false (fun same => nomatch same) fun both => binary both.1

theorem fromBinary_toBinary (value : Int) (width : Nat) :
    fromBinary (toBinary value width) = .ok (some (wrap value)) := by
  obtain ⟨binary, same⟩ := toBinary_spec value width
  have bound := (residue value).isLt
  have low := (readSoFar_iff (residue value).toNat).mpr (.inl (by omega))
  rw [fromBinary_eq binary, same, low, Nat.mod_eq_of_lt bound, wrap_eq]

structure Machine (a b count : Int) (text : Text) (width : Nat) : Prop where
  wraps : wrap a = ((residue a).toNat : Int)
  and_ : and a b = ((residue a &&& residue b).toNat : Int)
  or_ : or a b = ((residue a ||| residue b).toNat : Int)
  xor_ : xor a b = ((residue a ^^^ residue b).toNat : Int)
  not_ : not a = ((~~~residue a).toNat : Int)
  left : shiftLeft a count = ((shifted (residue a) count).toNat : Int)
  right : shiftRight a count = ((shifted (residue a) (-count)).toNat : Int)
  signed : shiftRightSigned a count = ((shiftedSigned (residue a) count).toNat : Int)
  turnsLeft : rotateLeft a count = (((residue a).rotateLeft (count % 32).toNat).toNat : Int)
  turnsRight : rotateRight a count = (((residue a).rotateRight (count % 32).toNat).toNat : Int)
  ones : popcount a = ((residue a).cpop.toNat : Int)
  leading : leadingZeros a = ((residue a).clz.toNat : Int)
  trailing : trailingZeros a = some ((residue a).ctz.toNat : Int)
  top : highestBit a = highest (residue a)
  low : Binary text → fromBinary text = .ok (some ((binaryValue text % 2 ^ 32 : Nat) : Int))
  back : fromBinary (toBinary a width) = .ok (some (wrap a))

/-- All of it is right, but the text with too many digits that count. -/
theorem bits_machine (a b count : Int) (text : Text) (width : Nat) :
    Machine a b count text width ↔ (Binary text → Faithful (binaryValue text)) := by
  constructor
  · intro machine binary
    exact ((fromBinary_iff text).mp (machine.low binary)).2
  · intro faithful
    exact {
      wraps := wrap_eq a
      and_ := and_eq a b
      or_ := or_eq a b
      xor_ := xor_eq a b
      not_ := not_eq a
      left := shiftLeft_eq a count
      right := shiftRight_eq a count
      signed := shiftRightSigned_eq a count
      turnsLeft := rotateLeft_eq a count
      turnsRight := rotateRight_eq a count
      ones := popcount_eq a
      leading := leadingZeros_eq a
      trailing := trailingZeros_eq a
      top := highestBit_eq a
      low := fun binary => (fromBinary_iff text).mpr ⟨binary, faithful binary⟩
      back := fromBinary_toBinary a width }

/-- A one, 52 zeros and a one, of which the last is lost. -/
theorem digit_lost :
    ¬Machine 0 0 0 ('1'.toUInt8 :: List.replicate 52 '0'.toUInt8 ++ ['1'.toUInt8]) 0 := by
  intro machine
  have binary : Binary ('1'.toUInt8 :: List.replicate 52 '0'.toUInt8 ++ ['1'.toUInt8]) := by
    intro digit inside
    rcases List.mem_append.mp inside with first | last
    · rcases List.mem_cons.mp first with rfl | zeros
      · exact .inr rfl
      · exact .inl (List.eq_of_mem_replicate zeros)
    · exact .inr (List.mem_singleton.mp last)
  have value : binaryValue ('1'.toUInt8 :: List.replicate 52 '0'.toUInt8 ++ ['1'.toUInt8]) =
      2 ^ 53 + 1 := by decide
  obtain ⟨-, faithful⟩ := (fromBinary_iff _).mp (machine.low binary)
  have size : (2 ^ 53 + 1).size = 54 := size_eq (by decide) (by decide)
  rw [value, Faithful, size] at faithful
  rcases faithful with small | ⟨-, divides⟩
  · exact absurd small (by decide)
  · exact absurd divides (by decide)

end CScript.Bits
