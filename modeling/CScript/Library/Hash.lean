/-
The hashes of std:hash.

Bytes are hashed by the software bit operations.  The first hash is the one the runtime interns
strings under, and the checksum tells any two texts apart that differ in at most four bytes next
to one another.
-/

import CScript.Library.Bits
import Mathlib.Logic.Function.Iterate

namespace CScript.Hash

open Bits

def fnv1aByte (value : Int) (byte : UInt8) : Int :=
  let value := Bits.xor value byte.toNat
  let low := wrap (modulo value 65536)
  let high := wrap (floorQuotient value 65536)
  wrap (plus (times low 16777619) (times (wrap (modulo (times high 16777619) 65536)) 65536))

def fnv1a (bytes : List UInt8) : Int :=
  bytes.foldl fnv1aByte 2166136261

/-- A turn of the inner loop of `buildCrcTable`. -/
def crcBit (value : Int) : Int :=
  if Bits.and value 1 = 1 then Bits.xor 3988292384 (shiftRight value 1) else shiftRight value 1

def buildCrcTable : List Int :=
  (List.range 256).map fun (n : Nat) => crcBit^[8] n

def crcByte (crcTable : List Int) (value : Int) (byte : UInt8) : Int :=
  Bits.xor (crcTable.getD (Bits.and (Bits.xor value byte.toNat) 255).toNat 0) (shiftRight value 8)

def crc32 (bytes : List UInt8) : Int :=
  Bits.xor (bytes.foldl (crcByte buildCrcTable) 4294967295) 4294967295

/-! ### Bit by bit -/

/-- What is left of 32 bits where the lowest is divided out. -/
def divided (bits : BitVec 32) : BitVec 32 :=
  if bits.getLsbD 0 then 3988292384#32 ^^^ (bits >>> 1) else bits >>> 1

def remainderByte (bits : BitVec 32) (byte : UInt8) : BitVec 32 :=
  divided^[8] (bits ^^^ byte.toBitVec.setWidth 32)

/-- The checksum without a table. -/
def remainder (bytes : List UInt8) : BitVec 32 :=
  bytes.foldl remainderByte 4294967295#32 ^^^ 4294967295#32

theorem divided_xor (a b : BitVec 32) : divided (a ^^^ b) = divided a ^^^ divided b := by
  have cancel : ∀ p x y : BitVec 32, p ^^^ x ^^^ (p ^^^ y) = x ^^^ y := fun p x y => by
    rw [BitVec.xor_comm p x, BitVec.xor_assoc, ← BitVec.xor_assoc p, BitVec.xor_self,
      BitVec.zero_xor]
  have left_comm : ∀ p x y : BitVec 32, p ^^^ (x ^^^ y) = x ^^^ (p ^^^ y) := fun p x y => by
    rw [← BitVec.xor_assoc, BitVec.xor_comm p x, BitVec.xor_assoc]
  unfold divided
  rw [BitVec.getLsbD_xor, BitVec.ushiftRight_xor_distrib]
  cases a.getLsbD 0 <;> cases b.getLsbD 0
  · rfl
  · exact left_comm _ _ _
  · exact (BitVec.xor_assoc _ _ _).symm
  · exact (cancel _ _ _).symm

theorem iterate_xor (n : Nat) (a b : BitVec 32) :
    divided^[n] (a ^^^ b) = divided^[n] a ^^^ divided^[n] b := by
  induction n generalizing a b with
  | zero => rfl
  | succ n ih =>
      rw [Function.iterate_succ_apply, divided_xor, ih]
      rfl

theorem divided_double {bits : BitVec 32} (small : bits.toNat < 2 ^ 31) :
    divided (bits <<< 1) = bits := by
  unfold divided
  rw [if_neg (by simp)]
  apply BitVec.eq_of_toNat_eq
  rw [BitVec.toNat_ushiftRight, BitVec.toNat_shiftLeft, Nat.shiftLeft_eq, Nat.shiftRight_eq_div_pow]
  omega

theorem iterate_shifted (n : Nat) {bits : BitVec 32} (small : bits.toNat * 2 ^ n < 2 ^ 32) :
    divided^[n] (bits <<< n) = bits := by
  induction n with
  | zero => exact BitVec.shiftLeft_zero _
  | succ n ih =>
      have less : bits.toNat * 2 ^ n < 2 ^ 31 := by
        rw [Nat.pow_succ, ← Nat.mul_assoc] at small
        omega
      have shifted : (bits <<< n).toNat < 2 ^ 31 := by
        rw [BitVec.toNat_shiftLeft, Nat.shiftLeft_eq]
        exact Nat.lt_of_le_of_lt (Nat.mod_le _ _) less
      rw [Function.iterate_succ_apply, BitVec.shiftLeft_add, divided_double shifted]
      exact ih (Nat.lt_trans less (by decide))

theorem divided_eq_zero {bits : BitVec 32} (zero : divided bits = 0#32) : bits = 0#32 := by
  have top := congrArg (fun bits : BitVec 32 => bits.getLsbD 31) zero
  cases lowest : bits.getLsbD 0 with
  | true => simp [divided, lowest] at top
  | false =>
      rw [divided, lowest, if_neg (by simp)] at zero
      apply BitVec.eq_of_getLsbD_eq
      intro i inside
      rcases i with _ | i
      · rw [lowest]
        rfl
      · have bit := congrArg (fun bits : BitVec 32 => bits.getLsbD i) zero
        simpa [Nat.add_comm] using bit

theorem iterate_injective {n : Nat} {a b : BitVec 32}
    (same : divided^[n] a = divided^[n] b) : a = b := by
  have zero : divided^[n] (a ^^^ b) = 0#32 := by rw [iterate_xor, same, BitVec.xor_self]
  have none : ∀ {n bits}, divided^[n] bits = 0#32 → bits = 0#32 := by
    intro n
    induction n with
    | zero => exact id
    | succ n ih => exact fun zero => divided_eq_zero (ih zero)
  exact BitVec.xor_eq_zero_iff.mp (none zero)

/-- Some bytes as one word, the first lowest. -/
def word : List UInt8 → BitVec 32
  | [] => 0#32
  | byte :: rest => byte.toBitVec.setWidth 32 ^^^ word rest <<< 8

theorem word_small (bytes : List UInt8) : (word bytes).toNat < 2 ^ (8 * bytes.length) := by
  induction bytes with
  | nil => exact Nat.one_pos
  | cons byte rest ih =>
      have power : 2 ^ (8 * (rest.length + 1)) = 2 ^ (8 * rest.length) * 256 := by
        rw [Nat.mul_succ, Nat.pow_add]
      have positive := Nat.two_pow_pos (8 * rest.length)
      rw [word, BitVec.toNat_xor, List.length_cons]
      refine Nat.xor_lt_two_pow ?_ ?_
      · have small := byte.toBitVec.isLt
        rw [BitVec.toNat_setWidth, power]
        exact Nat.lt_of_le_of_lt (Nat.mod_le _ _) (by omega)
      · rw [BitVec.toNat_shiftLeft, Nat.shiftLeft_eq, power]
        exact Nat.lt_of_le_of_lt (Nat.mod_le _ _) (by omega)

theorem remainder_word {bytes : List UInt8} (few : bytes.length ≤ 4) (bits : BitVec 32) :
    bytes.foldl remainderByte bits = divided^[8 * bytes.length] (bits ^^^ word bytes) := by
  induction bytes generalizing bits with
  | nil => simp [word]
  | cons byte rest ih =>
      have small := word_small rest
      rw [List.length_cons] at few
      rw [List.foldl_cons, ih (by omega), List.length_cons, Nat.mul_succ,
        Function.iterate_add_apply, word, ← BitVec.xor_assoc, iterate_xor 8, iterate_shifted 8]
      · rfl
      · have wide : 2 ^ (8 * rest.length) ≤ 2 ^ 24 := Nat.pow_le_pow_right (by decide) (by omega)
        omega

theorem word_injective {left right : List UInt8} (same : left.length = right.length)
    (few : left.length ≤ 4) (words : word left = word right) : left = right := by
  induction left generalizing right with
  | nil => exact (List.length_eq_zero_iff.mp same.symm).symm
  | cons a left ih =>
      obtain ⟨b, right, rfl⟩ := List.exists_cons_of_length_eq_add_one same.symm
      rw [List.length_cons, List.length_cons] at same
      rw [List.length_cons] at few
      obtain rfl : a = b := by
        apply UInt8.toBitVec_inj.mp
        apply BitVec.eq_of_getLsbD_eq
        intro i inside
        have bit := congrArg (fun bits : BitVec 32 => bits.getLsbD i) words
        simpa [word, inside, Nat.lt_trans inside (by decide : 8 < 32)] using bit
      have shifted := congrArg BitVec.toNat ((BitVec.xor_right_inj _).mp words)
      have wide : 2 ^ (8 * left.length) ≤ 2 ^ 24 := Nat.pow_le_pow_right (by decide) (by omega)
      have first := word_small left
      have second := word_small right
      rw [← Nat.succ.inj same] at second
      rw [BitVec.toNat_shiftLeft, BitVec.toNat_shiftLeft, Nat.shiftLeft_eq,
        Nat.shiftLeft_eq] at shifted
      rw [ih (Nat.succ.inj same) (by omega) (BitVec.eq_of_toNat_eq (by omega))]

theorem foldl_injective (back : List UInt8) {a b : BitVec 32}
    (same : back.foldl remainderByte a = back.foldl remainderByte b) : a = b := by
  induction back generalizing a b with
  | nil => exact same
  | cons byte rest ih => exact (BitVec.xor_left_inj _).mp (iterate_injective (ih same))

/-- Two texts that differ in at most four bytes next to one another have two remainders. -/
theorem remainder_burst {front left right back : List UInt8} (same : left.length = right.length)
    (few : left.length ≤ 4)
    (remainders : remainder (front ++ left ++ back) = remainder (front ++ right ++ back)) :
    left = right := by
  simp only [remainder, List.foldl_append] at remainders
  have folds := foldl_injective back ((BitVec.xor_left_inj _).mp remainders)
  rw [@remainder_word left few, @remainder_word right (same ▸ few), same] at folds
  exact word_injective same few ((BitVec.xor_right_inj _).mp (iterate_injective folds))

/-! ### The source -/

theorem times_natCast {a b : Nat} (small : a * b < 2 ^ 53) : times a b = ((a * b : Nat) : Int) :=
  rounded_small small

theorem plus_natCast {a b : Nat} (small : a + b < 2 ^ 53) : plus a b = ((a + b : Nat) : Int) :=
  rounded_small small

theorem wrap_modulo (n : Nat) : wrap (modulo n 65536) = ((n % 65536 : Nat) : Int) := by
  rw [show modulo n 65536 = ((n % 65536 : Nat) : Int) from (Int.ofNat_tmod n 65536).symm,
    wrap_natCast, Nat.mod_eq_of_lt (Nat.lt_trans (Nat.mod_lt n (by decide)) (by decide))]

/-- Neither half of the product passes 2^53. -/
theorem halves_eq {low high : Nat} (lowSmall : low < 65536) (highSmall : high < 65536) :
    wrap (plus (times low 16777619) (times (wrap (modulo (times high 16777619) 65536)) 65536)) =
      (((high * 65536 + low) * 16777619 % 2 ^ 32 : Nat) : Int) := by
  have small := Nat.mod_lt (high * 16777619) (show 65536 > 0 by decide)
  have first : times low 16777619 = ((low * 16777619 : Nat) : Int) :=
    @times_natCast low 16777619 (by omega)
  have second : times high 16777619 = ((high * 16777619 : Nat) : Int) :=
    @times_natCast high 16777619 (by omega)
  have carried : times (high * 16777619 % 65536 : Nat) 65536 =
      ((high * 16777619 % 65536 * 65536 : Nat) : Int) := @times_natCast _ 65536 (by omega)
  rw [first, second, wrap_modulo, carried, plus_natCast (by omega), wrap_natCast,
    ← Nat.mul_mod_mul_right, show 65536 * 65536 = 2 ^ 32 from rfl, Nat.add_mod_mod, Nat.add_comm,
    Nat.mul_right_comm, ← Nat.add_mul]

theorem fnv1aByte_eq (hash : UInt32) (byte : UInt8) : fnv1aByte hash.toNat byte =
    (((hash ^^^ byte.toUInt32) * 16777619).toNat : Int) := by
  have mixed : Bits.xor hash.toNat byte.toNat = ((hash ^^^ byte.toUInt32).toNat : Int) := by
    have whole := xor_eq hash.toBitVec.toNat byte.toUInt32.toBitVec.toNat
    rw [residue_toNat, residue_toNat] at whole
    exact whole
  have bound := (hash ^^^ byte.toUInt32).toNat_lt
  unfold fnv1aByte
  rw [mixed, UInt32.toNat_mul]
  generalize (hash ^^^ byte.toUInt32).toNat = n at bound
  have upper : n / 65536 < 65536 := Nat.div_lt_of_lt_mul bound
  have high : wrap (floorQuotient n 65536) = ((n / 65536 : Nat) : Int) := by
    refine (wrap_natCast (n / 65536)).trans ?_
    rw [Nat.mod_eq_of_lt (Nat.lt_trans upper (by decide))]
  dsimp only
  rw [wrap_modulo, high, halves_eq (Nat.mod_lt n (by decide)) upper, Nat.div_add_mod']
  rfl

theorem crcBit_eq (bits : BitVec 32) : crcBit bits.toNat = ((divided bits).toNat : Int) := by
  have half : shiftRight bits.toNat 1 = ((bits >>> 1).toNat : Int) := by
    rw [shiftRight_eq, residue_toNat]
    rfl
  have lowest : Bits.and bits.toNat 1 = 1 ↔ bits.getLsbD 0 = true := by
    rw [and_eq, residue_toNat, show residue 1 = 1#32 from rfl,
      BitVec.and_one_eq_setWidth_ofBool_getLsbD]
    cases bits.getLsbD 0 <;> simp
  unfold crcBit divided
  rw [half]
  by_cases odd : bits.getLsbD 0 = true
  · rw [if_pos (lowest.mpr odd), if_pos odd, xor_eq, residue_toNat]
    rfl
  · rw [if_neg fun one => odd (lowest.mp one), if_neg odd]

theorem iterate_crcBit (n : Nat) (bits : BitVec 32) :
    crcBit^[n] bits.toNat = ((divided^[n] bits).toNat : Int) := by
  induction n generalizing bits with
  | zero => rfl
  | succ n ih => rw [Function.iterate_succ_apply, crcBit_eq, ih, Function.iterate_succ_apply]

theorem split_low (bits : BitVec 32) : bits = bits &&& 255#32 ^^^ bits >>> 8 <<< 8 := by
  apply BitVec.eq_of_getLsbD_eq
  intro i inside
  have mask : (255#32).getLsbD i = decide (i < 8) := by
    rw [show 255#32 = BitVec.ofNat 32 (2 ^ 8 - 1) from rfl, BitVec.getLsbD_ofNat,
      Nat.testBit_two_pow_sub_one]
    simp [inside]
  rw [BitVec.getLsbD_xor, BitVec.getLsbD_and, mask, BitVec.getLsbD_shiftLeft,
    BitVec.getLsbD_ushiftRight]
  by_cases low : i < 8
  · simp [low]
  · simp [low, inside, Nat.add_sub_cancel' (Nat.le_of_not_lt low)]

/-- The lowest eight bits go through the table, and the others move down. -/
theorem crcByte_eq (bits : BitVec 32) (byte : UInt8) :
    crcByte buildCrcTable bits.toNat byte = ((remainderByte bits byte).toNat : Int) := by
  have wide : (byte.toNat : Int) = ((byte.toBitVec.setWidth 32).toNat : Int) := by
    rw [BitVec.toNat_setWidth]
    exact congrArg _ (Nat.mod_eq_of_lt (Nat.lt_trans byte.toBitVec.isLt (by decide))).symm
  have none : byte.toBitVec.setWidth 32 >>> 8 = 0#32 := by
    apply BitVec.eq_of_toNat_eq
    have small := byte.toBitVec.isLt
    rw [BitVec.toNat_ushiftRight, BitVec.toNat_setWidth, Nat.shiftRight_eq_div_pow]
    exact Nat.div_eq_of_lt (Nat.lt_of_le_of_lt (Nat.mod_le _ _) small)
  have moved : shiftRight bits.toNat 8 =
      (((bits ^^^ byte.toBitVec.setWidth 32) >>> 8).toNat : Int) := by
    rw [shiftRight_eq, residue_toNat, BitVec.ushiftRight_xor_distrib, none, BitVec.xor_zero]
    rfl
  unfold crcByte remainderByte
  rw [wide, xor_eq bits.toNat, residue_toNat, residue_toNat, moved, and_eq, residue_toNat,
    show residue 255 = 255#32 from rfl]
  generalize bits ^^^ byte.toBitVec.setWidth 32 = mixed
  have inside : (mixed &&& 255#32).toNat < 256 := by
    rw [BitVec.toNat_and]
    exact Nat.lt_of_le_of_lt Nat.and_le_right (by decide)
  have entry : buildCrcTable.getD (mixed &&& 255#32).toNat 0 =
      ((divided^[8] (mixed &&& 255#32)).toNat : Int) := by
    rw [← iterate_crcBit, buildCrcTable, List.getD_eq_getElem?_getD, List.getElem?_map,
      List.getElem?_range inside, Option.map_some, Option.getD_some]
  have small : (mixed >>> 8).toNat * 2 ^ 8 < 2 ^ 32 := by
    have bound := mixed.isLt
    rw [BitVec.toNat_ushiftRight, Nat.shiftRight_eq_div_pow]
    omega
  rw [Int.toNat_natCast, entry, xor_eq, residue_toNat, residue_toNat]
  conv_rhs => rw [split_low mixed, iterate_xor, iterate_shifted 8 small]

theorem fold_eq {Bits : Type} {value : Bits → Int} {step : Int → UInt8 → Int}
    {machine : Bits → UInt8 → Bits}
    (same : ∀ bits byte, step (value bits) byte = value (machine bits byte))
    (bytes : List UInt8) (bits : Bits) :
    bytes.foldl step (value bits) = value (bytes.foldl machine bits) := by
  induction bytes generalizing bits with
  | nil => rfl
  | cons byte rest ih => rw [List.foldl_cons, List.foldl_cons, same, ih]

theorem crc32_eq (bytes : List UInt8) : crc32 bytes = ((remainder bytes).toNat : Int) := by
  have folded := fold_eq crcByte_eq bytes 4294967295#32
  rw [crc32, remainder, show (4294967295 : Int) = ((4294967295#32).toNat : Int) from rfl, folded,
    xor_eq, residue_toNat, residue_toNat]

/-- The simple hash is that of the interned strings, and the table and the software operations
make the checksum of the machine. -/
theorem hashes_machine (bytes : List UInt8) : fnv1a bytes = ((hashString bytes).toNat : Int) ∧
    crc32 bytes = ((remainder bytes).toNat : Int) :=
  ⟨fold_eq fnv1aByte_eq bytes 2166136261, crc32_eq bytes⟩

/-- No change of up to four bytes next to one another goes unnoticed. -/
theorem crc32_burst {front left right back : List UInt8} (same : left.length = right.length)
    (few : left.length ≤ 4)
    (sums : crc32 (front ++ left ++ back) = crc32 (front ++ right ++ back)) : left = right := by
  rw [crc32_eq, crc32_eq] at sums
  exact remainder_burst same few (BitVec.eq_of_toNat_eq (Int.ofNat.inj sums))

theorem crc32_changes : crc32 ([1] ++ [2, 3] ++ [4]) ≠ crc32 ([1] ++ [3, 2] ++ [4]) :=
  fun sums => absurd (@crc32_burst [1] [2, 3] [3, 2] [4] rfl (by decide) sums) (by decide)

end CScript.Hash
