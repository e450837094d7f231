/-
Values and the strings that key everything.

A CScript value is one of the language's primitives or a pointer to a heap
object.  Strings are interned, so a string's identity is its bytes; every other
object is identified by its address and carries its immutable type tag.
Numbers are IEEE doubles, kept as the 64 bits the runtime hashes and compares.
-/

import Mathlib.Algebra.Group.Nat.Defs
import Mathlib.Tactic.Common

namespace CScript

/-- A number an `int` can hold. -/
def FitsInt (n : Int) : Prop :=
  -2147483648 ≤ n ∧ n < 2147483648

instance (n : Int) : Decidable (FitsInt n) :=
  inferInstanceAs (Decidable (-2147483648 ≤ n ∧ n < 2147483648))

/-! ### Doubles -/

structure Double where
  bits : UInt64
  deriving DecidableEq, Repr, Inhabited

namespace Double

def magnitude (number : Double) : Nat :=
  number.bits.toNat % 2 ^ 63

def isNaN (number : Double) : Bool :=
  decide (0x7ff0000000000000 < number.magnitude)

def isInf (number : Double) : Bool :=
  decide (number.magnitude = 0x7ff0000000000000)

def isZero (number : Double) : Bool :=
  decide (number.magnitude = 0)

/-- C's `==` on doubles: no NaN equals anything, and the two zeros are equal. -/
def eq (left right : Double) : Bool :=
  !left.isNaN && !right.isNaN &&
    (decide (left = right) || (left.isZero && right.isZero))

/-- `(double)n` for a whole number a double holds exactly. -/
def ofNat (n : Nat) : Double :=
  if n = 0 then ⟨0⟩
  else ⟨UInt64.ofNat ((n.log2 + 1023) * 2 ^ 52 + (n * 2 ^ (52 - n.log2) - 2 ^ 52))⟩

/-- `(int)number` for a number that is not negative: truncation towards zero. -/
def toNat (number : Double) : Nat :=
  let exponent := number.magnitude / 2 ^ 52
  let significand := 2 ^ 52 + number.magnitude % 2 ^ 52
  if number.isZero then 0
  else if exponent < 1075 then significand / 2 ^ (1075 - exponent)
  else significand * 2 ^ (exponent - 1075)

private theorem ofNat_fields {n : Nat} (positive : n ≠ 0) (small : n < 2 ^ 53) :
    n.log2 ≤ 52 ∧ 2 ^ 52 ≤ n * 2 ^ (52 - n.log2) ∧ n * 2 ^ (52 - n.log2) < 2 ^ 53 := by
  have exponentBound : n.log2 < 53 := (Nat.log2_lt positive).mpr small
  have lower : 2 ^ n.log2 ≤ n := Nat.log2_self_le positive
  have upper : n < 2 ^ (n.log2 + 1) := Nat.lt_log2_self
  refine ⟨by omega, ?_, ?_⟩
  · calc 2 ^ 52 = 2 ^ n.log2 * 2 ^ (52 - n.log2) := by
          rw [← Nat.pow_add]; congr 1; omega
      _ ≤ n * 2 ^ (52 - n.log2) := Nat.mul_le_mul_right _ lower
  · calc n * 2 ^ (52 - n.log2) < 2 ^ (n.log2 + 1) * 2 ^ (52 - n.log2) :=
          Nat.mul_lt_mul_of_pos_right upper (Nat.two_pow_pos _)
      _ = 2 ^ 53 := by rw [← Nat.pow_add]; congr 1; omega

/-- Whole numbers below 2^53 survive the trip through a double, which is what
lets slot indices and attribute sets be stored as number values. -/
theorem toNat_ofNat {n : Nat} (small : n < 2 ^ 53) : (ofNat n).toNat = n := by
  by_cases zero : n = 0
  · subst zero
    rfl
  · obtain ⟨exponentBound, lower, upper⟩ := ofNat_fields zero small
    generalize significandEq : n * 2 ^ (52 - n.log2) = significand at lower upper
    have magnitudeEq : (ofNat n).magnitude =
        (n.log2 + 1023) * 2 ^ 52 + (significand - 2 ^ 52) := by
      unfold ofNat magnitude
      rw [if_neg zero, significandEq, UInt64.toNat_ofNat']
      rw [Nat.mod_eq_of_lt (by omega), Nat.mod_eq_of_lt (by omega)]
    have notZero : (ofNat n).isZero = false := by
      unfold isZero
      rw [magnitudeEq]
      exact decide_eq_false (by omega)
    have exponentEq : (ofNat n).magnitude / 2 ^ 52 = n.log2 + 1023 := by
      rw [magnitudeEq]; omega
    have fractionEq : 2 ^ 52 + (ofNat n).magnitude % 2 ^ 52 = significand := by
      rw [magnitudeEq]; omega
    unfold toNat
    simp only [notZero, exponentEq, fractionEq, Bool.false_eq_true, if_false]
    by_cases fractional : n.log2 + 1023 < 1075
    · rw [if_pos fractional, ← significandEq]
      have shiftEq : 1075 - (n.log2 + 1023) = 52 - n.log2 := by omega
      rw [shiftEq, Nat.mul_div_cancel _ (Nat.two_pow_pos _)]
    · rw [if_neg fractional, ← significandEq]
      have top : n.log2 = 52 := by omega
      simp [top]

end Double

/-! ### Interned strings -/

/-- The bytes of a string literal of the source. -/
def ascii (text : String) : List UInt8 :=
  text.toList.map Char.toUInt8

structure ObjString where
  chars : List UInt8
  deriving DecidableEq, Repr, Inhabited

/-- `hashString`: FNV-1a over the bytes, computed once when a string is made. -/
def hashString (chars : List UInt8) : UInt32 :=
  chars.foldl (fun hash byte => (hash ^^^ byte.toUInt32) * 16777619) 2166136261

def ObjString.hash (string : ObjString) : UInt32 :=
  hashString string.chars

/-! ### Heap pointers and values -/

inductive ObjType where
  | native
  | object
  | function
  | upvalue
  | closure
  | array
  | shape
  | class_
  | boundMethod
  | module_
  | promise
  | fiber
  | map
  | generator
  | regex
  | date
  | symbol
  | bigint
  deriving DecidableEq, Repr

inductive Obj where
  | string (chars : ObjString)
  | cell (type : ObjType) (address : Nat)
  deriving DecidableEq, Repr

inductive Value where
  | undefined
  | null
  | bool (b : Bool)
  | number (n : Double)
  | obj (o : Obj)
  deriving DecidableEq, Repr

instance : Inhabited Value := ⟨.undefined⟩

end CScript
