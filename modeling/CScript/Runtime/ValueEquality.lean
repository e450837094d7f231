/-
Strict equality, SameValueZero and the hash of a map key.

BigInts are the one heap object compared by value, so the comparisons are given
what each BigInt cell holds.
-/

import CScript.Runtime.BigIntArithmetic
import CScript.Runtime.Value

namespace CScript

abbrev BigIntCells := Nat → BigInt

/-- `AS_BIGINT`, where `IS_BIGINT` holds. -/
def Obj.asBigInt : Obj → Option Nat
  | .cell .bigint address => some address
  | _ => none

def csValuesStrictEqual (bigints : BigIntCells) : Value → Value → Bool
  | .number x, .number y => x.eq y
  | .obj x, .obj y =>
      match x.asBigInt, y.asBigInt with
      | some left, some right => csBigCompare (bigints left) (bigints right) == 0
      | _, _ => decide (x = y)
  | .bool x, .bool y => x == y
  | .null, .null => true
  | .undefined, .undefined => true
  | _, _ => false

def csValuesSameValueZero (bigints : BigIntCells) : Value → Value → Bool
  | .number x, .number y => if !x.eq x && !y.eq y then true else x.eq y
  | a, b => csValuesStrictEqual bigints a b

def foldBits (bits : UInt64) : UInt32 :=
  (bits ^^^ (bits >>> 32)).toUInt32

def hashValue : Value → UInt32
  | .obj (.string string) => string.hash
  | .number number =>
      if !number.eq number then 0x7ff80000
      else foldBits (if number.eq ⟨0⟩ then 0 else number.bits)
  | .bool b => if b then 1 else 2
  | .null => 3
  | .undefined => 4
  | .obj (.cell _ address) => foldBits (UInt64.ofNat address)

/-! ### SameValueZero is an equivalence -/

/-- What SameValueZero identifies in a double: every NaN with every other, and
the two zeros with each other. -/
def Double.collapse (number : Double) : Option Double :=
  if number.isNaN then none else if number.isZero then some ⟨0⟩ else some number

theorem Double.eq_self_iff (number : Double) : number.eq number = !number.isNaN := by
  unfold Double.eq
  cases number.isNaN <;> simp

theorem Double.eq_iff_collapse {x y : Double} (xNumber : x.isNaN = false)
    (yNumber : y.isNaN = false) : x.eq y = true ↔ x.collapse = y.collapse := by
  unfold Double.eq Double.collapse
  rw [xNumber, yNumber]
  simp only [Bool.not_false, Bool.true_and, Bool.or_eq_true, decide_eq_true_eq,
    Bool.and_eq_true, Bool.false_eq_true, if_false]
  have zeroIsZero : (⟨0⟩ : Double).isZero = true := rfl
  cases xZero : x.isZero <;> cases yZero : y.isZero
  · simp
  · simp only [if_true, Bool.false_eq_true, if_false, Option.some.injEq, false_and, or_false]
    constructor
    · intro same
      rw [same, yZero] at xZero
      cases xZero
    · intro same
      rw [same, zeroIsZero] at xZero
      cases xZero
  · simp only [if_true, Bool.false_eq_true, if_false, Option.some.injEq, and_false, or_false]
    constructor
    · intro same
      rw [same, yZero] at xZero
      cases xZero
    · intro same
      rw [← same, zeroIsZero] at yZero
      cases yZero
  · simp

inductive KeyClass where
  | number (collapsed : Option Double)
  | bigint (value : BigInt)
  | other (value : Value)

def keyClass (bigints : BigIntCells) : Value → KeyClass
  | .number n => .number n.collapse
  | .obj object =>
      match object.asBigInt with
      | some address => .bigint (bigints address)
      | none => .other (.obj object)
  | value => .other value

private theorem sameNumbers_iff (x y : Double) :
    (if !x.eq x && !y.eq y then true else x.eq y) = true ↔ x.collapse = y.collapse := by
  rw [Double.eq_self_iff, Double.eq_self_iff, Bool.not_not, Bool.not_not]
  cases xNaN : x.isNaN <;> cases yNaN : y.isNaN
  · exact Double.eq_iff_collapse xNaN yNaN
  · simp only [Bool.and_true, Bool.false_eq_true, if_false]
    unfold Double.eq Double.collapse
    rw [xNaN, yNaN]
    cases x.isZero <;> simp
  · simp only [Bool.and_false, Bool.false_eq_true, if_false]
    unfold Double.eq Double.collapse
    rw [xNaN, yNaN]
    cases y.isZero <;> simp
  · simp [Double.collapse, xNaN, yNaN]

private theorem sameObjects_iff (bigints : BigIntCells) (x y : Obj) :
    csValuesStrictEqual bigints (.obj x) (.obj y) = true ↔
      keyClass bigints (.obj x) = keyClass bigints (.obj y) := by
  simp only [csValuesStrictEqual, keyClass]
  cases xBig : x.asBigInt <;> cases yBig : y.asBigInt
  · simp
  · simp only [decide_eq_true_eq, reduceCtorEq, iff_false]
    intro same
    rw [same, yBig] at xBig
    cases xBig
  · simp only [decide_eq_true_eq, reduceCtorEq, iff_false]
    intro same
    rw [same, yBig] at xBig
    cases xBig
  · simp only [beq_iff_eq, csBigCompare_eq_zero_iff, KeyClass.bigint.injEq]

theorem sameValueZero_iff (bigints : BigIntCells) (a b : Value) :
    csValuesSameValueZero bigints a b = true ↔ keyClass bigints a = keyClass bigints b := by
  cases a with
  | number x =>
      cases b with
      | number y =>
          simp only [csValuesSameValueZero, keyClass, KeyClass.number.injEq]
          exact sameNumbers_iff x y
      | obj y => cases big : y.asBigInt <;>
          simp [csValuesSameValueZero, csValuesStrictEqual, keyClass, big]
      | _ => simp [csValuesSameValueZero, csValuesStrictEqual, keyClass]
  | obj x =>
      cases b with
      | obj y =>
          simp only [csValuesSameValueZero]
          exact sameObjects_iff bigints x y
      | _ => cases big : x.asBigInt <;>
          simp [csValuesSameValueZero, csValuesStrictEqual, keyClass, big]
  | _ =>
      cases b with
      | obj y => cases big : y.asBigInt <;>
          simp [csValuesSameValueZero, csValuesStrictEqual, keyClass, big]
      | _ => simp [csValuesSameValueZero, csValuesStrictEqual, keyClass]

theorem sameValueZero_equivalence (bigints : BigIntCells) :
    Equivalence (fun a b => csValuesSameValueZero bigints a b = true) where
  refl a := (sameValueZero_iff bigints a a).mpr rfl
  symm {a b} same :=
    (sameValueZero_iff bigints b a).mpr ((sameValueZero_iff bigints a b).mp same).symm
  trans {a b c} first second :=
    (sameValueZero_iff bigints a c).mpr
      (((sameValueZero_iff bigints a b).mp first).trans ((sameValueZero_iff bigints b c).mp second))

/-! ### The hash -/

def HashRespects (bigints : BigIntCells) : Prop :=
  ∀ a b, csValuesSameValueZero bigints a b = true → hashValue a = hashValue b

private theorem hashNumber_eq (number : Double) :
    hashValue (.number number) =
      match number.collapse with
      | none => 0x7ff80000
      | some collapsed => foldBits collapsed.bits := by
  simp only [hashValue, Double.eq_self_iff, Bool.not_not]
  unfold Double.collapse
  cases nan : number.isNaN with
  | true => rfl
  | false =>
      have zero : number.eq ⟨0⟩ = number.isZero := by
        unfold Double.eq
        have plain : (⟨0⟩ : Double).isNaN = false := rfl
        have isZero : (⟨0⟩ : Double).isZero = true := rfl
        rw [nan, plain, isZero]
        by_cases same : number = ⟨0⟩
        · subst same; rfl
        · simp [same]
      rw [zero]
      cases number.isZero <;> rfl

theorem asBigInt_eq_some {object : Obj} {address : Nat}
    (big : object.asBigInt = some address) : object = .cell .bigint address := by
  unfold Obj.asBigInt at big
  split at big
  · cases big; rfl
  · cases big

private theorem keyClass_inv (bigints : BigIntCells) (a : Value) :
    (∃ x, a = .number x ∧ keyClass bigints a = .number x.collapse) ∨
      (∃ x, a = .obj (.cell .bigint x) ∧ keyClass bigints a = .bigint (bigints x)) ∨
      keyClass bigints a = .other a := by
  cases a with
  | number x => exact Or.inl ⟨x, rfl, rfl⟩
  | obj object =>
      cases big : object.asBigInt with
      | none => exact Or.inr (Or.inr (by simp only [keyClass, big]))
      | some address =>
          rw [asBigInt_eq_some big]
          exact Or.inr (Or.inl ⟨address, rfl, rfl⟩)
  | _ => exact Or.inr (Or.inr rfl)

private theorem keyClass_cases {bigints : BigIntCells} {a b : Value}
    (same : keyClass bigints a = keyClass bigints b) :
    (∃ x y, a = .number x ∧ b = .number y ∧ x.collapse = y.collapse) ∨
      (∃ x y, a = .obj (.cell .bigint x) ∧ b = .obj (.cell .bigint y) ∧
        bigints x = bigints y) ∨
      a = b := by
  rcases keyClass_inv bigints a with ⟨x, aEq, aClass⟩ | ⟨x, aEq, aClass⟩ | aClass <;>
    rcases keyClass_inv bigints b with ⟨y, bEq, bClass⟩ | ⟨y, bEq, bClass⟩ | bClass <;>
    rw [aClass, bClass] at same
  · exact Or.inl ⟨x, y, aEq, bEq, KeyClass.number.inj same⟩
  · cases same
  · cases same
  · cases same
  · exact Or.inr (Or.inl ⟨x, y, aEq, bEq, KeyClass.bigint.inj same⟩)
  · cases same
  · cases same
  · cases same
  · exact Or.inr (Or.inr (KeyClass.other.inj same))

/-- The hash can only part two equal keys when they are BigInts: their hash is
the address and not the number. -/
theorem hashRespects_iff (bigints : BigIntCells) :
    HashRespects bigints ↔
      ∀ x y, bigints x = bigints y →
        foldBits (UInt64.ofNat x) = foldBits (UInt64.ofNat y) := by
  constructor
  · intro respects x y same
    exact respects (.obj (.cell .bigint x)) (.obj (.cell .bigint y))
      ((sameValueZero_iff bigints _ _).mpr (congrArg KeyClass.bigint same))
  · intro cells a b same
    rcases keyClass_cases ((sameValueZero_iff bigints a b).mp same) with
      ⟨x, y, rfl, rfl, collapsed⟩ | ⟨x, y, rfl, rfl, contents⟩ | rfl
    · rw [hashNumber_eq, hashNumber_eq, collapsed]
    · exact cells x y contents
    · rfl

end CScript
