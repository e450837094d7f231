/-
Arbitrary-precision integers, sign and magnitude.

The magnitude is a list of 32-bit limbs, least significant first.  The limbs are
computed through 64-bit intermediates, and an intermediate that would leave its
machine type makes the operation `none` here.  Limb counts are unbounded and
every allocation succeeds.
-/

import Mathlib.Data.Nat.Digits.Defs
import Mathlib.Tactic.Common

namespace CScript

structure BigInt where
  limbs : List UInt32
  negative : Bool
  deriving DecidableEq, Repr

def BigInt.count (value : BigInt) : Nat :=
  value.limbs.length

/-! ### Machine arithmetic that does not wrap -/

def plus64 (x y : UInt64) : Option UInt64 :=
  if x.toNat + y.toNat < 2 ^ 64 then some (x + y) else none

def times64 (x y : UInt64) : Option UInt64 :=
  if x.toNat * y.toNat < 2 ^ 64 then some (x * y) else none

def plus32 (x y : UInt32) : Option UInt32 :=
  if x.toNat + y.toNat < 2 ^ 32 then some (x + y) else none

/-- The value of an `int64_t` expression. -/
def signed64 (value : Int) : Option Int :=
  if -2 ^ 63 ≤ value ∧ value < 2 ^ 63 then some value else none

/-- `(uint32_t)(value & 0xffffffffu)`. -/
def lowLimb (value : UInt64) : UInt32 :=
  (value &&& 0xffffffff).toUInt32

/-! ### The representation -/

def trimCount (limbs : List UInt32) : Nat → Nat
  | 0 => 0
  | count + 1 => if limbs[count]? = some 0 then trimCount limbs count else count + 1

def trim (value : BigInt) : BigInt :=
  let count := trimCount value.limbs value.count
  { limbs := value.limbs.take count
    negative := if count = 0 then false else value.negative }

def reserve (count : Nat) : BigInt :=
  { limbs := List.replicate count 0
    negative := false }

def csBigIsZero (value : BigInt) : Bool :=
  value.count == 0

def csBigFromInt64 (value : Int64) : BigInt :=
  let negative := decide (value < 0)
  -- Negated as unsigned, so the most negative value does not overflow.
  let magnitude := if negative then ~~~value.toUInt64 + 1 else value.toUInt64
  trim { limbs := [lowLimb magnitude, (magnitude >>> 32).toUInt32], negative := negative }

/-! ### Magnitudes -/

/-- `if (i < count) sum += limbs[i]`. -/
def addLimb (limbs : List UInt32) (i : Nat) (sum : UInt64) : Option UInt64 :=
  match limbs[i]? with
  | none => some sum
  | some limb => plus64 sum limb.toUInt64

/-- The loop of `addMagnitude` from limb `i` on, for the given number of
steps: the limbs written and the carry left. -/
def addLimbs (a b : List UInt32) : Nat → Nat → UInt64 → Option (List UInt32 × UInt64)
  | 0, _, carry => some ([], carry)
  | steps + 1, i, carry => do
      let sum ← addLimb a i carry
      let sum ← addLimb b i sum
      let (limbs, last) ← addLimbs a b steps (i + 1) (sum >>> 32)
      return (lowLimb sum :: limbs, last)

def addMagnitude (a b : BigInt) : Option BigInt := do
  let longest := if a.count > b.count then a.count else b.count
  let (limbs, carry) ← addLimbs a.limbs b.limbs longest 0 0
  return trim { limbs := limbs ++ [carry.toUInt32], negative := false }

/-- The loop of `compareMagnitude`, from the top limb down. -/
def compareLimbs (a b : List UInt32) : Nat → Int
  | 0 => 0
  | i + 1 =>
      if a.getD i 0 ≠ b.getD i 0 then (if a.getD i 0 < b.getD i 0 then -1 else 1)
      else compareLimbs a b i

def compareMagnitude (a b : BigInt) : Int :=
  if a.count ≠ b.count then (if a.count < b.count then -1 else 1)
  else compareLimbs a.limbs b.limbs a.count

/-- The loop of `subtractMagnitude` from limb `i` on. -/
def subtractLimbs (a b : List UInt32) : Nat → Nat → Int → Option (List UInt32)
  | 0, _, _ => some []
  | steps + 1, i, borrow => do
      let limb ← a[i]?
      let difference ← signed64 (limb.toNat - borrow - (b.getD i 0).toNat)
      if difference < 0 then
        let difference ← signed64 (difference + 2 ^ 32)
        let limbs ← subtractLimbs a b steps (i + 1) 1
        return UInt32.ofNat difference.toNat :: limbs
      else
        let limbs ← subtractLimbs a b steps (i + 1) 0
        return UInt32.ofNat difference.toNat :: limbs

def subtractMagnitude (a b : BigInt) : Option BigInt := do
  let limbs ← subtractLimbs a.limbs b.limbs a.count 0 0
  return trim { limbs := limbs, negative := false }

/-! ### The ring operations -/

def csBigAdd (a b : BigInt) : Option BigInt :=
  if a.negative = b.negative then do
    let sum ← addMagnitude a b
    return trim { sum with negative := a.negative }
  else
    let order := compareMagnitude a b
    if order = 0 then some (reserve 0)
    else do
      let larger := if order > 0 then a else b
      let smaller := if order > 0 then b else a
      let difference ← subtractMagnitude larger smaller
      return trim { difference with negative := larger.negative }

def csBigNegate (value : BigInt) : BigInt :=
  if csBigIsZero value then value else { value with negative := !value.negative }

/-- The copy of `b` is flipped exactly as `csBigNegate` flips it. -/
def csBigSubtract (a b : BigInt) : Option BigInt :=
  let flipped := if csBigIsZero b then b else { b with negative := !b.negative }
  csBigAdd a flipped

/-- The inner loop of `csBigMultiply` from limb `j` of `b` on: the product so
far and the carry. -/
def multiplyRow (limb : UInt32) (b : List UInt32) (i : Nat) :
    Nat → Nat → UInt64 → List UInt32 → Option (List UInt32 × UInt64)
  | 0, _, carry, product => some (product, carry)
  | steps + 1, j, carry, product => do
      let held ← product[i + j]?
      let factor ← b[j]?
      let scaled ← times64 limb.toUInt64 factor.toUInt64
      let sum ← plus64 held.toUInt64 scaled
      let total ← plus64 sum carry
      multiplyRow limb b i steps (j + 1) (total >>> 32) (product.set (i + j) (lowLimb total))

/-- The outer loop of `csBigMultiply` from limb `i` of `a` on. -/
def multiplyRows (a b : List UInt32) : Nat → Nat → List UInt32 → Option (List UInt32)
  | 0, _, product => some product
  | steps + 1, i, product => do
      let limb ← a[i]?
      let (product, carry) ← multiplyRow limb b i b.length 0 0 product
      let held ← product[i + b.length]?
      let top ← plus32 held carry.toUInt32
      multiplyRows a b steps (i + 1) (product.set (i + b.length) top)

def csBigMultiply (a b : BigInt) : Option BigInt :=
  if csBigIsZero a || csBigIsZero b then some (reserve 0)
  else do
    let product ← multiplyRows a.limbs b.limbs a.count 0 (reserve (a.count + b.count)).limbs
    return trim { limbs := product, negative := a.negative != b.negative }

/-- The loop of `csBigPower` over the exponent's bits below `i`, from the top. -/
def powerBits (base exponent : BigInt) : Nat → BigInt → Option BigInt
  | 0, result => some result
  | i + 1, result => do
      let squared ← csBigMultiply result result
      let limb ← exponent.limbs[i / 32]?
      if (limb >>> UInt32.ofNat (i % 32)) &&& 1 ≠ 0 then
        let scaled ← csBigMultiply squared base
        powerBits base exponent i scaled
      else powerBits base exponent i squared

/-- The inner option is the answer, or the refusal of a negative exponent. -/
def csBigPower (base exponent : BigInt) : Option (Option BigInt) :=
  if exponent.negative then some none
  else do
    let result ← powerBits base exponent (exponent.count * 32) (csBigFromInt64 1)
    return some result

def csBigCompare (a b : BigInt) : Int :=
  if a.negative ≠ b.negative then (if a.negative then -1 else 1)
  else
    let order := compareMagnitude a b
    if a.negative then -order else order

end CScript
