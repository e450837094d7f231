/-
The numbers of std:decimal.

A Decimal is a whole number of units at a scale.  Numbers are rationals here, so
what the class computes is exact as long as the guard lets it pass; what is proved
is that it computes the number it is asked for, or throws.
-/

import CScript.Foundation.RoundingModes
import CScript.Runtime.Value
import Mathlib.Data.Nat.Digits.Lemmas

namespace CScript

open Rounding (Mode)

def SAFE : ℤ := 9007199254740991

structure Decimal where
  units : ℤ
  scale : ℕ
  safe : |units| ≤ SAFE
  deriving DecidableEq

namespace Decimal

abbrev Thrown (α : Type) : Type := Except (List UInt8) α

/-! ### The parts everything rests on -/

def pastRange : List UInt8 :=
  ascii ("a Decimal has gone past the exact range of a number (2^53): " ++
    "the result would quietly lose its last digits")

def guard (units : ℚ) : Thrown Unit :=
  if SAFE < units ∨ units < -SAFE then .error pastRange else .ok ()

def new (units : ℚ) (scale : ℤ) : Thrown Decimal :=
  if units ≠ ⌊units⌋ ∨ scale < 0 then
    .error (ascii "a Decimal is a whole number of units at a whole scale")
  else if safe : |⌊units⌋| ≤ SAFE then
    .ok { units := ⌊units⌋, scale := scale.toNat, safe := safe }
  else .error pastRange

/-- `Math.pow(10, exponent)`. -/
def pow (exponent : ℤ) : ℚ :=
  10 ^ exponent

/-- `units / divisor`, rounded by name. -/
def roundUnits (units divisor : ℚ) (mode : String) : Thrown ℤ := do
  let negative := units < 0
  let size := if negative then -units else units
  let whole := ⌊size / divisor⌋
  let remainder := size - whole * divisor
  let twice := remainder * 2
  let rounded ←
    if mode = "down" then .ok whole
    else if mode = "up" then .ok (if remainder = 0 then whole else whole + 1)
    else if mode = "floor" then
      .ok (if negative ∧ remainder ≠ 0 then whole + 1 else whole)
    else if mode = "ceil" then
      .ok (if negative ∨ remainder = 0 then whole else whole + 1)
    else if mode = "half-even" then
      .ok (if divisor < twice then whole + 1
        else if twice = divisor then if whole % 2 = 0 then whole else whole + 1
        else whole)
    else if mode = "half-up" then .ok (if divisor ≤ twice then whole + 1 else whole)
    else .error (ascii "unknown rounding mode '" ++ ascii mode ++ ascii "'")
  return if negative then -rounded else rounded

/-! ### Text -/

def isSpace (c : UInt8) : Bool :=
  c = 32 || c = 9 || c = 10 || c = 13 || c = 12 || c = 11

def trim (text : List UInt8) : List UInt8 :=
  ((text.dropWhile isSpace).reverse.dropWhile isSpace).reverse

def isDigits (text : List UInt8) : Bool :=
  text ≠ [] && text.all (fun code => 48 ≤ code && code ≤ 57)

/-- The loop over the digits. -/
def readUnits : List UInt8 → ℚ → Thrown ℚ
  | [], units => .ok units
  | code :: rest, units => do
      let units := units * 10 + ((code.toNat : ℚ) - 48)
      guard units
      readUnits rest units

def parse (text : List UInt8) : Thrown Decimal := do
  let notDecimal := ascii "'" ++ text ++ ascii "' is not a decimal"
  let trimmed := trim text
  let negative := trimmed.head? = some '-'.toUInt8
  let body := if negative ∨ trimmed.head? = some '+'.toUInt8 then trimmed.tail else trimmed
  if body = [] then .error notDecimal
  else
    let whole := body.takeWhile (fun c => c ≠ '.'.toUInt8)
    let fraction := (body.dropWhile (fun c => c ≠ '.'.toUInt8)).tail
    if isDigits whole = false ∧ whole ≠ [] then .error notDecimal
    else if fraction ≠ [] ∧ isDigits fraction = false then .error notDecimal
    else do
      let digits := (if whole = [] then ascii "0" else whole) ++ fraction
      let units ← readUnits digits 0
      new (if negative then -units else units) fraction.length

/-- `String(n)` of a whole number that is not negative. -/
def natText (n : ℕ) : List UInt8 :=
  if n = 0 then ascii "0" else (Nat.digits 10 n).reverse.map (fun digit => UInt8.ofNat (48 + digit))

def toString (decimal : Decimal) : List UInt8 :=
  let sign := if decimal.units < 0 then ascii "-" else []
  let digits := natText decimal.units.natAbs
  if decimal.scale = 0 then sign ++ digits
  else
    let padded := List.replicate (decimal.scale + 1 - digits.length) '0'.toUInt8 ++ digits
    let whole := padded.take (padded.length - decimal.scale)
    let fraction := padded.drop (padded.length - decimal.scale)
    sign ++ whole ++ ascii "." ++ fraction

/-! ### Operands -/

/-- `Decimal.of` a number; `Math.round` is `floor(x + 0.5)`. -/
def of (value : ℚ) (scale : ℤ) : Thrown Decimal :=
  new ⌊value * pow scale + 1 / 2⌋ scale

inductive Operand where
  | decimal (value : Decimal)
  | text (value : List UInt8)
  | number (value : ℚ)

def asDecimal (value : Operand) (scale : ℕ) : Thrown Decimal :=
  match value with
  | .text value => parse value
  | .number value => if value = ⌊value⌋ then new value 0 else of value scale
  | .decimal value => .ok value

def align (left : Decimal) (right : Operand) : Thrown (ℚ × ℚ × ℕ) := do
  let other ← asDecimal right left.scale
  let scale := if other.scale < left.scale then left.scale else other.scale
  let leftUnits := left.units * pow (scale - left.scale)
  let rightUnits := other.units * pow (scale - other.scale)
  guard leftUnits
  guard rightUnits
  return (leftUnits, rightUnits, scale)

/-! ### Arithmetic -/

def add (left : Decimal) (other : Operand) : Thrown Decimal := do
  let (leftUnits, rightUnits, scale) ← align left other
  new (leftUnits + rightUnits) scale

def subtract (left : Decimal) (other : Operand) : Thrown Decimal := do
  let (leftUnits, rightUnits, scale) ← align left other
  new (leftUnits - rightUnits) scale

def multiply (left : Decimal) (other : Operand) : Thrown Decimal := do
  let right ← asDecimal other left.scale
  let product : ℚ := left.units * right.units
  guard product
  new product (left.scale + right.scale)

/-- The scale of the receiver where none is given. -/
def divide (left : Decimal) (other : Operand) (scale : Option ℤ) (mode : String) :
    Thrown Decimal := do
  let right ← asDecimal other left.scale
  if right.units = 0 then .error (ascii "division by zero")
  else
    let places := scale.getD left.scale
    let factor := pow (places - left.scale + right.scale + 2)
    let scaled := left.units * factor
    guard scaled
    let quotient := scaled / right.units
    let rounded ← roundUnits quotient 100 mode
    new rounded places

def negate (decimal : Decimal) : Thrown Decimal :=
  new (-decimal.units) decimal.scale

def abs (decimal : Decimal) : Thrown Decimal :=
  if decimal.units < 0 then negate decimal else .ok decimal

def intText (n : ℤ) : List UInt8 :=
  if n < 0 then ascii "-" ++ natText n.natAbs else natText n.natAbs

def rescale (decimal : Decimal) (scale : ℤ) : Thrown Decimal :=
  if scale < decimal.scale then
    .error (ascii "rescale cannot lose digits: use round(" ++ intText scale ++ ascii ")")
  else do
    let units := decimal.units * pow (scale - decimal.scale)
    guard units
    new units scale

def round (decimal : Decimal) (scale : ℤ) (mode : String) : Thrown Decimal :=
  if decimal.scale ≤ scale then rescale decimal scale
  else do
    let units ← roundUnits decimal.units (pow (decimal.scale - scale)) mode
    new units scale

def compare (left : Decimal) (other : Operand) : Thrown ℤ := do
  let (leftUnits, rightUnits, _) ← align left other
  return if leftUnits < rightUnits then -1 else if rightUnits < leftUnits then 1 else 0

def equals (left : Decimal) (other : Operand) : Thrown Bool := do
  let order ← compare left other
  return order = 0

end Decimal

end CScript
