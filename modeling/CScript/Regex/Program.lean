/-
The program a pattern is compiled to.
-/

import CScript.Runtime.Value

namespace CScript

/-! ### Instructions -/

inductive ReOp where
  | char
  | any
  | class_
  | split
  | jump
  | save
  | assertBol
  | assertEol
  | assertWord
  | backref
  | look
  | lookbehind
  | lookEnd
  | match_
  deriving DecidableEq, Repr

structure ReInst where
  op : ReOp
  x : Nat
  y : Nat
  deriving DecidableEq, Repr

/-! ### Classes -/

structure ReClass where
  bits : BitVec 256
  deriving DecidableEq, Repr

def emptyClass : ReClass :=
  { bits := 0 }

def classAdd (set : ReClass) (byte : UInt8) : ReClass :=
  { bits := set.bits ||| (1#256 <<< byte.toNat) }

def csRegexClassHas (set : ReClass) (byte : UInt8) : Bool :=
  set.bits.getLsbD byte.toNat

def classAddRange (set : ReClass) (low high : UInt8) : ReClass :=
  (List.range' low.toNat (high.toNat + 1 - low.toNat)).foldl
    (fun filled c => classAdd filled (UInt8.ofNat c)) set

def negate (set : ReClass) : ReClass :=
  { bits := ~~~set.bits }

def csRegexIsWordByte (c : UInt8) : Bool :=
  ('a'.toUInt8 ≤ c && c ≤ 'z'.toUInt8) || ('A'.toUInt8 ≤ c && c ≤ 'Z'.toUInt8) ||
    ('0'.toUInt8 ≤ c && c ≤ '9'.toUInt8) || c = '_'.toUInt8

/-! ### The program -/

structure ReGroupName where
  name : List UInt8
  group : Nat
  deriving DecidableEq, Repr

structure Regex where
  code : List ReInst
  classes : List ReClass
  /-- Group 0, the whole match, included. -/
  groupCount : Nat
  names : List ReGroupName
  ignoreCase : Bool
  multiline : Bool
  dotAll : Bool
  deriving DecidableEq, Repr

def CS_REGEX_MAX_GROUPS : Nat := 32

def CS_REGEX_MAX_STEPS : Nat := 1000000

/-- `regex->count`. -/
def Regex.count (regex : Regex) : Nat :=
  regex.code.length

def emit (regex : Regex) (op : ReOp) (x y : Nat) : Regex :=
  { regex with code := regex.code ++ [{ op := op, x := x, y := y }] }

def addClass (regex : Regex) (set : ReClass) : Regex :=
  { regex with classes := regex.classes ++ [set] }

def patchX (regex : Regex) (at_ x : Nat) : Regex :=
  { regex with code := regex.code.modify at_ (fun inst => { inst with x := x }) }

def patchY (regex : Regex) (at_ y : Nat) : Regex :=
  { regex with code := regex.code.modify at_ (fun inst => { inst with y := y }) }

end CScript
