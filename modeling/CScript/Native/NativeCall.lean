/-
What the natives share: how they fail, and how they take an argument.
-/

import CScript.Runtime.Rendering

namespace CScript.NativeCall

open Rendering

inductive Failure (Ref : Type) where
  /-- What a callback threw. -/
  | thrown (value : Shown Ref)
  | runtimeError (message : List UInt8)

variable {Ref : Type}

def csValueTypeName : Shown Ref → List UInt8
  | .number _ => ascii "number"
  | .bool _ => ascii "boolean"
  | .undefined => ascii "undefined"
  | .null => ascii "null"
  | .string _ => ascii "string"
  | .callable _ => ascii "function"
  | .symbol _ => ascii "symbol"
  | .bigint _ => ascii "bigint"
  | _ => ascii "object"

def csValueIsCallable : Shown Ref → Bool
  | .callable _ => true
  | _ => false

def csNativeStringArg (args : List (Shown Ref)) (position : Nat) (method : List UInt8) :
    Except (Failure Ref) (List UInt8) :=
  match args[position]? with
  | some (.string s) => .ok s.chars
  | given =>
      .error (.runtimeError (method ++ ascii " expects a string, got " ++
        given.elim (ascii "no argument") csValueTypeName))

/-! ### A heap with nothing in it -/

def emptyGraph : Graph Unit where
  arrays := fun _ => []
  objects := fun _ => ⟨none, false, none, []⟩
  maps := fun _ => ⟨false, false, 0, []⟩
  promises := fun _ => .pending

def noDigits (_ : Double) : Digits :=
  ⟨[], 0⟩

end CScript.NativeCall
