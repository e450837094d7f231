/-
Types, and the table behind the composite ones: a type is a primitive kind or an
index into the table.
-/

import CScript.Jit.Ir

namespace CScript.Typing

/-! ### The table -/

abbrev TypeId := Jit.TypeKind

/-- The `int` a type is. -/
def idOf : TypeId → Nat
  | .dynamic => 0
  | .unknown => 1
  | .number => 2
  | .bigint => 3
  | .string => 4
  | .boolean => 5
  | .null => 6
  | .undefined => 7
  | .function => 8
  | .array => 9
  | .object => 10
  | .never => 11
  | .error => 12
  | .composite index => 32 + index

theorem idOf_inj {left right : TypeId} (same : idOf left = idOf right) : left = right := by
  have back (type : TypeId) : [.dynamic, .unknown, .number, .bigint, .string, .boolean, .null,
      .undefined, .function, .array, .object, .never, .error].getD (idOf type)
        (.composite (idOf type - 32)) = type := by
    cases type with
    | composite index =>
        exact (List.getD_eq_default _ _ (Nat.le_add_right_of_le (by decide))).trans
          (congrArg _ (Nat.add_sub_cancel_left ..))
    | _ => rfl
  exact (back left).symm.trans (same ▸ back right)

structure TypeMember where
  name : List UInt8
  type : TypeId
  optional : Bool
  deriving DecidableEq, Repr

/-- A run of a pool is the list of what it holds.  Types that wait for a variable
to be known are `unevaluated`. -/
inductive CompositeType where
  | interface (members : List TypeMember) (indexValue : TypeId)
  | array (inner : TypeId)
  | tuple (slots : List TypeId)
  | function (slots : List TypeId) (requiredCount : Nat) (inner : TypeId)
  | union (slots : List TypeId)
  | typevar (inner : TypeId)
  | literal (text : List UInt8)
  | numberLiteral (value : Double)
  | unevaluated
  deriving DecidableEq, Repr

structure TypeTable where
  composites : List CompositeType
  deriving DecidableEq, Repr

def csTypeIsComposite : TypeId → Bool
  | .composite _ => true
  | _ => false

def csTypeComposite (table : TypeTable) : TypeId → Option CompositeType
  | .composite index => table.composites[index]?
  | _ => none

end CScript.Typing
