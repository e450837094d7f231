/-
The typed IR, and what a compiled body takes for granted.

A lowered function carries its blocks and, beside them, everything that was read
from the running program while it was lowered: the layouts its property accesses
use, the closures it calls or has spliced in, and the addresses of the globals
it reads.  A heap here is what those assumptions are asked of.
-/

import CScript.Runtime.PropertyOps

namespace CScript.Jit

/-! ### Functions -/

inductive TypeKind where
  | dynamic
  | unknown
  | number
  | bigint
  | string
  | boolean
  | null
  | undefined
  | function
  | array
  | object
  | never
  | error
  | composite (index : Nat)
  deriving DecidableEq, Repr

inductive ParamSeen where
  | unseen
  | number
  | mixed
  deriving DecidableEq, Repr

inductive JitState where
  | interpreted
  | hot
  | compiled
  | refused
  deriving DecidableEq, Repr

/-- `address` tells one function from another; a slot the tiering has not given
yet is `none`. -/
structure ObjFunction where
  address : Nat
  name : Option ObjString
  arity : Nat
  paramCount : Nat
  hasRest : Bool
  isAsync : Bool
  isMethod : Bool
  isGenerator : Bool
  usesThis : Bool
  paramTypes : Option (List TypeKind)
  observedParams : Option (List ParamSeen)
  returnType : TypeKind
  jitState : JitState
  jitSlot : Option Nat
  deriving DecidableEq, Repr

/-! ### Instructions -/

inductive IrType where
  | unknown
  | number
  | bool
  deriving DecidableEq, Repr

inductive IrArith where
  | add
  | sub
  | mul
  | div
  | mod
  deriving DecidableEq, Repr

inductive IrCompare where
  | lt
  | le
  | gt
  | ge
  | eq
  | ne
  deriving DecidableEq, Repr

/-- One constructor an opcode, its fields named by what the opcode puts in them.
Arithmetic is always typed a number and a comparison a boolean; a jump names no
block where the offset it would land on begins none. -/
inductive IrInst where
  | const (result : Nat) (constant : Value) (type : IrType)
  | loadLocal (result slot : Nat) (type : IrType)
  | storeLocal (slot value : Nat)
  | arith (op : IrArith) (result left right : Nat)
  | neg (result operand : Nat)
  | compare (op : IrCompare) (result left right : Nat)
  | loadGlobal (result name : Nat)
  | storeGlobal (name value : Nat)
  | loadProperty (result slot property : Nat)
  | storeProperty (slot value property : Nat)
  | addProperty (slot value property shape : Nat)
  | newObject (slot literal : Nat)
  | call (slot site : Nat)
  | jump (target : Option Nat)
  | branch (condition : Nat) (holds fails : Option Nat)
  | return_ (value : Nat)
  | exit (offset height : Nat)
  | guardShape (slot guard : Nat)
  deriving DecidableEq, Repr

structure IrBlock where
  instructions : List IrInst
  bytecodeStart : Nat
  deriving DecidableEq, Repr

/-! ### What was recorded while lowering -/

structure IrEntryShape where
  slot : Nat
  shape : Nat
  property : Option Nat
  atSite : Bool
  numberSlots : UInt32
  deoptOffset : Nat
  deoptHeight : Nat
  minimumCapacity : Nat
  expectsNumber : Bool
  deriving DecidableEq, Repr

/-- `globals` is the module whose table the binding lives in, and `callee` the
address of the closure whose body will run. -/
structure IrCallSite where
  globals : Nat
  name : ObjString
  callee : Nat
  argCount : Nat
  deriving DecidableEq, Repr

structure IrInlinedCall where
  globals : Nat
  name : ObjString
  callee : Nat
  deriving DecidableEq, Repr

structure IrFunction where
  source : ObjFunction
  blocks : List IrBlock
  registerTypes : List IrType
  slotCount : Nat
  slotTypes : List IrType
  hasExits : Bool
  entryShapes : List IrEntryShape
  calls : List IrCallSite
  literals : List (List ObjString)
  inlined : List IrInlinedCall
  blockEntryTypes : List (List IrType)
  blockEntrySeeded : List Bool
  blockEntryTrusted : Bool
  deriving Repr

/-! ### The heap the assumptions are asked of -/

structure JitHeap where
  objects : List ObjObject
  shapes : List Shape
  modules : List Table
  deriving DecidableEq, Repr

def isNumber : Value → Bool
  | .number _ => true
  | _ => false

/-- `AS_OBJECT`, where `IS_OBJECT` holds. -/
def objectAt (heap : JitHeap) : Value → Option ObjObject
  | .obj (.cell .object address) => heap.objects[address]?
  | _ => none

def closureAddress : Value → Option Nat
  | .obj (.cell .closure address) => some address
  | _ => none

def holdsNumber (values : List (Option Value)) (index : Nat) : Bool :=
  match values[index]? with
  | some (some value) => isNumber value
  | _ => false

def shapeSlotCount (heap : JitHeap) (shape : Nat) : Nat :=
  match heap.shapes[shape]? with
  | some layout => layout.slotCount
  | none => 0

def maskHolds (numberSlots : UInt32) (slotCount : Nat) (values : List (Option Value)) : Bool :=
  (List.range 32).all fun index =>
    !numberSlots.toNat.testBit index || (decide (index < slotCount) && holdsNumber values index)

def shapeRecordHolds (heap : JitHeap) (assumed : IrEntryShape) (slots : List Value) : Bool :=
  match slots[assumed.slot]? with
  | none => false
  | some held =>
      match objectAt heap held with
      | none => false
      | some object =>
          match object.layout with
          | .dictionary _ _ => false
          | .slots shape values =>
              if shape ≠ assumed.shape then false
              else if values.length < assumed.minimumCapacity then false
              else if assumed.atSite then
                maskHolds assumed.numberSlots (shapeSlotCount heap shape) values
              else
                match assumed.property with
                | none => true
                | some property =>
                    decide (property < shapeSlotCount heap shape) &&
                      (!assumed.expectsNumber || holdsNumber values property)

/-- Called from compiled code, once a guarded read. -/
def csJitShapeHolds (heap : JitHeap) (slots : List Value) (guard : IrEntryShape) : Bool :=
  shapeRecordHolds heap guard slots

/-- A site guard says nothing about the frame on the way in. -/
def csIrEntryShapesHold (heap : JitHeap) (entryShapes : List IrEntryShape)
    (slots : List Value) : Bool :=
  entryShapes.all fun assumed => assumed.atSite || shapeRecordHolds heap assumed slots

/-- What a name of a module means now: the inner option is whether it is bound. -/
def bindingOf (heap : JitHeap) (module : Nat) (name : ObjString) : Option (Option Value) := do
  let globals ← heap.modules[module]?
  csTableGet globals name

def calleeHolds (heap : JitHeap) (module : Nat) (name : ObjString) (callee : Nat) : Bool :=
  match bindingOf heap module name with
  | some (some current) => decide (closureAddress current = some callee)
  | _ => false

def csIrInlinedCalleesHold (heap : JitHeap) (inlined : List IrInlinedCall) : Bool :=
  inlined.all fun call => calleeHolds heap call.globals call.name call.callee

end CScript.Jit
