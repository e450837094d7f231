/-
A frame of the interpreter while it runs a chunk.

The locals are the bottom of the operand stack, so one array holds both, and
above the height it holds whatever was there before.  A slot that a closure has
captured is written from outside the frame: by anything a call runs, and `+`
calls `toString` on an object.  An instruction that throws does not complete.
-/

import CScript.Compiler.Bytecode
import CScript.Runtime.BigIntNumbers

namespace CScript.Jit

open Compile (OpCode)

/-! ### Chunks at run time -/

/-- `upvalueCount` is asked of the functions among the constants. -/
structure Bytecode where
  code : List UInt8
  constants : List Value
  upvalueCount : Nat → Nat

namespace Bytecode

def opcode? (chunk : Bytecode) (offset : Nat) : Option OpCode :=
  OpCode.ofByte? (chunk.code.getD offset 0)

def byte (chunk : Bytecode) (offset : Nat) : Nat :=
  (chunk.code.getD offset 0).toNat

def short (chunk : Bytecode) (offset : Nat) : Nat :=
  chunk.byte offset * 256 + chunk.byte (offset + 1)

def closurePairs (chunk : Bytecode) (index : Nat) : Nat :=
  match chunk.constants[index]? with
  | some (.obj (.cell .function address)) => chunk.upvalueCount address
  | _ => 0

/-- The offset just past the instruction. -/
def csInstructionLength (chunk : Bytecode) (offset : Nat) : Nat :=
  match chunk.opcode? offset with
  | none => offset + 1
  | some op =>
      let next := offset + 1 + op.layout.operandBytes
      if op.layout = .closure then next + 2 * chunk.closurePairs (chunk.short (offset + 1))
      else next

/-- `READ_STRING`. -/
def name? (chunk : Bytecode) (offset : Nat) : Option ObjString :=
  match chunk.constants[chunk.short offset]? with
  | some (.obj (.string name)) => some name
  | _ => none

/-- The pairs of an `OP_CLOSURE` say which slots of this frame it captures. -/
def captures (chunk : Bytecode) (offset slot : Nat) : Bool :=
  (List.range (chunk.closurePairs (chunk.short (offset + 1)))).any fun i =>
    chunk.byte (offset + 3 + 2 * i) ≠ 0 && chunk.byte (offset + 4 + 2 * i) = slot

end Bytecode

/-! ### Frames -/

/-- `captured` marks the slots an open upvalue points at; the globals and the
cells are outside the frame. -/
structure Frame where
  ip : Nat
  height : Nat
  slots : Nat → Value
  captured : Nat → Bool
  globals : ObjString → Option Value
  globalConsts : ObjString → Bool
  cells : Cells

namespace Frame

def push (frame : Frame) (value : Value) : Frame :=
  { frame with
    slots := Function.update frame.slots frame.height value
    height := frame.height + 1 }

def drop (frame : Frame) (count : Nat) : Frame :=
  { frame with height := frame.height - count }

def peek (frame : Frame) (distance : Nat) : Value :=
  frame.slots (frame.height - 1 - distance)

def setSlot (frame : Frame) (slot : Nat) (value : Value) : Frame :=
  { frame with slots := Function.update frame.slots slot value }

def setGlobal (frame : Frame) (name : ObjString) (value : Value) : Frame :=
  { frame with globals := Function.update frame.globals name (some value) }

def isBigInt (frame : Frame) (distance : Nat) : Bool :=
  (frame.peek distance).asBigInt.isSome

def replaceBigInt (frame : Frame) (count address : Nat) (result : BigInt) : Frame :=
  { (frame.drop count).push (.obj (.cell .bigint address)) with
    cells := { frame.cells with
      bigints := Function.update frame.cells.bigints address result } }

/-! ### Instructions that fall through -/

/-- `BINARY_ARITHMETIC_OP` and the like: of two numbers a number, of two BigInts
a BigInt. -/
def Computes (frame after : Frame) (operands : Nat) : Prop :=
  operands ≤ frame.height ∧
    ((∀ distance < operands, (frame.peek distance).asNumber.isSome) ∧
        (∃ result, after = (frame.drop operands).push (.number result)) ∨
      (∀ distance < operands, frame.isBigInt distance = true) ∧
        ∃ address result, after = frame.replaceBigInt operands address result)

/-- Code outside the frame has run and left an answer at `base`: below it only
captured slots can have changed, above it anything. -/
def Calls (frame after : Frame) (base : Nat) : Prop :=
  base < frame.height ∧ after.height = base + 1 ∧
    (∀ slot < base, after.captured slot = frame.captured slot ∧
      (frame.captured slot = false → after.slots slot = frame.slots slot))

def Compares (frame after : Frame) (op : CompareOp) : Prop :=
  2 ≤ frame.height ∧ ∃ answer,
    binaryCompare frame.cells.bigints op (frame.peek 1) (frame.peek 0) = some (.ok answer) ∧
      after = (frame.drop 2).push (.bool answer)

/-- `assignGlobal`, of the value on top. -/
def Assigns (frame after : Frame) (name : Option ObjString) : Prop :=
  1 ≤ frame.height ∧ ∃ global, name = some global ∧ frame.globalConsts global = false ∧
    (frame.globals global).isSome ∧ after = frame.setGlobal global (frame.peek 0)

/-- What the instruction at `frame.ip` can leave, the offset apart.  Only the
instructions a replay covers are here. -/
def Completes (chunk : Bytecode) (op : OpCode) (frame after : Frame) : Prop :=
  let operand := chunk.byte (frame.ip + 1)
  let name := chunk.name? (frame.ip + 1)
  match op with
  | .OP_CONSTANT => ∃ constant,
      chunk.constants[chunk.short (frame.ip + 1)]? = some constant ∧ after = frame.push constant
  | .OP_NULL => after = frame.push .null
  | .OP_UNDEFINED => after = frame.push .undefined
  | .OP_TRUE => after = frame.push (.bool true)
  | .OP_FALSE => after = frame.push (.bool false)
  | .OP_CLOSURE => ∃ address,
      after = { frame.push (.obj (.cell .closure address)) with
        captured := fun slot => frame.captured slot || chunk.captures frame.ip slot }
  | .OP_GET_GLOBAL => ∃ global value,
      name = some global ∧ frame.globals global = some value ∧ after = frame.push value
  | .OP_SET_GLOBAL => frame.Assigns after name
  | .OP_SET_GLOBAL_POP => ∃ assigned, frame.Assigns assigned name ∧ after = assigned.drop 1
  | .OP_DEFINE_GLOBAL => 1 ≤ frame.height ∧ ∃ global,
      name = some global ∧ after = (frame.setGlobal global (frame.peek 0)).drop 1
  | .OP_DEFINE_CONST => 1 ≤ frame.height ∧ ∃ global,
      name = some global ∧ after = { (frame.setGlobal global (frame.peek 0)).drop 1 with
        globalConsts := Function.update frame.globalConsts global true }
  | .OP_GET_LOCAL => after = frame.push (frame.slots operand)
  | .OP_GET_LOCAL_LOCAL =>
      let first := frame.push (frame.slots operand)
      after = first.push (first.slots (chunk.byte (frame.ip + 2)))
  | .OP_GET_LOCAL_CONST => ∃ constant,
      chunk.constants[chunk.short (frame.ip + 2)]? = some constant ∧
        after = (frame.push (frame.slots operand)).push constant
  | .OP_DUP => 1 ≤ frame.height ∧ after = frame.push (frame.peek 0)
  | .OP_POP => 1 ≤ frame.height ∧ after = frame.drop 1
  | .OP_POP_N => operand ≤ frame.height ∧ after = frame.drop operand
  | .OP_SET_LOCAL => 1 ≤ frame.height ∧ after = frame.setSlot operand (frame.peek 0)
  | .OP_SET_LOCAL_POP =>
      1 ≤ frame.height ∧ after = (frame.drop 1).setSlot operand (frame.peek 0)
  | .OP_INC_LOCAL | .OP_DEC_LOCAL =>
      (frame.slots operand).asNumber.isSome ∧
        ∃ result, after = frame.setSlot operand (.number result)
  | .OP_ADD_NUM => 2 ≤ frame.height ∧ ∃ result, after = (frame.drop 2).push (.number result)
  | .OP_SUBTRACT | .OP_MULTIPLY | .OP_DIVIDE | .OP_MODULO => frame.Computes after 2
  | .OP_NEGATE => frame.Computes after 1
  | .OP_ADD => 2 ≤ frame.height ∧ (frame.Computes after 2 ∨
      frame.Calls after (frame.height - 2) ∧ ∃ text, after.peek 0 = .obj (.string text))
  | .OP_LESS => frame.Compares after .less
  | .OP_LESS_EQUAL => frame.Compares after .lessEqual
  | .OP_GREATER => frame.Compares after .greater
  | .OP_GREATER_EQUAL => frame.Compares after .greaterEqual
  | .OP_EQUAL => 2 ≤ frame.height ∧ after = (frame.drop 2).push
      (.bool (csValuesStrictEqual frame.cells.bigints (frame.peek 1) (frame.peek 0)))
  | .OP_NOT_EQUAL => 2 ≤ frame.height ∧ after = (frame.drop 2).push
      (.bool (!csValuesStrictEqual frame.cells.bigints (frame.peek 1) (frame.peek 0)))
  | .OP_NOT => 1 ≤ frame.height ∧
      after = (frame.drop 1).push (.bool (!csValueIsTruthy frame.cells (frame.peek 0)))
  | .OP_CALL => operand + 1 ≤ frame.height ∧ frame.Calls after (frame.height - (operand + 1))
  | .OP_INVOKE => chunk.byte (frame.ip + 3) + 1 ≤ frame.height ∧
      frame.Calls after (frame.height - (chunk.byte (frame.ip + 3) + 1))
  | _ => False

/-! ### Jumps -/

/-- `COMPARE_JUMP` goes where the comparison does not hold. -/
def branchUnless (frame : Frame) (op : CompareOp) : Option (Bool × Nat) :=
  match binaryCompare frame.cells.bigints op (frame.peek 1) (frame.peek 0) with
  | some (.ok answer) => some (!answer, 2)
  | _ => none

def branches (frame : Frame) : OpCode → Option (Bool × Nat)
  | .OP_JUMP | .OP_LOOP => some (true, 0)
  | .OP_JUMP_IF_FALSE => some (!csValueIsTruthy frame.cells (frame.peek 0), 0)
  | .OP_JUMP_IF_TRUE => some (csValueIsTruthy frame.cells (frame.peek 0), 0)
  | .OP_POP_JUMP_IF_FALSE => some (!csValueIsTruthy frame.cells (frame.peek 0), 1)
  | .OP_JUMP_IF_NOT_LESS => frame.branchUnless .less
  | .OP_JUMP_IF_NOT_LESS_EQUAL => frame.branchUnless .lessEqual
  | .OP_JUMP_IF_NOT_GREATER => frame.branchUnless .greater
  | .OP_JUMP_IF_NOT_GREATER_EQUAL => frame.branchUnless .greaterEqual
  | .OP_JUMP_IF_NOT_EQUAL =>
      some (!csValuesStrictEqual frame.cells.bigints (frame.peek 1) (frame.peek 0), 2)
  | .OP_JUMP_IF_EQUAL =>
      some (csValuesStrictEqual frame.cells.bigints (frame.peek 1) (frame.peek 0), 2)
  | _ => none

/-! ### Steps -/

inductive Step (chunk : Bytecode) (frame : Frame) : Bool → Frame → Prop
  | completes {op : OpCode} {after : Frame} (at_ : chunk.opcode? frame.ip = some op)
      (completes : frame.Completes chunk op after) :
      Step chunk frame false { after with ip := chunk.csInstructionLength frame.ip }
  | passes {op : OpCode} {pops : Nat} (at_ : chunk.opcode? frame.ip = some op)
      (branches : frame.branches op = some (false, pops)) (holds : pops ≤ frame.height) :
      Step chunk frame false
        { frame.drop pops with ip := chunk.csInstructionLength frame.ip }
  | forward {op : OpCode} {pops : Nat} (at_ : chunk.opcode? frame.ip = some op)
      (branches : frame.branches op = some (true, pops)) (holds : pops ≤ frame.height)
      (ahead : op ≠ .OP_LOOP) :
      Step chunk frame true
        { frame.drop pops with
          ip := chunk.csInstructionLength frame.ip + chunk.short (frame.ip + 1) }
  | back (at_ : chunk.opcode? frame.ip = some .OP_LOOP)
      (inside : chunk.short (frame.ip + 1) ≤ chunk.csInstructionLength frame.ip) :
      Step chunk frame true
        { frame with ip := chunk.csInstructionLength frame.ip - chunk.short (frame.ip + 1) }

end Frame

end CScript.Jit
