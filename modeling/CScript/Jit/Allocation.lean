/-
Register allocation, one block at a time.

A virtual register read in the block that defines it may live in a machine
register from its definition to its last use there.  What an instruction reads is
guessed from two fields, and what the guess says too much keeps a register in
memory or occupied for longer.  It says too little in one case: a last use that
comes before the definition, on the next turn of a loop.
-/

import Mathlib.Data.Set.Function
import Mathlib.Logic.Function.Basic
import Mathlib.Tactic.Common

namespace CScript.Jit.Allocation

/-! ### Functions as the encoder sees them -/

inductive IrOp where
  | const
  | loadLocal
  | storeLocal
  | add
  | sub
  | mul
  | div
  | mod
  | neg
  | lt
  | le
  | gt
  | ge
  | eq
  | ne
  | loadGlobal
  | storeGlobal
  | loadProperty
  | storeProperty
  | addProperty
  | newObject
  | call
  | jump
  | branch
  | return_
  | exit
  | guardShape
  deriving DecidableEq, Repr

/-- What `a`, `b` and `c` mean depends on the opcode; -1 in `result` writes no
register.  A constant is its 64 bits. -/
structure IrInst where
  op : IrOp
  result : Int
  a : Int
  b : Int
  c : Int
  constant : UInt64
  deriving DecidableEq, Repr

structure IrFunction where
  blocks : List (List IrInst)
  registerCount : Nat
  slotCount : Nat

namespace IrFunction

def inst? (ir : IrFunction) (block index : Nat) : Option IrInst := do
  (← ir.blocks[block]?)[index]?

def isRegister (ir : IrFunction) (value : Int) : Bool :=
  decide (0 ≤ value ∧ value < ir.registerCount)

end IrFunction

namespace IrInst

/-- `csIrRegisterOperands`: the registers an instruction reads. -/
def csIrRegisterOperands (inst : IrInst) : List Int :=
  match inst.op with
  | .const | .jump | .exit | .loadProperty | .loadLocal | .loadGlobal | .newObject
  | .guardShape | .call => []
  | .storeLocal | .storeGlobal | .storeProperty | .addProperty => [inst.b]
  | .neg | .return_ | .branch => [inst.a]
  | .add | .sub | .mul | .div | .mod | .lt | .le | .gt | .ge | .eq | .ne => [inst.a, inst.b]

def escapeOperands (inst : IrInst) : List Int :=
  (if inst.op ∈ [IrOp.loadLocal, .jump, .storeLocal, .exit, .loadGlobal, .storeGlobal] then []
    else [inst.a]) ++
  (if inst.op ∈ [IrOp.exit, .loadGlobal, .branch, .return_, .neg, .const, .loadLocal] then []
    else [inst.b])

def useOperands (inst : IrInst) : List Int :=
  (if inst.op ∈ [IrOp.loadLocal, .storeLocal, .jump] then [] else [inst.a]) ++
  (if inst.op = .storeLocal then [inst.b] else []) ++
  (if inst.op ∈ [IrOp.storeLocal, .branch, .return_, .neg, .const, .loadLocal, .jump] then []
    else [inst.b])

def isComparison (inst : IrInst) : Bool :=
  decide (inst.op ∈ [IrOp.lt, .le, .gt, .ge, .eq, .ne])

theorem reads_named {inst : IrInst} {register : Int}
    (reads : register ∈ inst.csIrRegisterOperands) :
    register ∈ inst.escapeOperands ∧ register ∈ inst.useOperands := by
  obtain ⟨op, _, a, _, _, _⟩ := inst
  cases op with
  | storeGlobal => exact ⟨reads, List.mem_cons_of_mem a reads⟩
  | storeProperty | addProperty =>
      exact ⟨List.mem_cons_of_mem a reads, List.mem_cons_of_mem a reads⟩
  | const | jump | exit | loadProperty | loadLocal | loadGlobal | newObject | guardShape | call =>
      cases reads
  | _ => exact ⟨reads, reads⟩

end IrInst

/-! ### The allocator -/

def define (index : Nat) (defined : Int → Option Nat) (inst : IrInst) : Int → Option Nat :=
  if 0 ≤ inst.result then Function.update defined inst.result (some index) else defined

def defineBlocks (defined : Int → Option Nat) (blocks : List (List IrInst × Nat)) :
    Int → Option Nat :=
  blocks.foldl (fun defined (block, index) => block.foldl (define index) defined) defined

def definedIn (ir : IrFunction) : Int → Option Nat :=
  defineBlocks (fun _ => none) ir.blocks.zipIdx

def escapes (ir : IrFunction) (register : Int) : Bool :=
  ir.isRegister register && ir.blocks.zipIdx.any fun (block, index) =>
    block.any fun inst =>
      decide (register ∈ inst.escapeOperands) && decide (definedIn ir register ≠ some index)

def lastUse (ir : IrFunction) (block : List IrInst) (register : Int) : Option Nat :=
  if ir.isRegister register then
    (List.range block.length).reverse.find? fun index =>
      (block[index]?).any fun inst => decide (register ∈ inst.useOperands)
  else none

/-- `holder` says which register has each place of the pool. -/
structure Scan where
  holder : Nat → Option Int
  assignment : Int → Option Nat

/-- A pool, where each place is a machine register; the last `reserved` places are
spoken for. -/
structure Pool where
  size : Nat
  number : Nat → Nat
  reserved : Nat

def release (ir : IrFunction) (block : List IrInst) (index : Nat) (holder : Nat → Option Int) :
    Nat → Option Int :=
  fun place => (holder place).filter fun register =>
    !(lastUse ir block register).any (fun last => decide (last < index))

def freePlace (pool : Pool) (holder : Nat → Option Int) : Option Nat :=
  (List.range (pool.size - pool.reserved)).find? fun place => (holder place).isNone

def allocateInst (ir : IrFunction) (pool : Pool) (block : List IrInst) (index : Nat)
    (inst : IrInst) (scan : Scan) : Scan :=
  let holder := release ir block index scan.holder
  if inst.result < 0 || escapes ir inst.result || inst.isComparison ||
      (lastUse ir block inst.result).isNone then
    { scan with holder }
  else
    match freePlace pool holder with
    | none => { scan with holder }
    | some place =>
        { holder := Function.update holder place (some inst.result)
          assignment := Function.update scan.assignment inst.result (some (pool.number place)) }

def scanFrom (ir : IrFunction) (pool : Pool) (block : List IrInst) :
    Nat → List IrInst → Scan → Scan
  | _, [], scan => scan
  | index, inst :: rest, scan =>
      scanFrom ir pool block (index + 1) rest (allocateInst ir pool block index inst scan)

def allocateBlock (ir : IrFunction) (pool : Pool) (assignment : Int → Option Nat)
    (block : List IrInst) : Int → Option Nat :=
  (scanFrom ir pool block 0 block ⟨fun _ => none, assignment⟩).assignment

/-- Where each virtual register lives; `none` is memory. -/
def csJitAllocateRegisters (ir : IrFunction) (pool : Pool) : Int → Option Nat :=
  ir.blocks.foldl (allocateBlock ir pool) (fun _ => none)

/-! ### The pools and what is reserved -/

def csJitPoolSize (callSafe : Bool) : Nat :=
  if callSafe then 8 else 22

def csJitAllocPool (callSafe : Bool) (index : Nat) : Nat :=
  if callSafe then 8 + index else if index < 6 then 2 + index else 16 + (index - 6)

/-- A function that calls out allocates from the registers a call preserves. -/
def callSafe (ir : IrFunction) : Bool :=
  ir.blocks.any fun block => block.any fun inst =>
    decide (inst.op ∈ [IrOp.mod, .newObject, .call, .guardShape])

structure Promotion where
  slotHome : Nat → Option Nat
  promotedCount : Nat

def promoteSlot (callSafe : Bool) (promotable : Nat → Bool) (promotion : Promotion) (slot : Nat) :
    Promotion :=
  if promotable slot && decide (promotion.promotedCount < csJitPoolSize callSafe / 2) then
    { slotHome := Function.update promotion.slotHome slot
        (some (csJitAllocPool callSafe (csJitPoolSize callSafe - 1 - promotion.promotedCount)))
      promotedCount := promotion.promotedCount + 1 }
  else promotion

structure Constants where
  value : List UInt64
  home : List Nat

def placeConstant (callSafe : Bool) (promotedCount : Nat) (constants : Constants) (inst : IrInst) :
    Constants :=
  if inst.op ≠ .const ∨ inst.constant ∈ constants.value ∨
      csJitPoolSize callSafe / 2 ≤ promotedCount + constants.home.length then constants
  else
    { value := constants.value ++ [inst.constant]
      home := constants.home ++
        [csJitAllocPool callSafe
          (csJitPoolSize callSafe - 1 - promotedCount - constants.home.length)] }

/-- What `csJitCompile` decides before it allocates. -/
structure Layout where
  promotion : Promotion
  constants : Constants
  pool : Pool

def csJitCompile (ir : IrFunction) (promotable : Nat → Bool) : Layout :=
  let safe := callSafe ir
  let promotion := (List.range (ir.slotCount + 1)).foldl (promoteSlot safe promotable)
    ⟨fun _ => none, 0⟩
  let constants := ir.blocks.flatten.foldl (placeConstant safe promotion.promotedCount) ⟨[], []⟩
  { promotion
    constants
    pool :=
      { size := csJitPoolSize safe
        number := csJitAllocPool safe
        reserved := promotion.promotedCount + constants.home.length } }

/-! ### On-stack replacement -/

/-- No block reads a register that it has not written itself. -/
def csJitBlocksAreSelfContained (ir : IrFunction) : Bool :=
  ir.blocks.all fun block => (List.range block.length).all fun index =>
    (block[index]?).all fun inst => inst.csIrRegisterOperands.all fun register =>
      !decide (0 ≤ register ∧ register ≤ ir.registerCount) ||
        (block.take index).any fun earlier => decide (earlier.result = register)

/-- Some block at or after it goes back to it. -/
def csJitIsLoopHeader (ir : IrFunction) (target : Nat) : Bool :=
  (ir.blocks.drop target).any fun block => block.any fun inst =>
    inst.op = .jump && inst.a = target ||
      inst.op = .branch && (inst.b = target || inst.c = target)

end CScript.Jit.Allocation
