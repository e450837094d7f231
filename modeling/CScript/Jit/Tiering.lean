/-
Calls, and the tier that may answer them.

The first half is the interpreter's own prologue: the types a call must bring,
the arguments it must bring, and the frame it then starts with.  The second is
the table of hot functions and the one function every call path asks before it
interprets a call.
-/

import CScript.Jit.Ir

namespace CScript.Jit

/-! ### What a call starts with -/

/-- A frame slot as a call leaves it.  The array a rest parameter receives is
made by the call, so it is named by what it holds. -/
inductive FrameSlot where
  | value (value : Value)
  | rest (elements : List FrameSlot)
  deriving Repr

/-- What making a call does before any of the body runs: a frame is pushed, a
promise or a generator is handed back for a body on a fiber of its own, or an
error is reported. -/
inductive Start where
  | frame (slots : List FrameSlot)
  | promise (slots : List FrameSlot)
  | generator (slots : List FrameSlot)
  | error (message : List UInt8)
  deriving Repr

/-- `stackTop` counts the values on the stack, the callee and its arguments
among them. -/
structure VM where
  heap : JitHeap
  frameCount : Nat
  frameCapacity : Nat
  stackTop : Nat
  stackCapacity : Nat
  jitRootRanges : Nat
  deriving DecidableEq, Repr

def decimal (n : Nat) : List UInt8 :=
  ascii (toString n)

/-- `argument%s`. -/
def plural (n : Nat) : List UInt8 :=
  if n = 1 then [] else ascii "s"

def functionName (function : ObjFunction) : List UInt8 :=
  match function.name with
  | some name => name.chars
  | none => ascii "<anonymous>"

def FrameSlot.isNumber : FrameSlot → Bool
  | .value held => Jit.isNumber held
  | .rest _ => false

def FrameSlot.typeName : FrameSlot → List UInt8
  | .value held => csValueTypeName held
  | .rest _ => ascii "object"

def firstMistyped : Nat → List TypeKind → List FrameSlot → Option (Nat × FrameSlot)
  | i, type :: types, argument :: arguments =>
      if type = .number ∧ argument.isNumber = false then some (i, argument)
      else firstMistyped (i + 1) types arguments
  | _, _, _ => none

/-- The error reported, where a parameter annotated `number` is passed something
else. -/
def parameterTypesHold (function : ObjFunction) (args : List FrameSlot) : Option (List UInt8) :=
  match function.paramTypes with
  | none => none
  | some types =>
      match firstMistyped 0 (types.take function.paramCount) args with
      | none => none
      | some (i, argument) =>
          some (functionName function ++ ascii ": argument " ++ decimal (i + 1) ++ ascii " is " ++
            argument.typeName ++ ascii " but the parameter is number")

/-- The arguments as a body finds them, padded out to `count` of them. -/
def padded (args : List FrameSlot) (count : Nat) : List FrameSlot :=
  args ++ List.replicate (count - args.length) (.value .undefined)

def gathered (args : List FrameSlot) (fixed : Nat) : List FrameSlot :=
  padded (args.take fixed) fixed ++ [.rest (args.drop fixed)]

def tooFewArguments (function : ObjFunction) (got : Nat) : List UInt8 :=
  functionName function ++ ascii " expects at least " ++ decimal function.arity ++
    ascii " argument" ++ plural function.arity ++ ascii " but got " ++ decimal got

def wrongArguments (function : ObjFunction) (got : Nat) : List UInt8 :=
  if function.arity = function.paramCount then
    functionName function ++ ascii " expects " ++ decimal function.arity ++
      ascii " argument" ++ plural function.arity ++ ascii " but got " ++ decimal got
  else
    functionName function ++ ascii " expects between " ++ decimal function.arity ++
      ascii " and " ++ decimal function.paramCount ++ ascii " arguments but got " ++ decimal got

def csVMCheckArity (function : ObjFunction) (args : List FrameSlot) :
    Except (List UInt8) (List FrameSlot) :=
  match parameterTypesHold function args with
  | some message => .error message
  | none =>
      if function.hasRest then
        if args.length < function.arity then .error (tooFewArguments function args.length)
        else .ok (gathered args (function.paramCount - 1))
      else if args.length < function.arity ∨ args.length > function.paramCount then
        .error (wrongArguments function args.length)
      else .ok (padded args function.paramCount)

def callGeneratorFunction (function : ObjFunction) (slotZero : Value) (args : List FrameSlot) :
    Start :=
  match csVMCheckArity function args with
  | .error message => .error message
  | .ok slots => .generator (.value slotZero :: slots)

def callAsyncFunction (function : ObjFunction) (slotZero : Value) (args : List FrameSlot) :
    Start :=
  match csVMCheckArity function args with
  | .error message => .error message
  | .ok slots => .promise (.value slotZero :: slots)

def stackOverflow (vm : VM) : List UInt8 :=
  ascii "call stack overflow (limit " ++ decimal vm.frameCapacity ++ ascii " frames)"

/-- What the body will read as `this`: a plain function called without a
receiver does not see itself. -/
def slotZeroOf (function : ObjFunction) (slotZero : Value) (hasReceiver : Bool) : Value :=
  if function.usesThis && !function.isMethod && !hasReceiver then .undefined else slotZero

/-- `slotZero` is what the stack holds below the arguments.  A generator's
arguments are checked a second time, as the first check left them. -/
def csVMCallClosureWith (vm : VM) (function : ObjFunction) (slotZero : Value)
    (args : List FrameSlot) (hasReceiver : Bool) : Start :=
  match csVMCheckArity function args with
  | .error message => .error message
  | .ok slots =>
      if vm.frameCount = vm.frameCapacity then .error (stackOverflow vm)
      else if function.isGenerator then
        callGeneratorFunction function (slotZeroOf function slotZero hasReceiver) slots
      else .frame (.value (slotZeroOf function slotZero hasReceiver) :: slots)

/-! ### Compiled code -/

structure JitExit where
  bytecodeOffset : Option Nat
  stackHeight : Nat
  deriving DecidableEq, Repr

inductive Completion where
  | returned (value : Value)
  | exited (index : Nat) (slots : List Value)
  deriving DecidableEq, Repr

/-- The globals compiled code reaches without a lookup: `globalAddress` are places
in the entries `globalTable` had when it was compiled. -/
structure CodeGlobals where
  globalTable : Option Nat
  globalVersion : UInt32
  globalAddress : List Nat
  deriving DecidableEq, Repr

structure JitCode extends CodeGlobals where
  entry : List Value → Completion
  exits : List JitExit

/-- `interpret` is what the IR interpreter makes of the frame it builds, where
it finishes. -/
structure HotEntry where
  function : Nat
  ir : Option IrFunction
  interpret : List Value → Option Value
  code : Option JitCode
  entryUsable : Bool

inductive JitRunResult where
  | declined
  | answered (out : Value)
  | deoptimised (start : Start) (slots : List Value) (offset height : Nat)
  | failed
  deriving Repr

def CS_JIT_ROOT_MAX : Nat := 128

/-- `observed` against the arguments: an argument the call left out is not
checked. -/
def observedArguments : List ParamSeen → List Value → Bool
  | seen :: rest, argument :: arguments =>
      (decide (seen ≠ .number) || isNumber argument) && observedArguments rest arguments
  | _, _ => true

def observedTypesHold (function : ObjFunction) (args : List Value) : Bool :=
  match function.observedParams with
  | none => true
  | some observed => observedArguments (observed.take function.paramCount) args

def addressHoldsNumber (table : Table) (address : Nat) : Bool :=
  match table.entries[address]? with
  | some entry => isNumber entry.value
  | none => false

def assumptionsHold (heap : JitHeap) (code : CodeGlobals) : Bool :=
  if code.globalAddress.length = 0 then true
  else
    match code.globalTable with
    | none => false
    | some module =>
        match heap.modules[module]? with
        | none => false
        | some table =>
            decide (table.version = code.globalVersion) &&
              code.globalAddress.all (addressHoldsNumber table)

def deoptimisableCall (function : ObjFunction) (argCount : Nat) : Bool :=
  decide (argCount = function.arity) && !function.hasRest &&
    decide (function.paramCount = function.arity)

def entryFrame (slotCount : Nat) (receiver : Value) (args : List Value) : List Value :=
  (receiver :: args ++ List.replicate slotCount Value.undefined).take slotCount

def interpretFrame (slotCount : Nat) (args : List Value) : List Value :=
  entryFrame slotCount .undefined args

def hotEntry (hot : List HotEntry) (function : ObjFunction) : Option HotEntry := do
  let index ← function.jitSlot
  let entry ← hot[index]?
  if entry.function = function.address then some entry else none

/-- Everything `csJitTryRun` asks of a call before it chooses how to run it. -/
def entryAllowed (heap : JitHeap) (entry : HotEntry) (ir : IrFunction) (function : ObjFunction)
    (receiver : Value) (args : List Value) : Bool :=
  entry.entryUsable &&
  (!ir.hasExits || (entry.code.isSome && deoptimisableCall function args.length)) &&
  observedTypesHold function args &&
  decide (ir.slotCount ≤ 256) &&
  csIrEntryShapesHold heap ir.entryShapes (entryFrame ir.slotCount receiver args) &&
  csIrInlinedCalleesHold heap ir.inlined

/-- Builds the frame the interpreter resumes in, and puts the compiled one in
it; `none` where that failed.  `slotZero` is what the stack holds below the
arguments. -/
def csVMDeoptimise (vm : VM) (function : ObjFunction) (slotZero : Value) (args : List Value)
    (slots : List Value) (stackHeight : Nat) : Option Start :=
  match csVMCallClosureWith vm function slotZero (args.map .value) true with
  | .error _ => none
  | start =>
      if vm.stackTop - args.length - 1 + max slots.length stackHeight ≥ vm.stackCapacity then none
      else some start

/-- What an exit means for the call: the callee threw, or the interpreter goes on
from a frame built on the way out. -/
def takeExit (vm : VM) (function : ObjFunction) (slotZero : Value) (args left : List Value)
    (exit : JitExit) : JitRunResult :=
  match exit.bytecodeOffset with
  | none => .failed
  | some offset =>
      match csVMDeoptimise vm function slotZero args left exit.stackHeight with
      | none => .failed
      | some start => .deoptimised start left offset exit.stackHeight

def runCode (vm : VM) (code : JitCode) (function : ObjFunction) (slotZero : Value)
    (args slots : List Value) : JitRunResult :=
  match code.entry slots with
  | .returned value => .answered value
  | .exited index left =>
      match code.exits[index]? with
      | none => .declined
      | some exit => takeExit vm function slotZero args left exit

def runEntry (vm : VM) (entry : HotEntry) (ir : IrFunction) (function : ObjFunction)
    (receiver slotZero : Value) (args : List Value) : JitRunResult :=
  match entry.code with
  | some code =>
      if assumptionsHold vm.heap code.toCodeGlobals && decide (vm.jitRootRanges < CS_JIT_ROOT_MAX) then
        runCode vm code function slotZero args (entryFrame ir.slotCount receiver args)
      else .declined
  | none =>
      if vm.jitRootRanges + 2 > CS_JIT_ROOT_MAX then .declined
      else
        match entry.interpret (interpretFrame ir.slotCount args) with
        | none => .declined
        | some out => .answered out

def isRunnable (function : ObjFunction) : Bool :=
  decide (function.jitState = .hot) || decide (function.jitState = .compiled)

/-- `receiver` is what slot 0 of the compiled frame holds; `slotZero` what the
stack holds below the arguments. -/
def csJitTryRun (hot : List HotEntry) (vm : VM) (function : ObjFunction)
    (receiver slotZero : Value) (args : List Value) : JitRunResult :=
  if isRunnable function then
    match hotEntry hot function with
    | none => .declined
    | some entry =>
        match entry.ir with
        | none => .declined
        | some ir =>
            if entryAllowed vm.heap entry ir function receiver args then
              runEntry vm entry ir function receiver slotZero args
            else .declined
  else .declined

end CScript.Jit
