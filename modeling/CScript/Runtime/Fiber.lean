/-
Fibers: the machine state that a switch swaps out and back.

The state of whatever runs is inline in the VM.  A switch exchanges it with the
fields of the fiber switched to, so an interrupted state travels in the fields of
the fiber that interrupted it.  What the interpreter loop does between two
switches is any change of the running state.
-/

import CScript.Runtime.Value
import Mathlib.Logic.Function.Basic

namespace CScript.Fibers

/-! ### The machine state -/

def CS_STACK_MAX : Nat := 64 * 256
def CS_FRAMES_MAX : Nat := 64
def CS_HANDLERS_MAX : Nat := 64
def CS_FIBER_STACK : Nat := 1024
def CS_FIBER_FRAMES : Nat := 64
def CS_FIBER_HANDLERS : Nat := 32

/-- `slots` is a slot of the stack the frame is on. -/
structure CallFrame where
  closure : Nat
  ip : Nat
  slots : Nat
  deriving DecidableEq, Repr, Inhabited

structure ExceptionHandler where
  frameCount : Nat
  stackTop : Nat
  ip : Nat
  handlerCount : Nat
  deriving DecidableEq, Repr, Inhabited

/-- The fields the VM holds inline.  `stack`, `frames` and `handlers` name arrays,
and `openUpvalues` is the list of the slots the open upvalues point at. -/
structure Execution where
  stack : Nat
  stackTop : Nat
  stackCapacity : Nat
  frames : Nat
  frameCount : Nat
  frameCapacity : Nat
  handlers : Nat
  handlerCount : Nat
  handlerCapacity : Nat
  openUpvalues : List Nat
  deriving DecidableEq, Repr

inductive FiberState where
  | ready
  | running
  | suspended
  | done
  deriving DecidableEq, Repr

/-- `promise` is what an async call handed out, and `generator` the generator
whose body this is. -/
structure ObjFiber where
  stack : Nat
  stackTop : Nat
  stackCapacity : Nat
  frames : Nat
  frameCount : Nat
  handlers : Nat
  handlerCount : Nat
  openUpvalues : List Nat
  caller : Option Nat
  promise : Option Nat
  state : FiberState
  generator : Option Nat
  deriving DecidableEq, Repr

structure ObjGenerator where
  fiber : Nat
  yielded : Value
  done : Bool
  running : Bool
  isAsync : Bool
  pendingResult : Option Nat
  deriving DecidableEq, Repr

inductive Settlement where
  | fulfilled (value : Value)
  | rejected (reason : Value)
  | iterationResult (value : Value) (done : Bool)
  deriving DecidableEq, Repr

/-- Arrays, fibers and generators are named by the order of their allocation;
`settlements` lists what promises were settled with. -/
structure VM where
  execution : Execution
  currentFiber : Option Nat
  fiberSuspended : Bool
  fiberYielded : Bool
  pendingException : Option Value
  stackArrays : Nat → Nat → Value
  frameArrays : Nat → Nat → CallFrame
  handlerArrays : Nat → Nat → ExceptionHandler
  arrays : Nat
  fibers : Nat → ObjFiber
  fiberCount : Nat
  generators : Nat → ObjGenerator
  generatorCount : Nat
  promises : Nat
  settlements : List (Nat × Settlement)

/-! ### The stack, and unwinding it -/

def resetStack (vm : VM) : VM :=
  { vm with
    execution := { vm.execution with
      stackTop := 0, frameCount := 0, handlerCount := 0, openUpvalues := [] }
    pendingException := none }

def csVMPush (vm : VM) (value : Value) : VM :=
  if vm.execution.stackTop ≥ vm.execution.stackCapacity then resetStack vm
  else
    { vm with
      execution := { vm.execution with stackTop := vm.execution.stackTop + 1 }
      stackArrays := Function.update vm.stackArrays vm.execution.stack
        (Function.update (vm.stackArrays vm.execution.stack) vm.execution.stackTop value) }

def csVMPop (vm : VM) : Value × VM :=
  (vm.stackArrays vm.execution.stack (vm.execution.stackTop - 1),
    { vm with execution := { vm.execution with stackTop := vm.execution.stackTop - 1 } })

/-- The list descends, so what is at or above `last` comes first. -/
def closeUpvalues (vm : VM) (last : Nat) : VM :=
  { vm with
    execution := { vm.execution with
      openUpvalues := vm.execution.openUpvalues.dropWhile (fun location => last ≤ location) } }

/-- The `while` of `performThrow`: the frames a throw escaped. -/
def discardFrames (vm : VM) : Nat → VM
  | 0 => vm
  | frames + 1 =>
      let popped := { vm with
        execution := { vm.execution with frameCount := vm.execution.frameCount - 1 } }
      discardFrames
        (closeUpvalues popped
          (vm.frameArrays vm.execution.frames (vm.execution.frameCount - 1)).slots)
        frames

inductive ThrowResult where
  | handled
  | propagate
  | uncaught
  deriving DecidableEq, Repr

def unwindTo (vm : VM) (handler : ExceptionHandler) : VM :=
  let taken := { vm with
    execution := { vm.execution with handlerCount := vm.execution.handlerCount - 1 } }
  closeUpvalues (discardFrames taken (vm.execution.frameCount - handler.frameCount))
    handler.stackTop

/-- The stack and the `ip` of the frame that goes on are the handler's. -/
def enterHandler (vm : VM) (handler : ExceptionHandler) : VM :=
  let top := vm.execution.frameCount - 1
  let frame := { vm.frameArrays vm.execution.frames top with ip := handler.ip }
  { vm with
    execution := { vm.execution with stackTop := handler.stackTop }
    frameArrays := Function.update vm.frameArrays vm.execution.frames
      (Function.update (vm.frameArrays vm.execution.frames) top frame) }

def recordPending (vm : VM) (thrown : Value) : VM :=
  { vm with pendingException := some thrown }

def performThrow (vm : VM) (thrown : Value) (baseFrame : Nat) : ThrowResult × VM :=
  if vm.execution.handlerCount = 0 then (.uncaught, vm)
  else
    let handler := vm.handlerArrays vm.execution.handlers (vm.execution.handlerCount - 1)
    if handler.frameCount ≤ baseFrame then
      (.propagate, recordPending vm thrown)
    else (.handled, csVMPush (enterHandler (unwindTo vm handler) handler) thrown)

/-! ### Switching -/

/-- What `swapExecutionState` loads: a fiber has no capacities of its own. -/
def ObjFiber.execution (fiber : ObjFiber) : Execution :=
  { stack := fiber.stack
    stackTop := fiber.stackTop
    stackCapacity := fiber.stackCapacity
    frames := fiber.frames
    frameCount := fiber.frameCount
    frameCapacity := CS_FIBER_FRAMES
    handlers := fiber.handlers
    handlerCount := fiber.handlerCount
    handlerCapacity := CS_FIBER_HANDLERS
    openUpvalues := fiber.openUpvalues }

def ObjFiber.save (fiber : ObjFiber) (execution : Execution) : ObjFiber :=
  { fiber with
    stack := execution.stack
    stackTop := execution.stackTop
    stackCapacity := execution.stackCapacity
    frames := execution.frames
    frameCount := execution.frameCount
    handlers := execution.handlers
    handlerCount := execution.handlerCount
    openUpvalues := execution.openUpvalues }

def setFiber (vm : VM) (fiber : Nat) (record : ObjFiber) : VM :=
  { vm with fibers := Function.update vm.fibers fiber record }

@[simp] theorem setFiber_same (vm : VM) (fiber : Nat) (record : ObjFiber) :
    (setFiber vm fiber record).fibers fiber = record :=
  Function.update_self ..

theorem setFiber_other (vm : VM) {fiber other : Nat} (record : ObjFiber) (apart : other ≠ fiber) :
    (setFiber vm fiber record).fibers other = vm.fibers other :=
  Function.update_of_ne apart ..

def swapExecutionState (vm : VM) (fiber : Nat) : VM :=
  setFiber { vm with execution := (vm.fibers fiber).execution } fiber
    ((vm.fibers fiber).save vm.execution)

/-- What `runFiber`, `csVMResumeFiber` and `driveGenerator` begin with. -/
def beginFiber (vm : VM) (fiber : Nat) : VM :=
  swapExecutionState
    (setFiber { vm with currentFiber := some fiber } fiber
      { vm.fibers fiber with caller := vm.currentFiber, state := .running })
    fiber

def endFiber (vm : VM) (fiber : Nat) (enclosing : Option Nat) (state : FiberState) : VM :=
  let swapped := swapExecutionState (setFiber vm fiber { vm.fibers fiber with state }) fiber
  setFiber { swapped with currentFiber := enclosing } fiber
    { swapped.fibers fiber with caller := none }

def clearFlags (vm : VM) : VM :=
  { vm with fiberSuspended := false, fiberYielded := false }

def settlePromise (vm : VM) (promise : Nat) (settlement : Settlement) : VM :=
  { vm with settlements := vm.settlements ++ [(promise, settlement)] }

inductive InterpretResult where
  | ok
  | runtimeError
  deriving DecidableEq, Repr

/-- The exception on its way out, taken, or `undefined`. -/
def takePending (vm : VM) : Value × VM :=
  (vm.pendingException.getD .undefined, { vm with pendingException := none })

def finishFiber (vm : VM) (fiber : Nat) (enclosing : Option Nat) (result : InterpretResult) : VM :=
  let (outcome, taken) := if result = .ok then csVMPop vm else takePending vm
  let ended := endFiber taken fiber enclosing .done
  match (taken.fibers fiber).promise with
  | none => ended
  | some promise =>
      settlePromise ended promise
        (if result = .ok then .fulfilled outcome else .rejected outcome)

/-! ### Generators -/

def setGenerator (vm : VM) (generator : Nat) (record : ObjGenerator) : VM :=
  { vm with generators := Function.update vm.generators generator record }

/-- `settleGeneratorStep`, which `csGeneratorResumed` is. -/
def settleGeneratorStep (vm : VM) (generator : Nat) (yielded failed : Bool) (reason : Value) : VM :=
  let record := vm.generators generator
  match record.pendingResult with
  | none => vm
  | some waiting =>
      if !yielded && !record.done && !failed then vm
      else if failed then
        settlePromise (setGenerator vm generator { record with pendingResult := none }) waiting
          (.rejected reason)
      else
        settlePromise
          (setGenerator vm generator
            { record with
              pendingResult := none
              yielded := if record.done then .undefined else record.yielded })
          waiting (.iterationResult record.yielded record.done)

def takeResult (vm : VM) (result : InterpretResult) : Value × VM :=
  if result = .ok ∧ vm.execution.stackTop > 0 then csVMPop vm else (.undefined, vm)

/-- The end of `driveGenerator`: whether the body reached a `yield`, and how it
ended. -/
def stopDriving (vm : VM) (generator fiber : Nat) (enclosing : Option Nat)
    (result : InterpretResult) : (Bool × InterpretResult) × VM :=
  if vm.fiberSuspended then
    ((vm.fiberYielded, .ok), endFiber (clearFlags vm) fiber enclosing .suspended)
  else
    let (value, taken) := takeResult vm result
    let record := taken.generators generator
    ((false, result),
      endFiber (setGenerator taken generator { record with yielded := value, done := true }) fiber
        enclosing .done)

/-- What `csGeneratorNext` and `csGeneratorNextAsync` make of it. -/
def reportNext (vm : VM) (generator : Nat) (yielded : Bool) (ran : InterpretResult) : VM :=
  let record := vm.generators generator
  if record.isAsync then
    if ran = .ok then settleGeneratorStep vm generator yielded false .undefined
    else
      let (reason, taken) := takePending vm
      settleGeneratorStep taken generator false true reason
  else if ran = .ok ∧ record.done then
    setGenerator vm generator { record with yielded := .undefined }
  else vm

/-- The end of `csGeneratorNext`, and of `csGeneratorNextAsync`. -/
def stopNext (vm : VM) (generator fiber : Nat) (enclosing : Option Nat)
    (result : InterpretResult) : VM :=
  let ((yielded, ran), stopped) := stopDriving vm generator fiber enclosing result
  reportNext
    (setGenerator stopped generator { stopped.generators generator with running := false })
    generator yielded ran

/-- The end of `csVMResumeFiber`. -/
def stopResumed (vm : VM) (fiber : Nat) (enclosing : Option Nat) (result : InterpretResult) : VM :=
  if vm.fiberSuspended then
    let stopped := endFiber (clearFlags vm) fiber enclosing .suspended
    match (vm.fibers fiber).generator with
    | none => stopped
    | some generator => settleGeneratorStep stopped generator vm.fiberYielded false .undefined
  else
    match (vm.fibers fiber).generator with
    | none => finishFiber vm fiber enclosing result
    | some generator =>
        let (reason, told) := if result = .ok then (.undefined, vm) else takePending vm
        let (value, taken) := takeResult told result
        let record := taken.generators generator
        settleGeneratorStep
          (endFiber (setGenerator taken generator { record with yielded := value, done := true })
            fiber enclosing .done)
          generator false (result ≠ .ok) reason

/-- The end of `runFiber`. -/
def stopRunning (vm : VM) (fiber : Nat) (enclosing : Option Nat) (result : InterpretResult) : VM :=
  if vm.fiberSuspended then endFiber (clearFlags vm) fiber enclosing .suspended
  else finishFiber vm fiber enclosing result

/-! ### Calls -/

/-- `csFiberNew`, with the frame of the call on its stack: slot 0 and the
arguments move over. -/
def csFiberNew (vm : VM) (closure argCount : Nat) (promise generator : Option Nat) : VM :=
  let base := vm.execution.stackTop - argCount - 1
  let moved := fun i =>
    if i ≤ argCount then vm.stackArrays vm.execution.stack (base + i) else .undefined
  { vm with
    execution := { vm.execution with stackTop := base }
    stackArrays := Function.update vm.stackArrays vm.arrays moved
    frameArrays := Function.update vm.frameArrays vm.arrays
      (fun i => if i = 0 then { closure, ip := 0, slots := 0 } else default)
    handlerArrays := Function.update vm.handlerArrays vm.arrays (fun _ => default)
    arrays := vm.arrays + 1
    fibers := Function.update vm.fibers vm.fiberCount
      { stack := vm.arrays, stackTop := argCount + 1, stackCapacity := CS_FIBER_STACK
        frames := vm.arrays, frameCount := 1, handlers := vm.arrays, handlerCount := 0
        openUpvalues := [], caller := none, promise, state := .ready, generator }
    fiberCount := vm.fiberCount + 1 }

/-- `callAsyncFunction` up to `runFiber`. -/
def callAsyncFunction (vm : VM) (closure argCount : Nat) : VM :=
  csVMPush { csFiberNew vm closure argCount (some vm.promises) none with promises := vm.promises + 1 }
    (.obj (.cell .promise vm.promises))

def callGeneratorFunction (vm : VM) (closure argCount : Nat) (isAsync : Bool) : VM :=
  csVMPush
    { csFiberNew vm closure argCount none (some vm.generatorCount) with
      generators := Function.update vm.generators vm.generatorCount
        { fiber := vm.fiberCount, yielded := .undefined, done := false, running := false, isAsync
          pendingResult := none }
      generatorCount := vm.generatorCount + 1 }
    (.obj (.cell .generator vm.generatorCount))

def csGeneratorFinish (vm : VM) (generator : Nat) : VM :=
  let record := vm.generators generator
  setFiber (setGenerator vm generator { record with done := true, yielded := .undefined })
    record.fiber { vm.fibers record.fiber with state := .done }

end CScript.Fibers
