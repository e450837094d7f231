/-
Nested fibers: what comes back when a fiber stops, and what a fiber finds when it
is started again.

Each C function that runs a fiber remembers the fiber it interrupted.  The state
it interrupted is in the fields of the fiber it runs until that fiber stops, for
no other switch reaches a fiber that is running; it comes back as it was, but the
limit of its handlers is the one a fiber has.
-/

import CScript.Runtime.Fiber

namespace CScript.Fibers

/-! ### Runs -/

/-- What is recorded of an execution state; `frames` and `handlers` are what its
arrays hold. -/
structure Snapshot where
  execution : Execution
  currentFiber : Option Nat
  frames : Nat → CallFrame
  handlers : Nat → ExceptionHandler

def VM.snapshot (vm : VM) : Snapshot :=
  { execution := vm.execution
    currentFiber := vm.currentFiber
    frames := vm.frameArrays vm.execution.frames
    handlers := vm.handlerArrays vm.execution.handlers }

inductive Entry where
  | runFiber
  | csVMResumeFiber
  | driveGenerator (generator : Nat)
  deriving DecidableEq, Repr

/-- A call of one of them; `left` is the state it interrupted, which nothing
reads. -/
structure Call where
  fiber : Nat
  enclosing : Option Nat
  entry : Entry
  left : Snapshot

/-- The machine, the C functions that run its fibers, the innermost first, and how
each fiber was last left, which nothing reads. -/
structure Machine where
  vm : VM
  calls : List Call
  stopped : Nat → Option Snapshot

def Machine.running (machine : Machine) : List Nat :=
  machine.calls.map Call.fiber

structure Work where
  stackTop : Nat
  frameCount : Nat
  handlerCount : Nat
  openUpvalues : List Nat
  pendingException : Option Value
  stackArrays : Nat → Nat → Value
  frames : Nat → CallFrame
  handlers : Nat → ExceptionHandler

def workOn (vm : VM) (work : Work) : VM :=
  { vm with
    execution := { vm.execution with
      stackTop := work.stackTop, frameCount := work.frameCount, handlerCount := work.handlerCount
      openUpvalues := work.openUpvalues }
    pendingException := work.pendingException
    stackArrays := work.stackArrays
    frameArrays := Function.update vm.frameArrays vm.execution.frames work.frames
    handlerArrays := Function.update vm.handlerArrays vm.execution.handlers work.handlers }

/-- How `run` returns: from `OP_YIELD`, from `OP_AWAIT`, from the last frame, or
with an error. -/
inductive Halt where
  | yield
  | await
  | return_
  | error
  deriving DecidableEq, Repr

def runHalts (vm : VM) : Halt → Option (InterpretResult × VM)
  | .yield =>
      match vm.currentFiber.bind (fun fiber => (vm.fibers fiber).generator) with
      | none => none
      | some generator =>
          let (value, popped) := csVMPop vm
          let record := { popped.generators generator with yielded := value }
          some (.ok, { setGenerator popped generator record with
            fiberSuspended := true, fiberYielded := true })
  | .await =>
      if vm.currentFiber = none then none
      else some (.ok, { (csVMPop vm).2 with fiberSuspended := true })
  | .return_ => some (.ok, vm)
  | .error => some (.runtimeError, vm)

/-- The start of a call that runs a fiber, up to `run`. -/
def enterFiber (machine : Machine) (fiber : Nat) (entry : Entry) (deliver : VM → VM) : Machine :=
  { vm := clearFlags (deliver (beginFiber machine.vm fiber))
    calls :=
      { fiber, enclosing := machine.vm.currentFiber, entry, left := machine.vm.snapshot }
        :: machine.calls
    stopped := machine.stopped }

def csVMResumeFiber (machine : Machine) (fiber : Nat) (value : Value) (isRejection : Bool) :
    Machine :=
  if (machine.vm.fibers fiber).state ≠ .suspended then machine
  else if isRejection then
    let loaded := beginFiber machine.vm fiber
    let (thrown, unwound) := performThrow loaded value 0
    if thrown = .handled then
      enterFiber machine fiber .csVMResumeFiber (fun vm => (performThrow vm value 0).2)
    else
      { machine with
        vm := finishFiber (recordPending unwound value) fiber machine.vm.currentFiber
          .runtimeError
        stopped := Function.update machine.stopped fiber (some loaded.snapshot) }
  else enterFiber machine fiber .csVMResumeFiber (fun vm => csVMPush vm value)

/-- `driveGenerator` up to `run`. -/
def driveGenerator (machine : Machine) (generator : Nat) (sent : Value) : Machine :=
  let record := machine.vm.generators generator
  let started := (machine.vm.fibers record.fiber).state ≠ .ready
  let vm := setGenerator machine.vm generator { record with running := true }
  enterFiber { machine with vm } record.fiber (.driveGenerator generator)
    (fun vm => if started then csVMPush vm sent else vm)

def alreadyRunning : Value :=
  .obj (.string ⟨ascii "this generator is already running"⟩)

def csGeneratorNextAsync (machine : Machine) (generator : Nat) (sent : Value) : Machine :=
  let record := machine.vm.generators generator
  let result := machine.vm.promises
  let vm := { machine.vm with promises := result + 1 }
  if record.running then
    { machine with vm := settlePromise vm result (.rejected alreadyRunning) }
  else if record.done then
    { machine with vm := settlePromise vm result (.iterationResult .undefined true) }
  else
    let vm := setGenerator vm generator { record with pendingResult := some result }
    driveGenerator { machine with vm } generator sent

def csGeneratorNext (machine : Machine) (generator : Nat) (sent : Value) : Machine :=
  let record := machine.vm.generators generator
  if record.done || record.running then machine
  else driveGenerator machine generator sent

/-- What follows `run` in the function that ran the fiber. -/
def stopCall (vm : VM) (call : Call) (result : InterpretResult) : VM :=
  match call.entry with
  | .runFiber => stopRunning vm call.fiber call.enclosing result
  | .csVMResumeFiber => stopResumed vm call.fiber call.enclosing result
  | .driveGenerator generator => stopNext vm generator call.fiber call.enclosing result

/-- `callAsync` and `callGenerator` come after the arity was checked. -/
inductive Action where
  | work (work : Work)
  | callAsync (closure argCount : Nat)
  | callGenerator (closure argCount : Nat) (isAsync : Bool)
  | next (generator : Nat) (sent : Value)
  | return_ (generator : Nat)
  | resume (fiber : Nat) (value : Value) (isRejection : Bool)
  | halt (halt : Halt)

def step (machine : Machine) : Action → Option Machine
  | .work work => some { machine with vm := workOn machine.vm work }
  | .callAsync closure argCount =>
      let vm := callAsyncFunction machine.vm closure argCount
      some (enterFiber { machine with vm } machine.vm.fiberCount .runFiber id)
  | .callGenerator closure argCount isAsync =>
      some { machine with vm := callGeneratorFunction machine.vm closure argCount isAsync }
  | .next generator sent =>
      if generator < machine.vm.generatorCount then
        if (machine.vm.generators generator).isAsync then
          some (csGeneratorNextAsync machine generator sent)
        else some (csGeneratorNext machine generator sent)
      else none
  | .return_ generator =>
      if generator < machine.vm.generatorCount then
        if (machine.vm.generators generator).running then some machine
        else some { machine with vm := csGeneratorFinish machine.vm generator }
      else none
  | .resume fiber value isRejection =>
      if fiber < machine.vm.fiberCount then
        some (csVMResumeFiber machine fiber value isRejection)
      else none
  | .halt halt =>
      match machine.calls with
      | [] => none
      | call :: rest =>
          (runHalts machine.vm halt).map (fun (result, vm) =>
            { vm := stopCall vm call result
              calls := rest
              stopped := Function.update machine.stopped call.fiber
                (if vm.fiberSuspended then some vm.snapshot else none) })

/-- `csVMInit`. -/
def csVMInit : VM :=
  { execution :=
      { stack := 0, stackTop := 0, stackCapacity := CS_STACK_MAX
        frames := 0, frameCount := 0, frameCapacity := CS_FRAMES_MAX
        handlers := 0, handlerCount := 0, handlerCapacity := CS_HANDLERS_MAX
        openUpvalues := [] }
    currentFiber := none, fiberSuspended := false, fiberYielded := false, pendingException := none
    stackArrays := fun _ _ => .undefined, frameArrays := fun _ _ => default
    handlerArrays := fun _ _ => default, arrays := 1
    fibers := fun _ =>
      { stack := 0, stackTop := 0, stackCapacity := 0, frames := 0, frameCount := 0, handlers := 0
        handlerCount := 0, openUpvalues := [], caller := none, promise := none, state := .ready
        generator := none }
    fiberCount := 0
    generators := fun _ =>
      { fiber := 0, yielded := .undefined, done := false, running := false, isAsync := false
        pendingResult := none }
    generatorCount := 0, promises := 0, settlements := [] }

def initial : Machine :=
  { vm := csVMInit, calls := [], stopped := fun _ => none }

/-- No `next` reaches a generator whose body is running and is not known to be. -/
def Allows (machine : Machine) : Action → Prop
  | .next generator _ =>
      (machine.vm.generators generator).done = false →
        (machine.vm.generators generator).running = false →
          (machine.vm.generators generator).fiber ∉ machine.running
  | _ => True

inductive Reached : Machine → Prop where
  | start : Reached initial
  | step {machine after : Machine} {action : Action} (reached : Reached machine)
      (allowed : Allows machine action) (stepped : step machine action = some after) :
      Reached after

/-! ### What a switch should leave alone -/

def delivered (action : Action) (vm : VM) : VM :=
  match action with
  | .next _ sent => csVMPush vm sent
  | .resume _ value true => (performThrow vm value 0).2
  | .resume _ value false => csVMPush vm value
  | _ => vm

/-- Whatever control comes back to is as it was left: an interrupted state when the
fiber that interrupted it stops, or is not even started, and a fiber when it is
started again. -/
structure Invisible (machine : Machine) (action : Action) (after : Machine) : Prop where
  interrupted : ∀ call, machine.calls = call :: after.calls → after.vm.snapshot = call.left
  refused : ∀ fiber value isRejection, action = .resume fiber value isRejection →
    after.calls = machine.calls → after.vm.snapshot = machine.vm.snapshot
  resumed : ∀ call left, after.calls = call :: machine.calls →
    machine.stopped call.fiber = some left →
      ∃ loaded : VM, loaded.snapshot = left ∧ after.vm = clearFlags (delivered action loaded)

def Recovers (machine : Machine) : Action → Prop
  | .halt halt => runHalts machine.vm halt ≠ none →
      ∀ call ∈ machine.calls.head?, call.left.execution.handlerCapacity = CS_FIBER_HANDLERS
  | .resume fiber value isRejection =>
      isRejection = true → (machine.vm.fibers fiber).state = .suspended →
        (performThrow (beginFiber machine.vm fiber) value 0).1 ≠ .handled →
          machine.vm.execution.handlerCapacity = CS_FIBER_HANDLERS
  | _ => True

end CScript.Fibers
