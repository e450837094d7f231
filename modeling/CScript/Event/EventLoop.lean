/-
Promises, their reactions and the microtask queue that delivers them.

A promise keeps the reactions registered while it is pending; settling it turns
each of them into a microtask, and registering on a settled promise queues the
microtask at once.  Two fields the machine does not have are recorded beside its
own: the reactions a promise was ever given, and the promise a queued microtask
answers for.  No function reads either.
-/

import CScript.Runtime.Value

namespace CScript.EventLoop

/-! ### Promises, reactions and microtasks -/

inductive PromiseState where
  | pending
  | fulfilled
  | rejected
  deriving DecidableEq, Repr

structure Reaction where
  onFulfilled : Value
  onRejected : Value
  result : Option Nat
  fiber : Option Nat
  isFinally : Bool
  extraHops : Nat
  combineState : Option Nat
  combineIndex : Int
  deriving DecidableEq, Repr

structure ObjPromise where
  state : PromiseState
  value : Value
  reactions : List Reaction
  handled : Bool
  registered : List Reaction
  deriving DecidableEq, Repr

structure Microtask where
  callback : Value
  argument : Value
  result : Option Nat
  isRejection : Bool
  fiber : Option Nat
  isFinally : Bool
  extraHops : Nat
  combineState : Option Nat
  combineIndex : Int
  origin : Option Nat
  deriving DecidableEq, Repr

inductive CombineMode where
  | all
  | race
  | allSettled
  | any
  deriving DecidableEq, Repr

/-- `[results, remaining, target, mode]`; the results array is handed out under
the number of the state it belongs to. -/
structure CombineState where
  results : List Value
  remaining : Int
  target : Nat
  mode : CombineMode
  deriving DecidableEq, Repr

/-- What the machine is doing: running program code, between two microtasks of a
drain, or inside the handler or the resumed body of one. -/
inductive Phase where
  | code
  | draining
  | running (task : Microtask)
  deriving DecidableEq, Repr

/-- `microtasks` holds the `microtaskCount` entries of the queue; `ran` records
the tasks that were started. -/
structure EventVM where
  promises : List ObjPromise
  microtasks : List Microtask
  microtaskHead : Nat
  combines : List CombineState
  rejected : List Nat
  phase : Phase
  ran : List Microtask
  deriving DecidableEq, Repr

structure Builders where
  settlementRecord : Value → Bool → Value
  csAggregateError : List Value → Value

def initial : EventVM :=
  { promises := [], microtasks := [], microtaskHead := 0, combines := [], rejected := [],
    phase := .code, ran := [] }

def promiseValue (p : Nat) : Value :=
  .obj (.cell .promise p)

/-- `IS_PROMISE` and `AS_PROMISE`. -/
def asPromise : Value → Option Nat
  | .obj (.cell .promise p) => some p
  | _ => none

def EventVM.setPromise (vm : EventVM) (p : Nat) (promise : ObjPromise) : EventVM :=
  { vm with promises := vm.promises.set p promise }

/-! ### The queue -/

/-- The entries before the head are done with, so a queue that is all head is
emptied before it grows. -/
def EventVM.compact (vm : EventVM) : EventVM :=
  if 0 < vm.microtaskHead ∧ vm.microtaskHead = vm.microtasks.length then
    { vm with microtaskHead := 0, microtasks := [] }
  else vm

def microtask (callback argument : Value) (result : Option Nat) (isRejection : Bool) :
    Microtask :=
  { callback, argument, result, isRejection, fiber := none, isFinally := false, extraHops := 0,
    combineState := none, combineIndex := 0, origin := none }

def EventVM.enqueue (vm : EventVM) (task : Microtask) : EventVM :=
  { vm.compact with microtasks := vm.compact.microtasks ++ [task] }

def csVMQueueMicrotask (vm : EventVM) (callback argument : Value) (result : Option Nat)
    (isRejection : Bool) : EventVM :=
  vm.enqueue (microtask callback argument result isRejection)

/-- A store through `csVMLastMicrotask()`. -/
def patchMicrotask (vm : EventVM) (patch : Microtask → Microtask) : EventVM :=
  { vm with microtasks := vm.microtasks.modify (vm.microtasks.length - 1) patch }

def csVMQueueCombine (vm : EventVM) (state : Nat) (index : Int) (argument : Value)
    (isRejection : Bool) : EventVM :=
  patchMicrotask (csVMQueueMicrotask vm .undefined argument none isRejection)
    (fun task => { task with combineState := some state, combineIndex := index })

def csVMNoteRejection (vm : EventVM) (p : Nat) : EventVM :=
  { vm with rejected := vm.rejected ++ [p] }

/-! ### Settling -/

def PromiseState.isRejected (state : PromiseState) : Bool :=
  state = .rejected

def ofPromise (p : Nat) (task : Microtask) : Microtask :=
  { task with origin := some p }

/-- The body of the loop in `settle`. -/
def queueReaction (p : Nat) (state : PromiseState) (value : Value) (vm : EventVM)
    (reaction : Reaction) : EventVM :=
  match reaction.fiber with
  | some fiber =>
      patchMicrotask (csVMQueueMicrotask vm .undefined value none state.isRejected)
        (fun task => ofPromise p { task with fiber := some fiber })
  | none =>
      match reaction.combineState with
      | some combine =>
          patchMicrotask
            (csVMQueueCombine vm combine reaction.combineIndex value state.isRejected)
            (ofPromise p)
      | none =>
          let handler := if state = .fulfilled then reaction.onFulfilled else reaction.onRejected
          patchMicrotask (csVMQueueMicrotask vm handler value reaction.result state.isRejected)
            (fun task => ofPromise p
              { task with isFinally := reaction.isFinally, extraHops := reaction.extraHops })

def settle (vm : EventVM) (p : Nat) (state : PromiseState) (value : Value) : EventVM :=
  match vm.promises[p]? with
  | none => vm
  | some promise =>
      if promise.state ≠ .pending then vm
      else
        let queued := promise.reactions.foldl (queueReaction p state value)
          (vm.setPromise p { promise with state, value })
        let settled := queued.setPromise p { promise with state, value, reactions := [] }
        if state = .rejected ∧ promise.handled = false then csVMNoteRejection settled p
        else settled

def csPromiseReject (vm : EventVM) (p : Nat) (reason : Value) : EventVM :=
  settle vm p .rejected reason

/-! ### Registering -/

def plainReaction (onFulfilled onRejected : Value) (result : Option Nat) : Reaction :=
  { onFulfilled, onRejected, result, fiber := none, isFinally := false, extraHops := 0,
    combineState := none, combineIndex := 0 }

def csPromiseAddReaction (vm : EventVM) (p : Nat) (onFulfilled onRejected : Value)
    (result : Option Nat) : EventVM :=
  match vm.promises[p]? with
  | none => vm
  | some promise =>
      let reaction := plainReaction onFulfilled onRejected result
      let noted := { promise with handled := true, registered := promise.registered ++ [reaction] }
      if promise.state ≠ .pending then
        let handler := if promise.state = .fulfilled then onFulfilled else onRejected
        patchMicrotask
          (csVMQueueMicrotask (vm.setPromise p noted) handler promise.value result
            promise.state.isRejected)
          (ofPromise p)
      else vm.setPromise p { noted with reactions := promise.reactions ++ [reaction] }

/-- What every caller that registers more than a pair of handlers does next: the
fields are stored in the reaction when it is waiting, and in the last microtask
when it was queued at once. -/
def patchWaiter (vm : EventVM) (p : Nat) (onReaction : Reaction → Reaction)
    (onTask : Microtask → Microtask) : EventVM :=
  match vm.promises[p]? with
  | none => vm
  | some promise =>
      let noted := { promise with
        registered := promise.registered.modify (promise.registered.length - 1) onReaction }
      if promise.state = .pending then
        vm.setPromise p { noted with
          reactions := promise.reactions.modify (promise.reactions.length - 1) onReaction }
      else patchMicrotask (vm.setPromise p noted) onTask

/-- Resolving with a promise adopts its outcome. -/
def csPromiseFulfill (vm : EventVM) (p : Nat) (value : Value) : EventVM :=
  match vm.promises[p]? with
  | none => vm
  | some promise =>
      if promise.state ≠ .pending then vm
      else
        match asPromise value with
        | some inner =>
            patchWaiter (csPromiseAddReaction vm inner .undefined .undefined (some p)) inner
              (fun reaction => { reaction with extraHops := 1 })
              (fun task => { task with extraHops := 1 })
        | none => settle vm p .fulfilled value

/-! ### What programs call -/

def csPromiseNew (vm : EventVM) : EventVM :=
  { vm with
    promises := vm.promises ++
      [{ state := .pending, value := .undefined, reactions := [], handled := false,
         registered := [] }] }

/-- The promise `csPromiseNew` makes. -/
def EventVM.fresh (vm : EventVM) : Nat :=
  vm.promises.length

def promiseThen (vm : EventVM) (p : Nat) (onFulfilled onRejected : Value) : EventVM :=
  csPromiseAddReaction (csPromiseNew vm) p onFulfilled onRejected (some vm.fresh)

def promiseCatch (vm : EventVM) (p : Nat) (onRejected : Value) : EventVM :=
  csPromiseAddReaction (csPromiseNew vm) p .undefined onRejected (some vm.fresh)

def promiseFinally (vm : EventVM) (p : Nat) (handler : Value) : EventVM :=
  patchWaiter (csPromiseAddReaction (csPromiseNew vm) p handler handler (some vm.fresh)) p
    (fun reaction => { reaction with isFinally := true })
    (fun task => { task with isFinally := true })

def promiseResolve (vm : EventVM) (value : Value) : EventVM :=
  match asPromise value with
  | some _ => vm
  | none => csPromiseFulfill (csPromiseNew vm) vm.fresh value

def promiseRejectStatic (vm : EventVM) (reason : Value) : EventVM :=
  csPromiseReject (csPromiseNew vm) vm.fresh reason

/-- `promise->handled = true`. -/
def markHandled (vm : EventVM) (p : Nat) : EventVM :=
  match vm.promises[p]? with
  | none => vm
  | some promise => vm.setPromise p { promise with handled := true }

/-- `OP_AWAIT` once it has its promise. -/
def awaitPromise (vm : EventVM) (fiber p : Nat) : EventVM :=
  patchWaiter (csPromiseAddReaction (markHandled vm p) p .undefined .undefined none) p
    (fun reaction => { reaction with fiber := some fiber })
    (fun task => { task with fiber := some fiber })

def opAwait (vm : EventVM) (fiber : Nat) (awaited : Value) : EventVM :=
  match asPromise awaited with
  | some p => awaitPromise vm fiber p
  | none => awaitPromise (csPromiseFulfill (csPromiseNew vm) vm.fresh awaited) fiber vm.fresh

def combineInput (state : Nat) (index : Int) (vm : EventVM) (element : Value) : EventVM :=
  match asPromise element with
  | none => csVMQueueCombine vm state index element false
  | some input =>
      patchWaiter
        (csPromiseAddReaction (markHandled vm input) input .undefined .undefined none) input
        (fun reaction => { reaction with combineState := some state, combineIndex := index })
        (fun task => { task with combineState := some state, combineIndex := index })

/-- The index a combinator gives an input: `race` keeps no slots. -/
def combineIndex (mode : CombineMode) (i : Nat) : Int :=
  if mode = .race then -1 else i

def combineInputs (mode : CombineMode) (state : Nat) :
    Nat → EventVM → List Value → EventVM
  | _, vm, [] => vm
  | i, vm, element :: rest =>
      combineInputs mode state (i + 1) (combineInput state (combineIndex mode i) vm element) rest

def arrayValue (state : Nat) : Value :=
  .obj (.cell .array state)

def newCombine (vm : EventVM) (mode : CombineMode) (count : Nat) (target : Nat) : EventVM :=
  { vm with
    combines := vm.combines ++
      [{ results := List.replicate count .undefined, remaining := count, target, mode }] }

def combinator (builders : Builders) (vm : EventVM) (mode : CombineMode)
    (inputs : List Value) : EventVM :=
  let target := vm.fresh
  let state := vm.combines.length
  let made := newCombine (csPromiseNew vm) mode (if mode = .race then 0 else inputs.length) target
  if inputs.isEmpty then
    match mode with
    | .all | .allSettled => csPromiseFulfill made target (arrayValue state)
    | .any => csPromiseReject made target (builders.csAggregateError [])
    | .race => made
  else combineInputs mode state 0 made inputs

/-! ### Running a microtask -/

def collectOutcome (builders : Builders) (vm : EventVM) (state : Nat) (combine : CombineState)
    (task : Microtask) : EventVM :=
  let outcome := if combine.mode = .allSettled then
    builders.settlementRecord task.argument task.isRejection else task.argument
  let collected := { combine with
    results := combine.results.set task.combineIndex.toNat outcome
    remaining := combine.remaining - 1 }
  let vm := { vm with combines := vm.combines.set state collected }
  if collected.remaining ≠ 0 then vm
  else if combine.mode = .any then
    csPromiseReject vm combine.target (builders.csAggregateError collected.results)
  else csPromiseFulfill vm combine.target (arrayValue state)

def runCombine (builders : Builders) (vm : EventVM) (state : Nat) (task : Microtask) : EventVM :=
  match vm.combines[state]? with
  | none => vm
  | some combine =>
      match vm.promises[combine.target]? with
      | none => vm
      | some target =>
          if target.state ≠ .pending then vm
          else
            match combine.mode with
            | .race =>
                if task.isRejection then csPromiseReject vm combine.target task.argument
                else csPromiseFulfill vm combine.target task.argument
            | .all =>
                if task.isRejection then csPromiseReject vm combine.target task.argument
                else collectOutcome builders vm state combine task
            | .any =>
                if task.isRejection then collectOutcome builders vm state combine task
                else csPromiseFulfill vm combine.target task.argument
            | .allSettled => collectOutcome builders vm state combine task

def passThrough (vm : EventVM) (task : Microtask) : EventVM :=
  if 0 < task.extraHops then
    patchMicrotask (csVMQueueMicrotask vm .undefined task.argument task.result task.isRejection)
      (fun queued => { queued with extraHops := task.extraHops - 1 })
  else
    match task.result with
    | none => vm
    | some result =>
        if task.isRejection then csPromiseReject vm result task.argument
        else csPromiseFulfill vm result task.argument

/-- What `runMicrotask` does with the value a handler returned. -/
def handlerReturned (vm : EventVM) (task : Microtask) (returned : Value) : EventVM :=
  match task.result with
  | none => vm
  | some result =>
      if task.isFinally then
        patchMicrotask
          (csVMQueueMicrotask vm .undefined task.argument (some result) task.isRejection)
          (fun queued => { queued with extraHops := 1 })
      else csPromiseFulfill vm result returned

/-- A handler or a fiber, which run program code, rather than a combinator or an
outcome that passes straight through. -/
def Microtask.runsCode (task : Microtask) : Bool :=
  task.fiber.isSome ||
    (task.combineState.isNone && task.callback ≠ .undefined && task.callback ≠ .null)

/-- `runMicrotask` for a task that runs no program code. -/
def runQuietly (builders : Builders) (vm : EventVM) (task : Microtask) : EventVM :=
  match task.combineState with
  | some state => runCombine builders vm state task
  | none => passThrough vm task

/-- `vm.microtaskHead++` and the next turn of the loop. -/
def advance (vm : EventVM) : EventVM :=
  { vm with microtaskHead := vm.microtaskHead + 1, phase := .draining }

/-! ### Steps -/

inductive EventAction where
  | newPromise
  | resolve (p : Nat) (value : Value)
  | reject (p : Nat) (reason : Value)
  | resolvedWith (value : Value)
  | rejectedWith (reason : Value)
  | then_ (p : Nat) (onFulfilled onRejected : Value)
  | catch_ (p : Nat) (onRejected : Value)
  | finally_ (p : Nat) (handler : Value)
  | await (fiber : Nat) (awaited : Value)
  | combine (mode : CombineMode) (inputs : List Value)
  | queueMicrotask (callback : Value)
  | drain
  | next
  | returned (value : Value)
  | threw (thrown : Value)
  | failed
  | drained
  deriving DecidableEq, Repr

/-- What a call from program code does; `newPromise` is also the promise of an
async call, and `resolve` and `reject` also settle that. -/
def EventAction.call (builders : Builders) (vm : EventVM) : EventAction → Option EventVM
  | .newPromise => some (csPromiseNew vm)
  | .resolve p value => some (csPromiseFulfill vm p value)
  | .reject p reason => some (csPromiseReject vm p reason)
  | .resolvedWith value => some (promiseResolve vm value)
  | .rejectedWith reason => some (promiseRejectStatic vm reason)
  | .then_ p onFulfilled onRejected => some (promiseThen vm p onFulfilled onRejected)
  | .catch_ p onRejected => some (promiseCatch vm p onRejected)
  | .finally_ p handler => some (promiseFinally vm p handler)
  | .await fiber awaited => some (opAwait vm fiber awaited)
  | .combine mode inputs => some (combinator builders vm mode inputs)
  | .queueMicrotask callback => some (csVMQueueMicrotask vm callback .undefined none false)
  | _ => none

/-- `drainMicrotasks` starting the task at the head, which stays put until the
task is done. -/
def startTask (builders : Builders) (vm : EventVM) (task : Microtask) : EventVM :=
  let started := { vm with phase := .running task, ran := vm.ran ++ [task] }
  if task.runsCode then started else advance (runQuietly builders started task)

/-- `runMicrotask` once the program code of the task is over.  A fiber settles
the promise of its own call before that; a handler that throws rejects the
promise it feeds, and without one stops the program as any other error does. -/
def finishTask (vm : EventVM) (task : Microtask) : EventAction → Option EventVM
  | .returned value =>
      if task.fiber.isSome then some (advance vm)
      else some (advance (handlerReturned vm task value))
  | .threw thrown =>
      if task.fiber.isSome then none
      else
        match task.result with
        | some result => some (advance (csPromiseReject vm result thrown))
        | none => some { advance vm with phase := .code }
  | .failed => if task.fiber.isSome then none else some { advance vm with phase := .code }
  | _ => none

def EventVM.knows (vm : EventVM) (value : Value) : Bool :=
  match asPromise value with
  | some p => p < vm.promises.length
  | none => true

def EventAction.known (vm : EventVM) : EventAction → Bool
  | .resolve p value => p < vm.promises.length && vm.knows value
  | .reject p reason => p < vm.promises.length && vm.knows reason
  | .resolvedWith value => vm.knows value
  | .rejectedWith reason => vm.knows reason
  | .then_ p _ _ => p < vm.promises.length
  | .catch_ p _ => p < vm.promises.length
  | .finally_ p _ => p < vm.promises.length
  | .await _ awaited => vm.knows awaited
  | .combine _ inputs => inputs.all vm.knows
  | .returned value => vm.knows value
  | .threw thrown => vm.knows thrown
  | _ => true

/-- One step of the machine: a call made by running program code, or a turn of
the drain. -/
def stepEvent (builders : Builders) (vm : EventVM) (action : EventAction) : Option EventVM :=
  if action.known vm then
    match vm.phase with
    | .code =>
        if action = .drain then some { vm with phase := .draining } else action.call builders vm
    | .draining =>
        match action, vm.microtasks[vm.microtaskHead]? with
        | .next, some task => some (startTask builders vm task)
        | .drained, none => some { vm with microtaskHead := 0, microtasks := [], phase := .code }
        | _, _ => none
    | .running task => (action.call builders vm).or (finishTask vm task action)
  else none

def runEvents (builders : Builders) (vm : EventVM) : List EventAction → Option EventVM
  | [] => some vm
  | action :: rest =>
      (stepEvent builders vm action).bind (fun after => runEvents builders after rest)

end CScript.EventLoop
