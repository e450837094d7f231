/-
Async generators: requests, their promises, and the two ways into the body.

A body is stopped at a `yield` or at an `await`, and is started again by a call
of `next` or by the event loop.  One field holds the promise of the last `next`,
so an answer reaches every promise handed out exactly where no request comes
while that promise is waiting and no rejected await goes uncaught.
-/

import CScript.Event.EventLoop

namespace CScript.AsyncGenerator

/-! ### The generator and its fiber -/

inductive FiberState where
  | ready
  | running
  | suspended
  | done
  deriving DecidableEq, Repr

/-- The instruction the frame's `ip` is past: what is pushed next arrives as its
value. -/
inductive Stop where
  | start
  | yield
  | await
  deriving DecidableEq, Repr

inductive Driver where
  | nobody
  | next
  | eventLoop
  deriving DecidableEq, Repr

/-- What a promise handed out by `next` is settled with. -/
inductive Answer where
  | iterationResult (value : Value) (done : Bool)
  | rejection (reason : Value)
  deriving DecidableEq, Repr

inductive Sender where
  | request
  | settlement
  deriving DecidableEq, Repr

structure Received where
  sender : Sender
  stop : Stop
  value : Value
  deriving DecidableEq, Repr

/-- `promises` are those `next` handed out, in order; `awaits` counts the
continuations of the fiber that wait in promises or in the queue, one for each
`OP_AWAIT`; `received` records what was pushed for the body, and at which stop. -/
structure ObjGenerator where
  fiberState : FiberState
  stop : Stop
  driver : Driver
  yielded : Value
  done : Bool
  running : Bool
  pendingResult : Option Nat
  promises : List (Option Answer)
  awaits : Nat
  received : List Received
  deriving Repr

def csGeneratorNew : ObjGenerator :=
  { fiberState := .ready, stop := .start, driver := .nobody, yielded := .undefined, done := false,
    running := false, pendingResult := none, promises := [], awaits := 0, received := [] }

/-! ### Settling -/

/-- `csPromiseFulfill` with an iteration result, or `csPromiseReject`: a promise
that is settled stays as it is. -/
def settleAnswer (generator : ObjGenerator) (p : Nat) (answer : Answer) : ObjGenerator :=
  if generator.promises[p]? = some none then
    { generator with promises := generator.promises.set p (some answer) }
  else generator

def settleGeneratorStep (generator : ObjGenerator) (yielded failed : Bool) (reason : Value) :
    ObjGenerator :=
  match generator.pendingResult with
  | none => generator
  | some waiting =>
      if !yielded && !generator.done && !failed then generator
      else
        let cleared := { generator with pendingResult := none }
        if failed then settleAnswer cleared waiting (.rejection reason)
        else
          settleAnswer
            { cleared with yielded := if generator.done then .undefined else generator.yielded }
            waiting (.iterationResult generator.yielded generator.done)

/-! ### Starting the body -/

def pushValue (generator : ObjGenerator) (sender : Sender) (value : Value) : ObjGenerator :=
  { generator with
    received := generator.received ++ [{ sender, stop := generator.stop, value }] }

def alreadyRunning : Value :=
  .obj (.string ⟨ascii "this generator is already running"⟩)

/-- `csGeneratorNextAsync` up to where the body runs.  Switching to a fiber that
is the one running is no defined step. -/
def csGeneratorNextAsync (generator : ObjGenerator) (sent : Value) : Option ObjGenerator :=
  let result := generator.promises.length
  let handed := { generator with promises := generator.promises ++ [none] }
  if generator.done || generator.running then
    if generator.running then some (settleAnswer handed result (.rejection alreadyRunning))
    else some (settleAnswer handed result (.iterationResult .undefined true))
  else if generator.driver ≠ .nobody then none
  else
    let started := generator.fiberState ≠ .ready
    let driven := { handed with
      pendingResult := some result, running := true, driver := .next, fiberState := .running }
    some (if started then pushValue driven .request sent else driven)

/-- `generatorReturn`, whose own promise is settled before it is handed back. -/
def generatorReturn (generator : ObjGenerator) : Option ObjGenerator :=
  if generator.running then some generator
  else some { generator with done := true, fiberState := .done, yielded := .undefined }

/-- `csVMResumeFiber` up to where the body runs; `caught` says whether a handler
of the body takes a rejection. -/
def csVMResumeFiber (generator : ObjGenerator) (value : Value) (isRejection caught : Bool) :
    ObjGenerator :=
  if generator.fiberState ≠ .suspended then generator
  else
    let resumed := { generator with fiberState := .running, driver := .eventLoop }
    if isRejection then
      if caught then resumed
      else { generator with fiberState := .done }
    else pushValue resumed .settlement value

/-! ### Stopping -/

inductive Halt where
  | yield (value : Value)
  | await
  | finish (value : Value)
  | throw (reason : Value)
  deriving DecidableEq, Repr

/-- The part of `driveGenerator` and of `csVMResumeFiber` after `run` returns,
and of the instruction that made it return. -/
def haltFiber (generator : ObjGenerator) : Halt → ObjGenerator
  | .yield value => { generator with yielded := value, fiberState := .suspended, stop := .yield }
  | .await =>
      { generator with awaits := generator.awaits + 1, fiberState := .suspended, stop := .await }
  | .finish value => { generator with yielded := value, done := true, fiberState := .done }
  | .throw _ => { generator with yielded := .undefined, done := true, fiberState := .done }

def Halt.yielded : Halt → Bool
  | .yield _ => true
  | _ => false

def Halt.failed : Halt → Bool
  | .throw _ => true
  | _ => false

def Halt.reason : Halt → Value
  | .throw reason => reason
  | _ => .undefined

/-- Back in `csGeneratorNextAsync`, or in `csVMResumeFiber`, which both end in
`settleGeneratorStep`. -/
def haltGenerator (generator : ObjGenerator) (halt : Halt) : Option ObjGenerator :=
  match generator.driver with
  | .nobody => none
  | .next =>
      let stopped := { haltFiber generator halt with driver := .nobody, running := false }
      some (settleGeneratorStep stopped halt.yielded halt.failed halt.reason)
  | .eventLoop =>
      let stopped := { haltFiber generator halt with driver := .nobody }
      some (settleGeneratorStep stopped halt.yielded halt.failed halt.reason)

/-! ### Steps -/

/-- `settled` is the event loop bringing back a continuation of the fiber. -/
inductive GeneratorAction where
  | next (sent : Value)
  | return_
  | settled (value : Value) (isRejection caught : Bool)
  | halt (halt : Halt)
  deriving DecidableEq, Repr

def stepGenerator (generator : ObjGenerator) : GeneratorAction → Option ObjGenerator
  | .next sent => csGeneratorNextAsync generator sent
  | .return_ => generatorReturn generator
  | .settled value isRejection caught =>
      if generator.awaits = 0 ∨ generator.driver ≠ .nobody then none
      else
        some (csVMResumeFiber { generator with awaits := generator.awaits - 1 } value isRejection
          caught)
  | .halt halt => haltGenerator generator halt

def runGenerator (generator : ObjGenerator) : List GeneratorAction → Option ObjGenerator
  | [] => some generator
  | action :: rest => (stepGenerator generator action).bind (fun after => runGenerator after rest)

/-! ### Answers -/

/-- What a request sent arrived at a `yield`, and a generator that is over has
answered every `next`. -/
structure Answers (generator : ObjGenerator) : Prop where
  received : ∀ entry ∈ generator.received, entry.sender = .request → entry.stop = .yield
  answered : generator.fiberState = .done → ∀ p : Nat, generator.promises[p]? ≠ some none

/-- A promise is settled once, and a rejection that the body does not catch is the
answer to the request that waits. -/
structure StepAnswers (generator : ObjGenerator) (action : GeneratorAction)
    (after : ObjGenerator) : Prop where
  once : ∀ (p : Nat) (answer : Answer), generator.promises[p]? = some (some answer) →
    after.promises[p]? = some (some answer)
  uncaught : ∀ reason, action = .settled reason true false → after.done = true ∧
    ∀ p : Nat, generator.promises[p]? = some none → after.promises[p]? = some (some (.rejection reason))

/-- No request comes while the promise of another waits, unless it comes from the
body that is answering it; and the body catches what it awaits. -/
def Allows (generator : ObjGenerator) : GeneratorAction → Prop
  | .next _ | .return_ => generator.running = false → ∀ p : Nat, generator.promises[p]? ≠ some none
  | .settled _ isRejection caught => isRejection = true → caught = true
  | .halt _ => True

def Meets (generator : ObjGenerator) : List GeneratorAction → Prop
  | [] => True
  | action :: rest => Allows generator action ∧
      ∀ after, stepGenerator generator action = some after → Meets after rest

/-! ### Where a generator stands -/

structure Control (generator : ObjGenerator) (fiberState : FiberState) (driver : Driver)
    (running done : Bool) (awaits : Nat) : Prop where
  fiberState : generator.fiberState = fiberState
  driver : generator.driver = driver
  running : generator.running = running
  done : generator.done = done
  awaits : generator.awaits = awaits

def AllAnswered (generator : ObjGenerator) : Prop :=
  ∀ p : Nat, generator.promises[p]? ≠ some none

structure OnlyWaits (generator : ObjGenerator) (p : Nat) : Prop where
  pendingResult : generator.pendingResult = some p
  waits : generator.promises[p]? = some none
  only : ∀ q : Nat, generator.promises[q]? = some none → q = p

inductive Standing (generator : ObjGenerator) : Prop where
  | fresh (control : Control generator .ready .nobody false false 0)
      (answered : AllAnswered generator) (nothing : generator.pendingResult = none)
  | driven (p : Nat) (control : Control generator .running .next true false 0)
      (waits : OnlyWaits generator p)
  | resumed (p : Nat) (control : Control generator .running .eventLoop false false 0)
      (waits : OnlyWaits generator p)
  | atYield (control : Control generator .suspended .nobody false false 0)
      (stop : generator.stop = .yield) (answered : AllAnswered generator)
      (nothing : generator.pendingResult = none)
  | atAwait (p : Nat) (control : Control generator .suspended .nobody false false 1)
      (stop : generator.stop = .await) (waits : OnlyWaits generator p)
  | finished (control : Control generator .done .nobody false true 0)
      (answered : AllAnswered generator)

structure Good (generator : ObjGenerator) : Prop where
  standing : Standing generator
  received : ∀ entry ∈ generator.received, entry.sender = .request → entry.stop = .yield

theorem csGeneratorNew_good : Good csGeneratorNew := by
  constructor
  · apply Standing.fresh
    · exact { fiberState := rfl, driver := rfl, running := rfl, done := rfl, awaits := rfl }
    · intro p waits
      cases waits
    · rfl
  · intro entry member
    cases member

theorem Good.answers {generator : ObjGenerator} (good : Good generator) : Answers generator := by
  constructor
  · exact good.received
  · intro isOver
    cases good.standing with
    | fresh control answered _ => exact answered
    | driven p control _ => rw [control.fiberState] at isOver; cases isOver
    | resumed p control _ => rw [control.fiberState] at isOver; cases isOver
    | atYield control _ answered _ => exact answered
    | atAwait p control _ _ => rw [control.fiberState] at isOver; cases isOver
    | finished control answered => exact answered

/-! ### Handing out and settling -/

theorem settleAnswer_once (generator : ObjGenerator) (p : Nat) (answer : Answer) {q : Nat}
    {before : Answer} (there : generator.promises[q]? = some (some before)) :
    (settleAnswer generator p answer).promises[q]? = some (some before) := by
  unfold settleAnswer
  split
  · rename_i waits
    have different : p ≠ q := by
      intro same
      rw [same, there] at waits
      cases waits
    exact (List.getElem?_set_ne different).trans there
  · exact there

theorem settleAnswer_at {generator : ObjGenerator} {p : Nat} (answer : Answer)
    (waits : generator.promises[p]? = some none) (q : Nat) :
    (settleAnswer generator p answer).promises[q]? =
      if q = p then some (some answer) else generator.promises[q]? := by
  have bound : p < generator.promises.length := (List.getElem?_eq_some_iff.mp waits).1
  unfold settleAnswer
  rw [if_pos waits]
  by_cases same : q = p
  · rw [if_pos same, same]
    exact List.getElem?_set_self bound
  · rw [if_neg same]
    exact List.getElem?_set_ne (Ne.symm same)

theorem settleAnswer_all {generator : ObjGenerator} {p : Nat} (answer : Answer)
    (waits : generator.promises[p]? = some none)
    (only : ∀ q : Nat, generator.promises[q]? = some none → q = p) :
    AllAnswered (settleAnswer generator p answer) := by
  intro q still
  rw [settleAnswer_at answer waits q] at still
  split at still
  · cases still
  · rename_i different
    exact different (only q still)

theorem handed_at (promises : List (Option Answer)) (q : Nat) :
    (promises ++ [none])[q]? =
      if q < promises.length then promises[q]?
      else if q = promises.length then some none else none := by
  by_cases old : q < promises.length
  · rw [if_pos old]
    exact List.getElem?_append_left old
  · rw [if_neg old, List.getElem?_append_right (Nat.le_of_not_lt old)]
    by_cases last : q = promises.length
    · rw [if_pos last, last, Nat.sub_self]
      rfl
    · rw [if_neg last]
      apply List.getElem?_eq_none
      show 1 ≤ q - promises.length
      omega

theorem handed_only {generator : ObjGenerator} (answered : AllAnswered generator) (q : Nat) :
    (generator.promises ++ [none])[q]? = some none ↔ q = generator.promises.length := by
  rw [handed_at]
  constructor
  · intro waits
    split at waits
    · exact absurd waits (answered q)
    · split at waits
      · assumption
      · cases waits
  · intro last
    rw [if_neg (by omega), if_pos last]

theorem handed_once {generator : ObjGenerator} {q : Nat} {answer : Answer}
    (there : generator.promises[q]? = some (some answer)) :
    (generator.promises ++ [none])[q]? = some (some answer) := by
  have bound : q < generator.promises.length := (List.getElem?_eq_some_iff.mp there).1
  rw [handed_at, if_pos bound]
  exact there

end CScript.AsyncGenerator
