/-
The chain of interrupted states is kept by every step, and so a switch shows only
in the limit of handlers.
-/

import CScript.Runtime.FiberSwitching

namespace CScript.Fibers

/-! ### Changes of the running state -/

structure Within (before after : VM) : Prop where
  execution : after.execution =
    { before.execution with
      stackTop := after.execution.stackTop, frameCount := after.execution.frameCount
      handlerCount := after.execution.handlerCount
      openUpvalues := after.execution.openUpvalues }
  currentFiber : after.currentFiber = before.currentFiber
  frameArrays : ∀ a, a ≠ before.execution.frames → after.frameArrays a = before.frameArrays a
  handlerArrays : ∀ a, a ≠ before.execution.handlers →
    after.handlerArrays a = before.handlerArrays a
  arrays : after.arrays = before.arrays
  fiberCount : after.fiberCount = before.fiberCount
  records : ∀ fiber, (after.fibers fiber).execution = (before.fibers fiber).execution
  states : ∀ fiber, (after.fibers fiber).state = (before.fibers fiber).state ∨
    (after.fibers fiber).state = .done
  generatorCount : after.generatorCount = before.generatorCount
  bodies : ∀ generator, (after.generators generator).fiber = (before.generators generator).fiber

namespace Within

variable {first second third : VM}

theorem frames (within : Within first second) :
    second.execution.frames = first.execution.frames := by
  rw [within.execution]

theorem handlers (within : Within first second) :
    second.execution.handlers = first.execution.handlers := by
  rw [within.execution]

theorem trans (one : Within first second) (two : Within second third) : Within first third where
  execution := by
    rw [two.execution, one.execution]
  currentFiber := two.currentFiber.trans one.currentFiber
  frameArrays a apart :=
    (two.frameArrays a (fun same => apart (same.trans one.frames))).trans (one.frameArrays a apart)
  handlerArrays a apart :=
    (two.handlerArrays a (fun same => apart (same.trans one.handlers))).trans
      (one.handlerArrays a apart)
  arrays := two.arrays.trans one.arrays
  fiberCount := two.fiberCount.trans one.fiberCount
  records fiber := (two.records fiber).trans (one.records fiber)
  states fiber := by
    cases two.states fiber with
    | inl same =>
        cases one.states fiber with
        | inl before => exact Or.inl (same.trans before)
        | inr isDone => exact Or.inr (same.trans isDone)
    | inr isDone => exact Or.inr isDone
  generatorCount := two.generatorCount.trans one.generatorCount
  bodies generator := (two.bodies generator).trans (one.bodies generator)

end Within

structure Quiet (before after : VM) : Prop where
  snapshot : after.snapshot = before.snapshot
  within : Within before after

namespace Quiet

variable {first second third : VM}

theorem trans (one : Quiet first second) (two : Quiet second third) : Quiet first third :=
  ⟨two.snapshot.trans one.snapshot, one.within.trans two.within⟩

theorem refl (vm : VM) : Quiet vm vm where
  snapshot := rfl
  within :=
    { execution := rfl, currentFiber := rfl, frameArrays := fun _ _ => rfl
      handlerArrays := fun _ _ => rfl, arrays := rfl, fiberCount := rfl, records := fun _ => rfl
      states := fun _ => Or.inl rfl, generatorCount := rfl, bodies := fun _ => rfl }

theorem aside (vm : VM) (fiberSuspended fiberYielded : Bool) (pendingException : Option Value)
    (promises : Nat) (settlements : List (Nat × Settlement)) :
    Quiet vm { vm with fiberSuspended, fiberYielded, pendingException, promises, settlements } where
  snapshot := rfl
  within :=
    { execution := rfl, currentFiber := rfl, frameArrays := fun _ _ => rfl
      handlerArrays := fun _ _ => rfl, arrays := rfl, fiberCount := rfl, records := fun _ => rfl
      states := fun _ => Or.inl rfl, generatorCount := rfl, bodies := fun _ => rfl }

theorem setGenerator (vm : VM) (generator : Nat) (record : ObjGenerator)
    (body : record.fiber = (vm.generators generator).fiber) :
    Quiet vm (setGenerator vm generator record) where
  snapshot := rfl
  within :=
    { execution := rfl, currentFiber := rfl, frameArrays := fun _ _ => rfl
      handlerArrays := fun _ _ => rfl, arrays := rfl, fiberCount := rfl, records := fun _ => rfl
      states := fun _ => Or.inl rfl, generatorCount := rfl
      bodies := by
        intro other
        by_cases same : other = generator
        · rw [same]
          exact (congrArg ObjGenerator.fiber (Function.update_self ..)).trans body
        · exact congrArg ObjGenerator.fiber (Function.update_of_ne same ..) }

theorem settlePromise (vm : VM) (promise : Nat) (settlement : Settlement) :
    Quiet vm (settlePromise vm promise settlement) :=
  aside vm _ _ _ _ _

theorem clearFlags (vm : VM) : Quiet vm (clearFlags vm) :=
  aside vm _ _ _ _ _

theorem takePending (vm : VM) : Quiet vm (takePending vm).2 :=
  aside vm _ _ _ _ _

theorem recordPending (vm : VM) (thrown : Value) : Quiet vm (recordPending vm thrown) :=
  aside vm _ _ _ _ _

theorem settleGeneratorStep (vm : VM) (generator : Nat) (yielded failed : Bool) (reason : Value) :
    Quiet vm (settleGeneratorStep vm generator yielded failed reason) := by
  unfold Fibers.settleGeneratorStep
  dsimp only
  split
  · exact refl vm
  · split
    · exact refl vm
    · split
      · refine trans ?_ (settlePromise _ _ _)
        exact setGenerator vm generator _ rfl
      · refine trans ?_ (settlePromise _ _ _)
        exact setGenerator vm generator _ rfl

end Quiet

theorem changed_within (vm : VM) (stackTop frameCount handlerCount : Nat) (openUpvalues : List Nat)
    (stackArrays : Nat → Nat → Value) (frames : Nat → CallFrame) (handlers : Nat → ExceptionHandler)
    (pendingException : Option Value) :
    Within vm { vm with
      execution := { vm.execution with stackTop, frameCount, handlerCount, openUpvalues }
      stackArrays
      frameArrays := Function.update vm.frameArrays vm.execution.frames frames
      handlerArrays := Function.update vm.handlerArrays vm.execution.handlers handlers
      pendingException } where
  execution := rfl
  currentFiber := rfl
  frameArrays _ apart := Function.update_of_ne apart ..
  handlerArrays _ apart := Function.update_of_ne apart ..
  arrays := rfl
  fiberCount := rfl
  records _ := rfl
  states _ := Or.inl rfl
  generatorCount := rfl
  bodies _ := rfl

theorem moved_within (vm : VM) (stackTop frameCount handlerCount : Nat) (openUpvalues : List Nat)
    (stackArrays : Nat → Nat → Value) (pendingException : Option Value) :
    Within vm { vm with
      execution := { vm.execution with stackTop, frameCount, handlerCount, openUpvalues }
      stackArrays, pendingException } := by
  have changed := changed_within vm stackTop frameCount handlerCount openUpvalues stackArrays
    (vm.frameArrays vm.execution.frames) (vm.handlerArrays vm.execution.handlers) pendingException
  rw [Function.update_eq_self, Function.update_eq_self] at changed
  exact changed

theorem csVMPush_within (vm : VM) (value : Value) : Within vm (csVMPush vm value) := by
  unfold csVMPush
  split
  · exact moved_within vm 0 0 0 [] _ _
  · exact moved_within vm _ _ _ _ _ _

theorem csVMPop_within (vm : VM) : Within vm (csVMPop vm).2 :=
  moved_within vm _ _ _ _ _ _

theorem closeUpvalues_within (vm : VM) (last : Nat) : Within vm (closeUpvalues vm last) :=
  moved_within vm _ _ _ _ _ _

theorem discardFrames_within (vm : VM) (frames : Nat) : Within vm (discardFrames vm frames) := by
  induction frames generalizing vm with
  | zero => exact (Quiet.refl vm).within
  | succ frames ih =>
      have popped := moved_within vm vm.execution.stackTop (vm.execution.frameCount - 1)
        vm.execution.handlerCount vm.execution.openUpvalues vm.stackArrays vm.pendingException
      exact (popped.trans (closeUpvalues_within _ _)).trans (ih _)

theorem unwindTo_within (vm : VM) (handler : ExceptionHandler) :
    Within vm (unwindTo vm handler) := by
  have taken := moved_within vm vm.execution.stackTop vm.execution.frameCount
    (vm.execution.handlerCount - 1) vm.execution.openUpvalues vm.stackArrays vm.pendingException
  exact (taken.trans (discardFrames_within _ _)).trans (closeUpvalues_within _ _)

theorem enterHandler_within (vm : VM) (handler : ExceptionHandler) :
    Within vm (enterHandler vm handler) := by
  have changed := changed_within vm handler.stackTop vm.execution.frameCount
    vm.execution.handlerCount vm.execution.openUpvalues vm.stackArrays
    (Function.update (vm.frameArrays vm.execution.frames) (vm.execution.frameCount - 1)
      { vm.frameArrays vm.execution.frames (vm.execution.frameCount - 1) with ip := handler.ip })
    (vm.handlerArrays vm.execution.handlers) vm.pendingException
  rw [Function.update_eq_self] at changed
  exact changed

theorem performThrow_within (vm : VM) (thrown : Value) (baseFrame : Nat) :
    Within vm (performThrow vm thrown baseFrame).2 := by
  unfold performThrow
  split
  · exact (Quiet.refl vm).within
  · dsimp only
    split
    · exact (Quiet.recordPending vm thrown).within
    · exact ((unwindTo_within vm _).trans (enterHandler_within _ _)).trans (csVMPush_within _ _)

theorem performThrow_unhandled {vm : VM} {thrown : Value} {baseFrame : Nat}
    (unhandled : (performThrow vm thrown baseFrame).1 ≠ .handled) :
    Quiet vm (performThrow vm thrown baseFrame).2 := by
  unfold performThrow at unhandled ⊢
  split
  · exact Quiet.refl vm
  · rename_i some_
    rw [if_neg some_] at unhandled
    dsimp only at unhandled ⊢
    split
    · exact Quiet.recordPending vm thrown
    · rename_i inside
      rw [if_neg inside] at unhandled
      exact absurd rfl unhandled

theorem workOn_within (vm : VM) (work : Work) : Within vm (workOn vm work) :=
  changed_within vm _ _ _ _ _ _ _ _

theorem setFiber_within (vm : VM) (fiber : Nat) :
    Within vm (setFiber vm fiber { vm.fibers fiber with state := .done }) where
  execution := rfl
  currentFiber := rfl
  frameArrays _ _ := rfl
  handlerArrays _ _ := rfl
  arrays := rfl
  fiberCount := rfl
  records other := by
    by_cases same : other = fiber
    · rw [same, setFiber_same]
      rfl
    · rw [setFiber_other vm _ same]
  states other := by
    by_cases same : other = fiber
    · rw [same, setFiber_same]
      exact Or.inr rfl
    · rw [setFiber_other vm _ same]
      exact Or.inl rfl
  generatorCount := rfl
  bodies _ := rfl

theorem csGeneratorFinish_within (vm : VM) (generator : Nat) :
    Within vm (csGeneratorFinish vm generator) := by
  refine Within.trans (Quiet.within ?_) (setFiber_within _ _)
  exact Quiet.setGenerator vm generator _ rfl

/-! ### Switches -/

def Execution.limited (execution : Execution) : Execution :=
  { execution with frameCapacity := CS_FIBER_FRAMES, handlerCapacity := CS_FIBER_HANDLERS }

structure Switched (before after : VM) (fiber : Nat) (current : Option Nat) (state : FiberState) :
    Prop where
  execution : after.execution = (before.fibers fiber).execution
  currentFiber : after.currentFiber = current
  record : (after.fibers fiber).execution = before.execution.limited
  state : (after.fibers fiber).state = state
  others : ∀ other, other ≠ fiber → after.fibers other = before.fibers other
  frameArrays : after.frameArrays = before.frameArrays
  handlerArrays : after.handlerArrays = before.handlerArrays
  arrays : after.arrays = before.arrays
  fiberCount : after.fiberCount = before.fiberCount
  generators : after.generators = before.generators
  generatorCount : after.generatorCount = before.generatorCount

theorem beginFiber_switched (vm : VM) (fiber : Nat) :
    Switched vm (beginFiber vm fiber) fiber (some fiber) .running where
  execution := by
    rw [beginFiber, swapExecutionState, setFiber_same]
    rfl
  currentFiber := rfl
  record := by
    rw [beginFiber, swapExecutionState, setFiber_same]
    rfl
  state := by
    rw [beginFiber, swapExecutionState, setFiber_same, setFiber_same]
    rfl
  others other apart := by
    rw [beginFiber, swapExecutionState, setFiber_other _ _ apart]
    exact setFiber_other _ _ apart
  frameArrays := rfl
  handlerArrays := rfl
  arrays := rfl
  fiberCount := rfl
  generators := rfl
  generatorCount := rfl

theorem endFiber_switched (vm : VM) (fiber : Nat) (enclosing : Option Nat) (state : FiberState) :
    Switched vm (endFiber vm fiber enclosing state) fiber enclosing state where
  execution := by
    rw [endFiber, swapExecutionState, setFiber_same]
    rfl
  currentFiber := rfl
  record := by
    rw [endFiber, swapExecutionState, setFiber_same, setFiber_same]
    rfl
  state := by
    rw [endFiber, swapExecutionState, setFiber_same, setFiber_same, setFiber_same]
    rfl
  others other apart := by
    rw [endFiber, swapExecutionState, setFiber_other _ _ apart]
    exact (setFiber_other _ _ apart).trans (setFiber_other _ _ apart)
  frameArrays := rfl
  handlerArrays := rfl
  arrays := rfl
  fiberCount := rfl
  generators := rfl
  generatorCount := rfl

/-! ### Arrays of their own -/

structure Apart (pick : Execution → Nat) (vm : VM) : Prop where
  inline : pick vm.execution < vm.arrays
  allocated : ∀ fiber < vm.fiberCount, pick (vm.fibers fiber).execution < vm.arrays
  apart : ∀ fiber < vm.fiberCount, pick (vm.fibers fiber).execution ≠ pick vm.execution
  distinct : ∀ fiber < vm.fiberCount, ∀ other < vm.fiberCount,
    pick (vm.fibers fiber).execution = pick (vm.fibers other).execution → fiber = other

namespace Apart

variable {pick : Execution → Nat} {before after : VM}

theorem within (held : Apart pick before) (within : Within before after)
    (same : pick after.execution = pick before.execution) : Apart pick after where
  inline := by
    rw [same, within.arrays]
    exact held.inline
  allocated fiber bound := by
    rw [within.records, within.arrays]
    exact held.allocated fiber (within.fiberCount ▸ bound)
  apart fiber bound := by
    rw [within.records, same]
    exact held.apart fiber (within.fiberCount ▸ bound)
  distinct fiber bound other otherBound equal := by
    rw [within.records, within.records] at equal
    exact held.distinct fiber (within.fiberCount ▸ bound) other (within.fiberCount ▸ otherBound)
      equal

theorem switched {fiber : Nat} {current : Option Nat} {state : FiberState}
    (held : Apart pick before) (switched : Switched before after fiber current state)
    (allocated : fiber < before.fiberCount)
    (limited : pick before.execution.limited = pick before.execution) : Apart pick after where
  inline := by
    rw [switched.execution, switched.arrays]
    exact held.allocated fiber allocated
  allocated other bound := by
    rw [switched.fiberCount] at bound
    rw [switched.arrays]
    by_cases same : other = fiber
    · rw [same, switched.record, limited]
      exact held.inline
    · rw [switched.others other same]
      exact held.allocated other bound
  apart other bound := by
    rw [switched.fiberCount] at bound
    rw [switched.execution]
    by_cases same : other = fiber
    · rw [same, switched.record, limited]
      exact (held.apart fiber allocated).symm
    · rw [switched.others other same]
      exact fun equal => same (held.distinct other bound fiber allocated equal)
  distinct one oneBound two twoBound equal := by
    rw [switched.fiberCount] at oneBound twoBound
    by_cases first : one = fiber
    · by_cases second : two = fiber
      · rw [first, second]
      · rw [first, switched.record, limited, switched.others two second] at equal
        exact absurd equal.symm (held.apart two twoBound)
    · by_cases second : two = fiber
      · rw [second, switched.record, limited, switched.others one first] at equal
        exact absurd equal (held.apart one oneBound)
      · rw [switched.others one first, switched.others two second] at equal
        exact held.distinct one oneBound two twoBound equal

theorem grown (held : Apart pick before)
    (old : ∀ fiber < before.fiberCount, after.fibers fiber = before.fibers fiber)
    (inline : pick after.execution = pick before.execution)
    (created : pick (after.fibers before.fiberCount).execution = before.arrays)
    (arrays : after.arrays = before.arrays + 1)
    (fiberCount : after.fiberCount = before.fiberCount + 1) : Apart pick after where
  inline := by
    rw [inline, arrays]
    exact Nat.lt_succ_of_lt held.inline
  allocated fiber bound := by
    rw [fiberCount] at bound
    rw [arrays]
    cases Nat.lt_succ_iff_lt_or_eq.mp bound with
    | inl bound =>
        rw [old fiber bound]
        exact Nat.lt_succ_of_lt (held.allocated fiber bound)
    | inr last =>
        rw [last, created]
        exact Nat.lt_succ_self _
  apart fiber bound := by
    rw [fiberCount] at bound
    rw [inline]
    cases Nat.lt_succ_iff_lt_or_eq.mp bound with
    | inl bound =>
        rw [old fiber bound]
        exact held.apart fiber bound
    | inr last =>
        rw [last, created]
        exact (Nat.ne_of_lt held.inline).symm
  distinct one oneBound two twoBound equal := by
    rw [fiberCount] at oneBound twoBound
    cases Nat.lt_succ_iff_lt_or_eq.mp oneBound with
    | inl oneBound =>
        rw [old one oneBound] at equal
        cases Nat.lt_succ_iff_lt_or_eq.mp twoBound with
        | inl twoBound =>
            rw [old two twoBound] at equal
            exact held.distinct one oneBound two twoBound equal
        | inr last =>
            rw [last, created] at equal
            exact absurd equal (Nat.ne_of_lt (held.allocated one oneBound))
    | inr first =>
        cases Nat.lt_succ_iff_lt_or_eq.mp twoBound with
        | inl twoBound =>
            rw [first, created, old two twoBound] at equal
            exact absurd equal.symm (Nat.ne_of_lt (held.allocated two twoBound))
        | inr last => rw [first, last]

end Apart

/-! ### The chain of interrupted states -/

structure Kept (vm : VM) (fiber : Nat) (left : Snapshot) : Prop where
  record : (vm.fibers fiber).execution = left.execution.limited
  frames : vm.frameArrays left.execution.frames = left.frames
  handlers : vm.handlerArrays left.execution.handlers = left.handlers

theorem Kept.within {before after : VM} {fiber : Nat} {left : Snapshot}
    (kept : Kept before fiber left) (within : Within before after)
    (frames : Apart Execution.frames before) (handlers : Apart Execution.handlers before)
    (allocated : fiber < before.fiberCount) : Kept after fiber left where
  record := (within.records fiber).trans kept.record
  frames := by
    have apart := frames.apart fiber allocated
    rw [kept.record] at apart
    exact (within.frameArrays _ apart).trans kept.frames
  handlers := by
    have apart := handlers.apart fiber allocated
    rw [kept.record] at apart
    exact (within.handlerArrays _ apart).trans kept.handlers

section

variable {before after : VM} {fiber : Nat} {current : Option Nat} {state : FiberState}

theorem Kept.switched {other : Nat} {left : Snapshot} (kept : Kept before other left)
    (switched : Switched before after fiber current state) (apart : other ≠ fiber) :
    Kept after other left where
  record := by
    rw [switched.others other apart]
    exact kept.record
  frames := by
    rw [switched.frameArrays]
    exact kept.frames
  handlers := by
    rw [switched.handlerArrays]
    exact kept.handlers

theorem Switched.kept (switched : Switched before after fiber current state) :
    Kept after fiber before.snapshot where
  record := switched.record
  frames := by
    rw [switched.frameArrays]
    rfl
  handlers := by
    rw [switched.handlerArrays]
    rfl

theorem Switched.snapshot {left : Snapshot} (switched : Switched before after fiber current state)
    (kept : Kept before fiber left) (currentFiber : current = left.currentFiber) :
    after.snapshot = { left with execution := left.execution.limited } := by
  have execution : after.execution = left.execution.limited :=
    switched.execution.trans kept.record
  unfold VM.snapshot
  rw [execution, switched.currentFiber, currentFiber, switched.frameArrays, switched.handlerArrays]
  congr
  · exact kept.frames
  · exact kept.handlers

end

def Linked : Option Nat → List Call → Prop
  | current, [] => current = none
  | current, call :: rest => current = some call.fiber ∧ Linked call.enclosing rest

structure Interrupted (vm : VM) (call : Call) : Prop where
  kept : Kept vm call.fiber call.left
  enclosing : call.enclosing = call.left.currentFiber
  frameCapacity : call.left.execution.frameCapacity = CS_FIBER_FRAMES

structure Stopped (vm : VM) (fiber : Nat) (left : Snapshot) : Prop where
  kept : Kept vm fiber left
  current : left.currentFiber = some fiber
  limited : left.execution.limited = left.execution
  started : (vm.fibers fiber).state ≠ .ready

structure Good (machine : Machine) : Prop where
  linked : Linked machine.vm.currentFiber machine.calls
  nodup : machine.running.Nodup
  allocated : ∀ fiber ∈ machine.running, fiber < machine.vm.fiberCount
  frameCapacity : machine.vm.execution.frameCapacity = CS_FIBER_FRAMES
  handlerCapacity : machine.calls ≠ [] →
    machine.vm.execution.handlerCapacity = CS_FIBER_HANDLERS
  frames : Apart Execution.frames machine.vm
  handlers : Apart Execution.handlers machine.vm
  interrupted : ∀ call ∈ machine.calls, Interrupted machine.vm call
  busy : ∀ fiber ∈ machine.running, (machine.vm.fibers fiber).state ≠ .suspended
  stopped : ∀ fiber left, fiber ∉ machine.running → machine.stopped fiber = some left →
    Stopped machine.vm fiber left
  fresh : ∀ fiber, machine.vm.fiberCount ≤ fiber → machine.stopped fiber = none
  bodies : ∀ generator < machine.vm.generatorCount,
    (machine.vm.generators generator).fiber < machine.vm.fiberCount

namespace Good

variable {machine : Machine}

theorem has_fiber (good : Good machine) {fiber : Nat} {left : Snapshot}
    (stopped : machine.stopped fiber = some left) : fiber < machine.vm.fiberCount := by
  by_contra beyond
  rw [good.fresh fiber (Nat.le_of_not_lt beyond)] at stopped
  cases stopped

theorem within (good : Good machine) {vm : VM} (within : Within machine.vm vm) :
    Good { machine with vm } where
  linked := by
    rw [within.currentFiber]
    exact good.linked
  nodup := good.nodup
  allocated fiber running := by
    rw [within.fiberCount]
    exact good.allocated fiber running
  frameCapacity := by
    rw [within.execution]
    exact good.frameCapacity
  handlerCapacity some_ := by
    rw [within.execution]
    exact good.handlerCapacity some_
  frames := good.frames.within within within.frames
  handlers := good.handlers.within within within.handlers
  interrupted call member :=
    have interrupted := good.interrupted call member
    { interrupted with
      kept := interrupted.kept.within within good.frames good.handlers
        (good.allocated call.fiber (List.mem_map_of_mem member)) }
  busy fiber running := by
    cases within.states fiber with
    | inl same =>
        rw [same]
        exact good.busy fiber running
    | inr isDone =>
        rw [isDone]
        exact FiberState.noConfusion
  stopped fiber left idle known := by
    have stopped := good.stopped fiber left idle known
    refine { stopped with kept := ?_, started := ?_ }
    · exact stopped.kept.within within good.frames good.handlers (good.has_fiber known)
    · cases within.states fiber with
      | inl same =>
          rw [same]
          exact stopped.started
      | inr isDone =>
          rw [isDone]
          exact FiberState.noConfusion
  fresh fiber beyond := good.fresh fiber (within.fiberCount ▸ beyond)
  bodies generator bound := by
    rw [within.bodies, within.fiberCount]
    exact good.bodies generator (within.generatorCount ▸ bound)

end Good

end CScript.Fibers
