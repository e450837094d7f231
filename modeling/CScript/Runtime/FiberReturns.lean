/-
Every step keeps the chain of interrupted states, and what comes back is what was
left but for the limit of its handlers.
-/

import CScript.Runtime.FiberChain

namespace CScript.Fibers

/-! ### Starting and stopping a fiber -/

namespace Good

variable {vm : VM} {calls : List Call} {stopped : Nat → Option Snapshot}

theorem begins (good : Good ⟨vm, calls, stopped⟩) {fiber : Nat} (allocated : fiber < vm.fiberCount)
    (idle : fiber ∉ calls.map Call.fiber) (entry : Entry) :
    Good ⟨beginFiber vm fiber, ⟨fiber, vm.currentFiber, entry, vm.snapshot⟩ :: calls, stopped⟩ := by
  have switched := beginFiber_switched vm fiber
  have others : ∀ other ∈ calls.map Call.fiber, other ≠ fiber := fun other member same =>
    idle (same ▸ member)
  exact
    { linked := ⟨rfl, good.linked⟩
      nodup := List.nodup_cons.mpr ⟨idle, good.nodup⟩
      allocated := by
        intro other member
        cases List.mem_cons.mp member with
        | inl same => exact same ▸ allocated
        | inr member => exact good.allocated other member
      frameCapacity := congrArg Execution.frameCapacity switched.execution
      handlerCapacity := fun _ => congrArg Execution.handlerCapacity switched.execution
      frames := good.frames.switched switched allocated rfl
      handlers := good.handlers.switched switched allocated rfl
      interrupted := by
        intro call member
        cases List.mem_cons.mp member with
        | inl same =>
            rw [same]
            exact { kept := switched.kept, enclosing := rfl, frameCapacity := good.frameCapacity }
        | inr member =>
            have interrupted := good.interrupted call member
            exact { interrupted with
              kept := interrupted.kept.switched switched
                (others call.fiber (List.mem_map_of_mem member)) }
      busy := by
        intro other member
        cases List.mem_cons.mp member with
        | inl same =>
            have running : ((beginFiber vm fiber).fibers other).state = .running :=
              same ▸ switched.state
            rw [running]
            exact FiberState.noConfusion
        | inr member =>
            rw [switched.others other (others other member)]
            exact good.busy other member
      stopped := by
        intro other left absent known
        have apart : other ≠ fiber := fun same => absent (same ▸ List.mem_cons_self)
        have held := good.stopped other left (fun member => absent (List.mem_cons_of_mem _ member))
          known
        refine { held with kept := held.kept.switched switched apart, started := ?_ }
        rw [switched.others other apart]
        exact held.started
      fresh := good.fresh
      bodies := good.bodies }

theorem ends {call : Call} (good : Good ⟨vm, call :: calls, stopped⟩) {state : FiberState}
    (started : state ≠ .ready) {mark : Option Snapshot}
    (marked : mark = none ∨ mark = some vm.snapshot) :
    Good ⟨endFiber vm call.fiber call.enclosing state, calls,
      Function.update stopped call.fiber mark⟩ := by
  have switched := endFiber_switched vm call.fiber call.enclosing state
  have allocated := good.allocated call.fiber List.mem_cons_self
  have interrupted := good.interrupted call List.mem_cons_self
  have limited := switched.execution.trans interrupted.kept.record
  have others : ∀ other ∈ calls.map Call.fiber, other ≠ call.fiber := fun other member same =>
    (List.nodup_cons.mp good.nodup).1 (same ▸ member)
  exact
    { linked := good.linked.2
      nodup := (List.nodup_cons.mp good.nodup).2
      allocated := fun other member => good.allocated other (List.mem_cons_of_mem _ member)
      frameCapacity := congrArg Execution.frameCapacity limited
      handlerCapacity := fun _ => congrArg Execution.handlerCapacity limited
      frames := good.frames.switched switched allocated rfl
      handlers := good.handlers.switched switched allocated rfl
      interrupted := by
        intro other member
        have held := good.interrupted other (List.mem_cons_of_mem _ member)
        exact { held with
          kept := held.kept.switched switched (others other.fiber (List.mem_map_of_mem member)) }
      busy := by
        intro other member
        rw [switched.others other (others other member)]
        exact good.busy other (List.mem_cons_of_mem _ member)
      stopped := by
        intro other left absent known
        by_cases same : other = call.fiber
        · rw [same] at known ⊢
          dsimp only at known
          rw [Function.update_self] at known
          cases marked with
          | inl none_ =>
              rw [none_] at known
              cases known
          | inr some_ =>
              rw [some_] at known
              rw [← Option.some.inj known]
              refine ⟨switched.kept, good.linked.1, ?_, ?_⟩
              · have frameCapacity := good.frameCapacity
                have handlerCapacity := good.handlerCapacity (List.cons_ne_nil _ _)
                show vm.execution.limited = vm.execution
                unfold Execution.limited
                rw [← frameCapacity, ← handlerCapacity]
              · rw [switched.state]
                exact started
        · dsimp only at known
          rw [Function.update_of_ne same] at known
          have away : other ∉ (call :: calls).map Call.fiber := by
            intro member
            cases List.mem_cons.mp member with
            | inl equal => exact same equal
            | inr member => exact absent member
          have held := good.stopped other left away known
          refine { held with kept := held.kept.switched switched same, started := ?_ }
          rw [switched.others other same]
          exact held.started
      fresh := by
        intro other beyond
        have bound : vm.fiberCount ≤ other := beyond
        have apart : other ≠ call.fiber := by
          intro same
          have inside : call.fiber < vm.fiberCount := allocated
          omega
        exact (Function.update_of_ne apart ..).trans (good.fresh other bound)
      bodies := good.bodies }

theorem comes_back {call : Call} (good : Good ⟨vm, call :: calls, stopped⟩) (state : FiberState) :
    (endFiber vm call.fiber call.enclosing state).snapshot =
      { call.left with execution := call.left.execution.limited } := by
  have interrupted := good.interrupted call List.mem_cons_self
  exact (endFiber_switched vm call.fiber call.enclosing state).snapshot interrupted.kept
    interrupted.enclosing

theorem finds (good : Good ⟨vm, calls, stopped⟩) {fiber : Nat} {left : Snapshot}
    (idle : fiber ∉ calls.map Call.fiber) (known : stopped fiber = some left) :
    (beginFiber vm fiber).snapshot = left := by
  have held := good.stopped fiber left idle known
  rw [(beginFiber_switched vm fiber).snapshot held.kept held.current.symm, held.limited]

theorem enters {machine : Machine} (good : Good machine) {fiber : Nat}
    (allocated : fiber < machine.vm.fiberCount) (idle : fiber ∉ machine.running) (entry : Entry)
    {deliver : VM → VM} (delivers : ∀ vm, Within vm (deliver vm)) :
    Good (enterFiber machine fiber entry deliver) := by
  have begun := good.begins allocated idle entry
  exact begun.within ((delivers _).trans (Quiet.clearFlags _).within)

/-! ### A fiber of its own -/

theorem fiberNew {machine : Machine} (good : Good machine) (closure argCount : Nat)
    (promise generator : Option Nat) :
    Good { machine with vm := csFiberNew machine.vm closure argCount promise generator } := by
  have old : ∀ fiber < machine.vm.fiberCount,
      (csFiberNew machine.vm closure argCount promise generator).fibers fiber =
        machine.vm.fibers fiber := fun fiber bound =>
    Function.update_of_ne (Nat.ne_of_lt bound) ..
  have created : ((csFiberNew machine.vm closure argCount promise generator).fibers
      machine.vm.fiberCount) = _ := Function.update_self ..
  have kept : ∀ fiber left, fiber < machine.vm.fiberCount → Kept machine.vm fiber left →
      Kept (csFiberNew machine.vm closure argCount promise generator) fiber left := by
    intro fiber left bound held
    have frames := good.frames.allocated fiber bound
    have handlers := good.handlers.allocated fiber bound
    rw [held.record] at frames handlers
    exact
      { record := by
          rw [old fiber bound]
          exact held.record
        frames := (Function.update_of_ne (Nat.ne_of_lt frames) ..).trans held.frames
        handlers := (Function.update_of_ne (Nat.ne_of_lt handlers) ..).trans held.handlers }
  exact
    { good with
      allocated := fun fiber member => Nat.lt_succ_of_lt (good.allocated fiber member)
      frames := good.frames.grown old rfl (congrArg (fun fiber => fiber.execution.frames) created)
        rfl rfl
      handlers := good.handlers.grown old rfl
        (congrArg (fun fiber => fiber.execution.handlers) created) rfl rfl
      interrupted := fun call member =>
        have interrupted := good.interrupted call member
        { interrupted with
          kept := kept call.fiber call.left
            (good.allocated call.fiber (List.mem_map_of_mem member)) interrupted.kept }
      busy := by
        intro fiber member
        dsimp only
        rw [old fiber (good.allocated fiber member)]
        exact good.busy fiber member
      stopped := by
        intro fiber left idle known
        have held := good.stopped fiber left idle known
        have bound := good.has_fiber known
        refine { held with kept := kept fiber left bound held.kept, started := ?_ }
        dsimp only
        rw [old fiber bound]
        exact held.started
      fresh := fun fiber beyond => good.fresh fiber (Nat.le_of_succ_le beyond)
      bodies := fun generator bound => Nat.lt_succ_of_lt (good.bodies generator bound) }

theorem generatorNew {machine : Machine} (good : Good machine) (record : ObjGenerator)
    (body : record.fiber < machine.vm.fiberCount) :
    Good { machine with vm := { machine.vm with
      generators := Function.update machine.vm.generators machine.vm.generatorCount record
      generatorCount := machine.vm.generatorCount + 1 } } :=
  { good with
    frames := { good.frames with }
    handlers := { good.handlers with }
    interrupted := fun call member =>
      have interrupted := good.interrupted call member
      { interrupted with kept := { interrupted.kept with } }
    stopped := fun fiber left idle known =>
      have held := good.stopped fiber left idle known
      { held with kept := { held.kept with } }
    bodies := by
      intro generator bound
      cases Nat.lt_succ_iff_lt_or_eq.mp bound with
      | inl bound =>
          dsimp only
          rw [Function.update_of_ne (Nat.ne_of_lt bound)]
          exact good.bodies generator bound
      | inr last =>
          dsimp only
          rw [last, Function.update_self]
          exact body }

end Good

/-! ### How a call ends -/

def Ends (vm after : VM) (call : Call) : Prop :=
  ∃ taken state, Within vm taken ∧ state ≠ .ready ∧
    (vm.fiberSuspended = true → taken.snapshot = vm.snapshot) ∧
    Quiet (endFiber taken call.fiber call.enclosing state) after

theorem suspended_ends (vm : VM) (call : Call) {after : VM}
    (quiet : Quiet (endFiber (clearFlags vm) call.fiber call.enclosing .suspended) after) :
    Ends vm after call :=
  ⟨clearFlags vm, .suspended, (Quiet.clearFlags vm).within, FiberState.noConfusion,
    fun _ => (Quiet.clearFlags vm).snapshot, quiet⟩

theorem finished_ends {vm taken : VM} (call : Call) {after : VM} (within : Within vm taken)
    (isOver : vm.fiberSuspended ≠ true)
    (quiet : Quiet (endFiber taken call.fiber call.enclosing .done) after) : Ends vm after call :=
  ⟨taken, .done, within, FiberState.noConfusion, fun suspended => absurd suspended isOver, quiet⟩

theorem takeResult_within (vm : VM) (result : InterpretResult) :
    Within vm (takeResult vm result).2 := by
  unfold takeResult
  split
  · exact csVMPop_within vm
  · exact (Quiet.refl vm).within

theorem finishFiber_quiet (vm taken : VM) (fiber : Nat) (enclosing : Option Nat)
    (settlement : Settlement) :
    Quiet (endFiber taken fiber enclosing .done)
      (match (vm.fibers fiber).promise with
        | none => endFiber taken fiber enclosing .done
        | some promise => settlePromise (endFiber taken fiber enclosing .done) promise settlement) := by
  cases (vm.fibers fiber).promise with
  | none => exact Quiet.refl _
  | some promise => exact Quiet.settlePromise _ promise settlement

theorem finishFiber_ends {vm : VM} (call : Call) (result : InterpretResult)
    (isOver : vm.fiberSuspended ≠ true) :
    Ends vm (finishFiber vm call.fiber call.enclosing result) call := by
  cases result with
  | ok =>
      exact finished_ends call (csVMPop_within vm) isOver
        (finishFiber_quiet (csVMPop vm).2 (csVMPop vm).2 call.fiber call.enclosing _)
  | runtimeError =>
      exact finished_ends call (Quiet.takePending vm).within isOver
        (finishFiber_quiet (takePending vm).2 (takePending vm).2 call.fiber call.enclosing _)

theorem stopRunning_ends (vm : VM) (call : Call) (result : InterpretResult) :
    Ends vm (stopRunning vm call.fiber call.enclosing result) call := by
  unfold stopRunning
  split
  · exact suspended_ends vm call (Quiet.refl _)
  · rename_i isOver
    exact finishFiber_ends call result isOver

theorem stopResumed_ends (vm : VM) (call : Call) (result : InterpretResult) :
    Ends vm (stopResumed vm call.fiber call.enclosing result) call := by
  unfold stopResumed
  split
  · refine suspended_ends vm call ?_
    dsimp only
    split
    · exact Quiet.refl _
    · exact Quiet.settleGeneratorStep _ _ _ _ _
  · rename_i isOver
    split
    · exact finishFiber_ends call result isOver
    · rename_i generator _
      have told : ∀ told, Within vm told →
          Within vm (setGenerator (takeResult told result).2 generator
            { (takeResult told result).2.generators generator with
              yielded := (takeResult told result).1, done := true }) := fun told within =>
        (within.trans (takeResult_within told result)).trans
          (Quiet.within (Quiet.setGenerator _ generator _ rfl))
      cases result with
      | ok =>
          exact finished_ends call (told vm (Quiet.refl vm).within) isOver
            (Quiet.settleGeneratorStep _ generator _ _ _)
      | runtimeError =>
          exact finished_ends call (told _ (Quiet.takePending vm).within) isOver
            (Quiet.settleGeneratorStep _ generator _ _ _)

theorem reportNext_quiet (vm : VM) (generator : Nat) (yielded : Bool) (ran : InterpretResult) :
    Quiet vm (reportNext vm generator yielded ran) := by
  unfold reportNext
  dsimp only
  split
  · split
    · exact Quiet.settleGeneratorStep vm _ _ _ _
    · exact (Quiet.takePending vm).trans (Quiet.settleGeneratorStep _ _ _ _ _)
  · split
    · exact Quiet.setGenerator vm generator _ rfl
    · exact Quiet.refl vm

theorem stopNext_quiet (stopped : VM) (generator : Nat) (yielded : Bool) (ran : InterpretResult) :
    Quiet stopped
      (reportNext
        (setGenerator stopped generator { stopped.generators generator with running := false })
        generator yielded ran) :=
  Quiet.trans
    (Quiet.setGenerator stopped generator { stopped.generators generator with running := false } rfl)
    (reportNext_quiet _ _ _ _)

theorem stopNext_ends (vm : VM) (generator : Nat) (call : Call) (result : InterpretResult) :
    Ends vm (stopNext vm generator call.fiber call.enclosing result) call := by
  by_cases suspended : vm.fiberSuspended = true
  · have stops : stopDriving vm generator call.fiber call.enclosing result =
        ((vm.fiberYielded, .ok), endFiber (clearFlags vm) call.fiber call.enclosing .suspended) :=
      if_pos suspended
    unfold stopNext
    rw [stops]
    exact suspended_ends vm call (stopNext_quiet _ generator _ _)
  · have stops : stopDriving vm generator call.fiber call.enclosing result = _ := if_neg suspended
    unfold stopNext
    rw [stops]
    have taken := (takeResult_within vm result).trans
      (Quiet.within (Quiet.setGenerator _ generator
        { (takeResult vm result).2.generators generator with
          yielded := (takeResult vm result).1, done := true } rfl))
    exact finished_ends call taken suspended (stopNext_quiet _ generator _ _)

theorem stopCall_ends (vm : VM) (call : Call) (result : InterpretResult) :
    Ends vm (stopCall vm call result) call := by
  unfold stopCall
  split
  · exact stopRunning_ends vm call result
  · exact stopResumed_ends vm call result
  · exact stopNext_ends vm _ call result

theorem runHalts_within {vm : VM} {halt : Halt} {result : InterpretResult} {halted : VM}
    (returns : runHalts vm halt = some (result, halted)) : Within vm halted := by
  cases halt with
  | yield =>
      dsimp only [runHalts] at returns
      split at returns
      · cases returns
      · rename_i generator _
        cases returns
        have yielded := Quiet.setGenerator (csVMPop vm).2 generator
          { (csVMPop vm).2.generators generator with yielded := (csVMPop vm).1 } rfl
        exact ((csVMPop_within vm).trans yielded.within).trans (Quiet.aside _ _ _ _ _ _).within
  | await =>
      dsimp only [runHalts] at returns
      split at returns
      · cases returns
      · cases returns
        exact (csVMPop_within vm).trans (Quiet.aside _ _ _ _ _ _).within
  | return_ =>
      cases returns
      exact (Quiet.refl vm).within
  | error =>
      cases returns
      exact (Quiet.refl vm).within

end CScript.Fibers
