/-
Switching fibers shows only in the limit of handlers, over every run.
-/

import CScript.Runtime.FiberReturns

namespace CScript.Fibers

variable {machine after : Machine}

theorem limited_eq_iff (left : Snapshot)
    (frameCapacity : left.execution.frameCapacity = CS_FIBER_FRAMES) :
    ({ left with execution := left.execution.limited } : Snapshot) = left ↔
      left.execution.handlerCapacity = CS_FIBER_HANDLERS := by
  constructor
  · intro same
    have executions := congrArg (fun left => left.execution.handlerCapacity) same
    exact executions.symm
  · intro handlerCapacity
    have same : left.execution.limited = left.execution := by
      unfold Execution.limited
      rw [← frameCapacity, ← handlerCapacity]
    rw [same]

/-! ### Steps that switch nothing, and steps that start a fiber -/

theorem stays_invisible {action : Action} (calls : after.calls = machine.calls)
    (refused : ∀ fiber value isRejection, action = .resume fiber value isRejection →
      after.vm.snapshot = machine.vm.snapshot) : Invisible machine action after where
  interrupted call more := by
    rw [calls] at more
    exact absurd more.symm (List.cons_ne_self _ _)
  refused fiber value isRejection is_resume _ := refused fiber value isRejection is_resume
  resumed call left more := by
    rw [calls] at more
    exact absurd more.symm (List.cons_ne_self _ _)

theorem enters_invisible {before : Machine} (good : Good before) {fiber : Nat} {entry : Entry}
    {deliver : VM → VM} {action : Action} (calls : before.calls = machine.calls)
    (stopped : before.stopped = machine.stopped) (idle : fiber ∉ before.running)
    (delivers : ∀ left, machine.stopped fiber = some left → deliver = delivered action) :
    Invisible machine action (enterFiber before fiber entry deliver) where
  interrupted call more := by
    rw [← calls] at more
    have lengths := congrArg List.length more
    simp only [enterFiber, List.length_cons] at lengths
    omega
  refused _ _ _ _ same := by
    rw [← calls] at same
    exact absurd same (List.cons_ne_self _ _)
  resumed call left more known := by
    have fibers : fiber = call.fiber := congrArg Call.fiber (List.cons.inj more).1
    rw [← fibers] at known
    refine ⟨beginFiber before.vm fiber, ?_, ?_⟩
    · exact good.finds idle (by rw [stopped]; exact known)
    · rw [← delivers left known]
      rfl

theorem callAsync_spec (good : Good machine) (closure argCount : Nat) :
    Good (enterFiber { machine with vm := callAsyncFunction machine.vm closure argCount }
      machine.vm.fiberCount .runFiber id) ∧
    Invisible machine (.callAsync closure argCount)
      (enterFiber { machine with vm := callAsyncFunction machine.vm closure argCount }
        machine.vm.fiberCount .runFiber id) := by
  have created := good.fiberNew closure argCount (some machine.vm.promises) none
  have handed : Within (csFiberNew machine.vm closure argCount (some machine.vm.promises) none)
      (callAsyncFunction machine.vm closure argCount) :=
    Within.trans (Quiet.aside _ _ _ _ _ _).within (csVMPush_within _ _)
  have called := created.within handed
  have allocated : machine.vm.fiberCount <
      (callAsyncFunction machine.vm closure argCount).fiberCount := by
    rw [handed.fiberCount]
    exact Nat.lt_succ_self _
  have idle : machine.vm.fiberCount ∉ machine.running := fun member =>
    Nat.lt_irrefl _ (good.allocated _ member)
  constructor
  · exact called.enters allocated idle .runFiber (fun vm => (Quiet.refl vm).within)
  · refine enters_invisible called rfl rfl idle ?_
    intro left known
    rw [good.fresh _ (Nat.le_refl _)] at known
    cases known

theorem callGenerator_good (good : Good machine) (closure argCount : Nat) (isAsync : Bool) :
    Good { machine with vm := callGeneratorFunction machine.vm closure argCount isAsync } := by
  have created := good.fiberNew closure argCount none (some machine.vm.generatorCount)
  have body : machine.vm.fiberCount <
      (csFiberNew machine.vm closure argCount none (some machine.vm.generatorCount)).fiberCount :=
    Nat.lt_succ_self _
  have named := created.generatorNew
    { fiber := machine.vm.fiberCount, yielded := .undefined, done := false, running := false
      isAsync, pendingResult := none } body
  exact named.within (csVMPush_within _ _)

theorem driveGenerator_spec (good : Good machine) {vm : VM} (quiet : Quiet machine.vm vm)
    {generator : Nat} (known : generator < machine.vm.generatorCount)
    (idle : (machine.vm.generators generator).fiber ∉ machine.running) (sent : Value) :
    Good (driveGenerator { machine with vm } generator sent) ∧
      Invisible machine (.next generator sent)
        (driveGenerator { machine with vm } generator sent) := by
  have ready := good.within quiet.within
  have body := quiet.within.bodies generator
  have busy := Quiet.setGenerator vm generator { vm.generators generator with running := true } rfl
  have driven := ready.within busy.within
  have allocated : (vm.generators generator).fiber < vm.fiberCount := by
    rw [body, quiet.within.fiberCount]
    exact good.bodies generator known
  have away : (vm.generators generator).fiber ∉ machine.running := by
    rw [body]
    exact idle
  unfold driveGenerator
  dsimp only
  constructor
  · refine driven.enters allocated away _ ?_
    intro loaded
    split
    · exact csVMPush_within loaded sent
    · exact (Quiet.refl loaded).within
  · refine enters_invisible driven rfl rfl away ?_
    intro left stopped
    have started := (ready.stopped _ left away stopped).started
    funext loaded
    exact if_pos started

theorem next_spec (good : Good machine) {generator : Nat} {sent : Value}
    (allowed : Allows machine (.next generator sent))
    (stepped : step machine (.next generator sent) = some after) :
    Good after ∧ Invisible machine (.next generator sent) after := by
  dsimp only [step] at stepped
  split at stepped
  · rename_i known
    have idle : ¬(machine.vm.generators generator).running = true →
        ¬(machine.vm.generators generator).done = true →
        (machine.vm.generators generator).fiber ∉ machine.running := fun halted open_ =>
      allowed (Bool.eq_false_iff.mpr open_) (Bool.eq_false_iff.mpr halted)
    split at stepped
    · cases stepped
      unfold csGeneratorNextAsync
      dsimp only
      split
      · refine ⟨good.within (Quiet.aside _ _ _ _ _ _).within, stays_invisible rfl ?_⟩
        intro fiber value isRejection is_resume
        cases is_resume
      · rename_i halted
        split
        · refine ⟨good.within (Quiet.aside _ _ _ _ _ _).within, stays_invisible rfl ?_⟩
          intro fiber value isRejection is_resume
          cases is_resume
        · rename_i open_
          have counted := Quiet.aside machine.vm machine.vm.fiberSuspended
            machine.vm.fiberYielded machine.vm.pendingException (machine.vm.promises + 1)
            machine.vm.settlements
          refine driveGenerator_spec good (counted.trans ?_) known (idle halted open_) sent
          exact Quiet.setGenerator _ generator _ rfl
    · cases stepped
      unfold csGeneratorNext
      dsimp only
      split
      · refine ⟨good, stays_invisible rfl ?_⟩
        intro fiber value isRejection is_resume
        cases is_resume
      · rename_i free
        rw [Bool.or_eq_true, not_or] at free
        exact driveGenerator_spec good (Quiet.refl _) known (idle free.2 free.1) sent
  · cases stepped

/-! ### A fiber brought back by the event loop -/

theorem unhandled_spec (good : Good machine) {fiber : Nat}
    (allocated : fiber < machine.vm.fiberCount) (idle : fiber ∉ machine.running) (value : Value)
    (unhandled : (performThrow (beginFiber machine.vm fiber) value 0).1 ≠ .handled) :
    Good { machine with
      vm := finishFiber (recordPending (performThrow (beginFiber machine.vm fiber) value 0).2 value)
        fiber machine.vm.currentFiber .runtimeError
      stopped := Function.update machine.stopped fiber
        (some (beginFiber machine.vm fiber).snapshot) } ∧
    (finishFiber (recordPending (performThrow (beginFiber machine.vm fiber) value 0).2 value)
      fiber machine.vm.currentFiber .runtimeError).snapshot =
        { machine.vm.snapshot with execution := machine.vm.execution.limited } := by
  have begun := good.begins allocated idle .csVMResumeFiber
  have taken := ((performThrow_unhandled unhandled).trans (Quiet.recordPending _ value)).trans
    (Quiet.takePending _)
  have loaded := begun.within taken.within
  have quiet := finishFiber_quiet
    (takePending (recordPending (performThrow (beginFiber machine.vm fiber) value 0).2 value)).2
    (takePending (recordPending (performThrow (beginFiber machine.vm fiber) value 0).2 value)).2
    fiber machine.vm.currentFiber
    (.rejected
      (takePending (recordPending (performThrow (beginFiber machine.vm fiber) value 0).2 value)).1)
  constructor
  · have ended := loaded.ends (FiberState.noConfusion : FiberState.done ≠ .ready)
      (Or.inr (congrArg some taken.snapshot.symm))
    exact ended.within quiet.within
  · exact quiet.snapshot.trans (loaded.comes_back .done)

theorem resume_spec (good : Good machine) {fiber : Nat} {value : Value} {isRejection : Bool}
    (stepped : step machine (.resume fiber value isRejection) = some after) :
    Good after ∧ (Invisible machine (.resume fiber value isRejection) after ↔
      Recovers machine (.resume fiber value isRejection)) := by
  dsimp only [step] at stepped
  split at stepped
  · rename_i allocated
    cases stepped
    unfold csVMResumeFiber
    split
    · rename_i elsewhere
      refine ⟨good, iff_of_true (stays_invisible rfl (fun _ _ _ _ => rfl)) ?_⟩
      exact fun _ suspended => absurd suspended elsewhere
    · rename_i suspended
      have suspended := Classical.not_not.mp suspended
      have idle : fiber ∉ machine.running := fun member => good.busy fiber member suspended
      cases isRejection with
      | false =>
          refine ⟨good.enters allocated idle _ (fun vm => csVMPush_within vm value),
            iff_of_true (enters_invisible good rfl rfl idle (fun _ _ => rfl)) ?_⟩
          exact fun never => absurd never Bool.false_ne_true
      | true =>
          rw [if_pos rfl]
          dsimp only
          by_cases handled : (performThrow (beginFiber machine.vm fiber) value 0).1 = .handled
          · rw [if_pos handled]
            refine ⟨good.enters allocated idle _ (fun vm => performThrow_within vm value 0),
              iff_of_true (enters_invisible good rfl rfl idle (fun _ _ => rfl)) ?_⟩
            exact fun _ _ unhandled => absurd handled unhandled
          · rw [if_neg handled]
            have finished := unhandled_spec good allocated idle value handled
            have back := limited_eq_iff machine.vm.snapshot good.frameCapacity
            refine ⟨finished.1, ?_, ?_⟩
            · intro invisible _ _ _
              have same := invisible.refused fiber value true rfl rfl
              exact back.mp (finished.2.symm.trans same)
            · intro recovers
              refine stays_invisible rfl (fun _ _ _ _ => ?_)
              exact finished.2.trans (back.mpr (recovers rfl suspended handled))
  · cases stepped

/-! ### A fiber that stops -/

theorem halt_spec (good : Good machine) {halt : Halt}
    (stepped : step machine (.halt halt) = some after) :
    Good after ∧ (Invisible machine (.halt halt) after ↔ Recovers machine (.halt halt)) := by
  obtain ⟨vm, calls, stopped⟩ := machine
  cases calls with
  | nil => cases stepped
  | cons call rest =>
      obtain ⟨⟨result, halted⟩, returns, is_after⟩ := Option.map_eq_some_iff.mp stepped
      have ran := good.within (runHalts_within returns)
      obtain ⟨taken, state, within, started, same, quiet⟩ := stopCall_ends halted call result
      have stopping := ran.within within
      have marked : (if halted.fiberSuspended then some halted.snapshot else none) = none ∨
          (if halted.fiberSuspended then some halted.snapshot else none) =
            some taken.snapshot := by
        by_cases suspended : halted.fiberSuspended = true
        · rw [if_pos suspended, same suspended]
          exact Or.inr rfl
        · rw [if_neg suspended]
          exact Or.inl rfl
      have ended := stopping.ends started marked
      have snapshot := quiet.snapshot.trans (stopping.comes_back state)
      have back := limited_eq_iff _ (good.interrupted call List.mem_cons_self).frameCapacity
      rw [← is_after]
      refine ⟨ended.within quiet.within, ?_, ?_⟩
      · intro invisible _ other is_head
        rw [← Option.some.inj is_head]
        exact back.mp (snapshot.symm.trans (invisible.interrupted call rfl))
      · intro recovers
        have limit := recovers (by rw [returns]; exact Option.some_ne_none _) call rfl
        refine ⟨?_, ?_, ?_⟩
        · intro other more
          rw [← (List.cons.inj more).1]
          exact snapshot.trans (back.mpr limit)
        · intro fiber value isRejection is_resume
          cases is_resume
        · intro other left more
          have lengths := congrArg List.length more
          simp only [List.length_cons] at lengths
          omega

/-! ### Every run -/

theorem initial_good : Good initial where
  linked := rfl
  nodup := List.nodup_nil
  allocated fiber member := by cases member
  frameCapacity := rfl
  handlerCapacity some_ := absurd rfl some_
  frames :=
    { inline := Nat.zero_lt_one, allocated := fun _ bound => absurd bound (Nat.not_lt_zero _)
      apart := fun _ bound => absurd bound (Nat.not_lt_zero _)
      distinct := fun _ bound => absurd bound (Nat.not_lt_zero _) }
  handlers :=
    { inline := Nat.zero_lt_one, allocated := fun _ bound => absurd bound (Nat.not_lt_zero _)
      apart := fun _ bound => absurd bound (Nat.not_lt_zero _)
      distinct := fun _ bound => absurd bound (Nat.not_lt_zero _) }
  interrupted call member := by cases member
  busy fiber member := by cases member
  stopped fiber left _ known := by cases known
  fresh _ _ := rfl
  bodies _ bound := absurd bound (Nat.not_lt_zero _)

theorem step_spec (good : Good machine) {action : Action} (allowed : Allows machine action)
    (stepped : step machine action = some after) :
    Good after ∧ (Invisible machine action after ↔ Recovers machine action) := by
  cases action with
  | work work =>
      cases stepped
      refine ⟨good.within (workOn_within _ work), iff_of_true (stays_invisible rfl ?_) trivial⟩
      intro fiber value isRejection is_resume
      cases is_resume
  | callAsync closure argCount =>
      cases stepped
      have spec := callAsync_spec good closure argCount
      exact ⟨spec.1, iff_of_true spec.2 trivial⟩
  | callGenerator closure argCount isAsync =>
      cases stepped
      refine ⟨callGenerator_good good closure argCount isAsync,
        iff_of_true (stays_invisible rfl ?_) trivial⟩
      intro fiber value isRejection is_resume
      cases is_resume
  | next generator sent =>
      have spec := next_spec good allowed stepped
      exact ⟨spec.1, iff_of_true spec.2 trivial⟩
  | return_ generator =>
      have calls : after.calls = machine.calls ∧ Good after := by
        dsimp only [step] at stepped
        split at stepped
        · split at stepped
          · cases stepped
            exact ⟨rfl, good⟩
          · cases stepped
            exact ⟨rfl, good.within (csGeneratorFinish_within _ generator)⟩
        · cases stepped
      refine ⟨calls.2, iff_of_true (stays_invisible calls.1 ?_) trivial⟩
      intro fiber value isRejection is_resume
      cases is_resume
  | resume fiber value isRejection => exact resume_spec good stepped
  | halt halt => exact halt_spec good stepped

theorem Reached.good (reached : Reached machine) : Good machine := by
  induction reached with
  | start => exact initial_good
  | step _ allowed stepped ih => exact (step_spec ih allowed stepped).1

/-- In every run, whatever control comes back to is as it was left, exactly where
the limit of its handlers was the one a fiber has: for every state but that of the
main program before its first switch. -/
theorem switching_invisible_iff (reached : Reached machine) {action : Action}
    (allowed : Allows machine action) (stepped : step machine action = some after) :
    Invisible machine action after ↔ Recovers machine action :=
  (step_spec reached.good allowed stepped).2

/-- The main program before a call: the callee is on its stack. -/
def calling : Work :=
  { stackTop := 1, frameCount := 1, handlerCount := 0, openUpvalues := [], pendingException := none
    stackArrays := fun _ _ => .undefined, frames := fun _ => default, handlers := fun _ => default }

/-- The second async call of the main program. -/
theorem switching_invisible_iff_again : ∃ machine after, Reached machine ∧ machine.calls ≠ [] ∧
    step machine (.halt .return_) = some after ∧ Invisible machine (.halt .return_) after := by
  have ready := @Reached.step _ _ (.work calling) Reached.start trivial rfl
  have called := @Reached.step _ _ (.callAsync 0 0) ready trivial rfl
  have back := @Reached.step _ _ (.halt .return_) called trivial rfl
  have again := @Reached.step _ _ (.work calling) back trivial rfl
  have inside := @Reached.step _ _ (.callAsync 0 0) again trivial rfl
  refine ⟨_, _, inside, List.cons_ne_nil _ _, rfl, ?_⟩
  refine (@switching_invisible_iff _ _ inside (.halt .return_) trivial rfl).mpr ?_
  intro _ call is_head
  cases is_head
  rfl

/-- The first async call of the main program leaves it with half its handlers. -/
theorem first_switch_visible : ¬∀ (machine : Machine) (action : Action) (after : Machine),
    Reached machine → Allows machine action → step machine action = some after →
      Invisible machine action after := by
  intro claim
  have ready := @Reached.step _ _ (.work calling) Reached.start trivial rfl
  have called := @Reached.step _ _ (.callAsync 0 0) ready trivial rfl
  have invisible := claim _ (.halt .return_) _ called trivial rfl
  have same := congrArg (fun left => left.execution.handlerCapacity)
    (invisible.interrupted _ rfl)
  exact absurd same (by decide)

end CScript.Fibers
