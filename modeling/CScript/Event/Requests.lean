/-
The requests of an async generator are answered, exactly where they do not overlap.

From a generator that stands where one request at a time leaves it, a step keeps
what the requests were promised if and only if the condition allows the step.
-/

import CScript.Event.AsyncGenerator

namespace CScript.AsyncGenerator

/-! ### What settling leaves -/

section Settling

variable {generator : ObjGenerator} (p : Nat) (answer : Answer)

@[simp] theorem settleAnswer_stop : (settleAnswer generator p answer).stop = generator.stop := by
  unfold settleAnswer
  split <;> rfl

@[simp] theorem settleAnswer_received :
    (settleAnswer generator p answer).received = generator.received := by
  unfold settleAnswer
  split <;> rfl

@[simp] theorem settleAnswer_pendingResult :
    (settleAnswer generator p answer).pendingResult = generator.pendingResult := by
  unfold settleAnswer
  split <;> rfl

theorem settleAnswer_control {fiberState : FiberState} {driver : Driver} {running done : Bool}
    {awaits : Nat} (control : Control generator fiberState driver running done awaits) :
    Control (settleAnswer generator p answer) fiberState driver running done awaits := by
  unfold settleAnswer
  split
  · exact { fiberState := control.fiberState, driver := control.driver, running := control.running
            done := control.done, awaits := control.awaits }
  · exact control

end Settling

theorem settleGeneratorStep_once (generator : ObjGenerator) (yielded failed : Bool)
    (reason : Value) {q : Nat} {before : Answer}
    (there : generator.promises[q]? = some (some before)) :
    (settleGeneratorStep generator yielded failed reason).promises[q]? = some (some before) := by
  unfold settleGeneratorStep
  cases generator.pendingResult with
  | none => exact there
  | some waiting =>
      dsimp only
      split
      · exact there
      · split
        · apply settleAnswer_once
          exact there
        · apply settleAnswer_once
          exact there

@[simp] theorem settleGeneratorStep_received (generator : ObjGenerator) (yielded failed : Bool)
    (reason : Value) :
    (settleGeneratorStep generator yielded failed reason).received = generator.received := by
  unfold settleGeneratorStep
  cases generator.pendingResult with
  | none => rfl
  | some waiting =>
      dsimp only
      split
      · rfl
      · split
        · exact settleAnswer_received waiting _
        · exact settleAnswer_received waiting _

theorem stepGenerator_once {generator after : ObjGenerator} {action : GeneratorAction}
    (stepped : stepGenerator generator action = some after) {q : Nat} {before : Answer}
    (there : generator.promises[q]? = some (some before)) :
    after.promises[q]? = some (some before) := by
  cases action with
  | next sent =>
      unfold stepGenerator csGeneratorNextAsync at stepped
      dsimp only at stepped
      split at stepped
      · split at stepped
        · rw [← Option.some.inj stepped]
          apply settleAnswer_once
          exact handed_once there
        · rw [← Option.some.inj stepped]
          apply settleAnswer_once
          exact handed_once there
      · split at stepped
        · cases stepped
        · rw [← Option.some.inj stepped]
          split
          · exact handed_once there
          · exact handed_once there
  | return_ =>
      unfold stepGenerator generatorReturn at stepped
      dsimp only at stepped
      split at stepped
      · exact Option.some.inj stepped ▸ there
      · exact Option.some.inj stepped ▸ there
  | settled value isRejection caught =>
      unfold stepGenerator at stepped
      dsimp only at stepped
      split at stepped
      · cases stepped
      · rw [← Option.some.inj stepped]
        unfold csVMResumeFiber
        dsimp only
        split
        · exact there
        · split
          · split
            · exact there
            · exact there
          · exact there
  | halt halt =>
      have halted : (haltFiber generator halt).promises = generator.promises := by
        cases halt <;> rfl
      unfold stepGenerator haltGenerator at stepped
      dsimp only at stepped
      split at stepped
      · cases stepped
      · rw [← Option.some.inj stepped]
        apply settleGeneratorStep_once
        exact halted ▸ there
      · rw [← Option.some.inj stepped]
        apply settleGeneratorStep_once
        exact halted ▸ there

/-! ### The body stops -/

private theorem settleGeneratorStep_answers {generator : ObjGenerator} {p : Nat}
    (waits : OnlyWaits generator p) (yielded failed : Bool) (reason : Value)
    {fiberState : FiberState} {done : Bool}
    (control : Control generator fiberState .nobody false done 0)
    (ended : (!yielded && !generator.done && !failed) = false) :
    Control (settleGeneratorStep generator yielded failed reason) fiberState .nobody false done 0 ∧
      AllAnswered (settleGeneratorStep generator yielded failed reason) ∧
      (settleGeneratorStep generator yielded failed reason).pendingResult = none ∧
      (settleGeneratorStep generator yielded failed reason).stop = generator.stop := by
  unfold settleGeneratorStep
  rw [waits.pendingResult]
  dsimp only
  rw [ended]
  rw [if_neg Bool.false_ne_true]
  split
  · refine ⟨?_, ?_, ?_, ?_⟩
    · apply settleAnswer_control
      exact { fiberState := control.fiberState, driver := control.driver
              running := control.running, done := control.done, awaits := control.awaits }
    · exact settleAnswer_all _ waits.waits waits.only
    · exact settleAnswer_pendingResult p _
    · exact settleAnswer_stop p _
  · refine ⟨?_, ?_, ?_, ?_⟩
    · apply settleAnswer_control
      exact { fiberState := control.fiberState, driver := control.driver
              running := control.running, done := control.done, awaits := control.awaits }
    · exact settleAnswer_all _ waits.waits waits.only
    · exact settleAnswer_pendingResult p _
    · exact settleAnswer_stop p _

private theorem halted_standing {generator : ObjGenerator} {p : Nat}
    (waits : OnlyWaits generator p) (fiber : generator.done = false) (awaits : generator.awaits = 0)
    (halt : Halt) :
    Standing (settleGeneratorStep
      { haltFiber generator halt with driver := .nobody, running := false }
      halt.yielded halt.failed halt.reason) := by
  cases halt with
  | yield value =>
      have stopped : OnlyWaits
          { haltFiber generator (.yield value) with driver := .nobody, running := false } p :=
        { pendingResult := waits.pendingResult, waits := waits.waits, only := waits.only }
      obtain ⟨control, answered, nothing, stop⟩ := settleGeneratorStep_answers stopped true false
        .undefined { fiberState := rfl, driver := rfl, running := rfl, done := fiber, awaits := awaits }
        rfl
      exact Standing.atYield control stop answered nothing
  | await =>
      have still : settleGeneratorStep
          { haltFiber generator .await with driver := .nobody, running := false } false false
            .undefined =
          { haltFiber generator .await with driver := .nobody, running := false } := by
        unfold settleGeneratorStep haltFiber
        dsimp only
        rw [waits.pendingResult]
        dsimp only
        rw [fiber]
        rfl
      show Standing (settleGeneratorStep
        { haltFiber generator .await with driver := .nobody, running := false } false false .undefined)
      rw [still]
      apply Standing.atAwait p
      · exact { fiberState := rfl, driver := rfl, running := rfl, done := fiber
                awaits := congrArg Nat.succ awaits }
      · rfl
      · exact { pendingResult := waits.pendingResult, waits := waits.waits, only := waits.only }
  | finish value =>
      have stopped : OnlyWaits
          { haltFiber generator (.finish value) with driver := .nobody, running := false } p :=
        { pendingResult := waits.pendingResult, waits := waits.waits, only := waits.only }
      obtain ⟨control, answered, _, _⟩ := settleGeneratorStep_answers stopped false false
        .undefined { fiberState := rfl, driver := rfl, running := rfl, done := rfl, awaits := awaits }
        rfl
      exact Standing.finished control answered
  | throw reason =>
      have stopped : OnlyWaits
          { haltFiber generator (.throw reason) with driver := .nobody, running := false } p :=
        { pendingResult := waits.pendingResult, waits := waits.waits, only := waits.only }
      obtain ⟨control, answered, _, _⟩ := settleGeneratorStep_answers stopped false true
        reason { fiberState := rfl, driver := rfl, running := rfl, done := rfl, awaits := awaits }
        rfl
      exact Standing.finished control answered

theorem haltGenerator_good {generator after : ObjGenerator} {halt : Halt} (good : Good generator)
    (halted : haltGenerator generator halt = some after) : Good after := by
  have received : (haltFiber generator halt).received = generator.received := by
    cases halt <;> rfl
  have idle {fiberState : FiberState} {done : Bool} {awaits : Nat} (running : Bool)
      (control : Control generator fiberState .nobody running done awaits) : Good after := by
    unfold haltGenerator at halted
    rw [control.driver] at halted
    cases halted
  cases good.standing with
  | fresh control _ _ => exact idle false control
  | atYield control _ _ _ => exact idle false control
  | atAwait p control _ _ => exact idle false control
  | finished control _ => exact idle false control
  | driven p control waits =>
      unfold haltGenerator at halted
      rw [control.driver] at halted
      rw [← Option.some.inj halted]
      constructor
      · exact halted_standing waits control.done control.awaits halt
      · rw [settleGeneratorStep_received]
        exact received ▸ good.received
  | resumed p control waits =>
      have quiet : { haltFiber generator halt with driver := .nobody } =
          { haltFiber generator halt with driver := .nobody, running := false } := by
        have running : (haltFiber generator halt).running = false := by
          cases halt <;> exact control.running
        rw [← running]
      unfold haltGenerator at halted
      rw [control.driver] at halted
      dsimp only at halted
      rw [quiet] at halted
      rw [← Option.some.inj halted]
      constructor
      · exact halted_standing waits control.done control.awaits halt
      · rw [settleGeneratorStep_received]
        exact received ▸ good.received

/-! ### Requests and continuations -/

private theorem answered_at_once {generator : ObjGenerator} (answer : Answer) {p : Nat}
    (below : ∀ q : Nat, generator.promises[q]? = some none → q = p)
    (q : Nat) :
    (settleAnswer { generator with promises := generator.promises ++ [none] }
        generator.promises.length answer).promises[q]? = some none →
      q = p ∧ generator.promises[q]? = some none := by
  have last : ({ generator with promises := generator.promises ++ [none] } :
      ObjGenerator).promises[generator.promises.length]? = some none := by
    show (generator.promises ++ [none])[generator.promises.length]? = some none
    rw [handed_at, if_neg (Nat.lt_irrefl _), if_pos rfl]
  intro waits
  rw [settleAnswer_at answer last q] at waits
  split at waits
  · cases waits
  · rename_i different
    have before : generator.promises[q]? = some none := by
      rw [show ({ generator with promises := generator.promises ++ [none] } :
        ObjGenerator).promises[q]? = (generator.promises ++ [none])[q]? from rfl, handed_at] at waits
      rw [if_neg different] at waits
      split at waits
      · exact waits
      · cases waits
    exact ⟨below q before, before⟩

/-- `next` starts the body where it stands. -/
def drive (generator : ObjGenerator) : ObjGenerator :=
  { generator with
    promises := generator.promises ++ [none]
    pendingResult := some generator.promises.length
    running := true
    driver := .next
    fiberState := .running }

private theorem next_drives {generator : ObjGenerator} {fiberState : FiberState} {awaits : Nat}
    (control : Control generator fiberState .nobody false false awaits) (sent : Value) :
    csGeneratorNextAsync generator sent =
      some (if fiberState ≠ .ready then pushValue (drive generator) .request sent
        else drive generator) := by
  have still : ¬ (generator.done || generator.running) = true := by
    rw [control.done, control.running]
    exact Bool.false_ne_true
  unfold csGeneratorNextAsync
  dsimp only
  rw [if_neg still, if_neg (fun other => other control.driver), control.fiberState]
  rfl

private theorem next_refused {generator : ObjGenerator} (running : generator.running = true)
    (sent : Value) :
    csGeneratorNextAsync generator sent =
      some (settleAnswer { generator with promises := generator.promises ++ [none] }
        generator.promises.length (.rejection alreadyRunning)) := by
  unfold csGeneratorNextAsync
  dsimp only
  rw [if_pos (Bool.or_eq_true_iff.mpr (Or.inr running)), if_pos running]

private theorem next_over {generator : ObjGenerator} (done : generator.done = true)
    (idle : generator.running = false) (sent : Value) :
    csGeneratorNextAsync generator sent =
      some (settleAnswer { generator with promises := generator.promises ++ [none] }
        generator.promises.length (.iterationResult .undefined true)) := by
  have still : ¬ generator.running = true := by
    rw [idle]
    exact Bool.false_ne_true
  unfold csGeneratorNextAsync
  dsimp only
  rw [if_pos (Bool.or_eq_true_iff.mpr (Or.inl done)), if_neg still]

private theorem drive_waits {generator : ObjGenerator} (answered : AllAnswered generator) :
    OnlyWaits (drive generator) generator.promises.length := by
  constructor
  · rfl
  · exact (handed_only answered _).mpr rfl
  · intro q waits
    exact (handed_only answered q).mp waits

theorem next_good {generator after : ObjGenerator} {sent : Value} (good : Good generator)
    (allows : Allows generator (.next sent))
    (stepped : csGeneratorNextAsync generator sent = some after) : Good after := by
  have refused (idle : generator.running = false) (p : Nat)
      (waits : generator.promises[p]? = some none) : Good after :=
    absurd waits (allows idle p)
  cases good.standing with
  | fresh control answered nothing =>
      rw [next_drives control] at stepped
      rw [← Option.some.inj stepped]
      constructor
      · apply Standing.driven generator.promises.length
        · exact { fiberState := rfl, driver := rfl, running := rfl, done := control.done
                  awaits := control.awaits }
        · exact drive_waits answered
      · exact good.received
  | driven p control waits =>
      rw [next_refused control.running] at stepped
      rw [← Option.some.inj stepped]
      have below := answered_at_once (.rejection alreadyRunning) waits.only
      constructor
      · apply Standing.driven p
        · apply settleAnswer_control
          exact { fiberState := control.fiberState, driver := control.driver
                  running := control.running, done := control.done, awaits := control.awaits }
        · constructor
          · exact (settleAnswer_pendingResult _ _).trans waits.pendingResult
          · have bound := (List.getElem?_eq_some_iff.mp waits.waits).1
            rw [settleAnswer_at]
            · rw [if_neg (Nat.ne_of_lt bound)]
              exact (List.getElem?_append_left bound).trans waits.waits
            · show (generator.promises ++ [none])[generator.promises.length]? = some none
              rw [handed_at, if_neg (Nat.lt_irrefl _), if_pos rfl]
          · intro q still
            exact (below q still).1
      · exact (settleAnswer_received _ _).symm ▸ good.received
  | resumed p control waits => exact refused control.running p waits.waits
  | atYield control stop answered nothing =>
      rw [next_drives control] at stepped
      rw [← Option.some.inj stepped]
      constructor
      · apply Standing.driven generator.promises.length
        · exact { fiberState := rfl, driver := rfl, running := rfl, done := control.done
                  awaits := control.awaits }
        · have waits := drive_waits answered
          exact { pendingResult := waits.pendingResult, waits := waits.waits, only := waits.only }
      · intro entry member isRequest
        rcases List.mem_append.mp member with old | new
        · exact good.received entry old isRequest
        · rw [List.mem_singleton.mp new]
          exact stop
  | atAwait p control _ waits => exact refused control.running p waits.waits
  | finished control answered =>
      rw [next_over control.done control.running] at stepped
      rw [← Option.some.inj stepped]
      constructor
      · apply Standing.finished
        · apply settleAnswer_control
          exact { fiberState := control.fiberState, driver := control.driver
                  running := control.running, done := control.done, awaits := control.awaits }
        · intro q still
          obtain ⟨_, before⟩ := answered_at_once (.iterationResult .undefined true)
            (fun q waits => absurd waits (answered q)) (p := 0) q still
          exact answered q before
      · exact (settleAnswer_received _ _).symm ▸ good.received

private theorem return_over {generator : ObjGenerator} (idle : generator.running = false) :
    generatorReturn generator =
      some { generator with done := true, fiberState := .done, yielded := .undefined } := by
  have still : ¬ generator.running = true := by
    rw [idle]
    exact Bool.false_ne_true
  unfold generatorReturn
  rw [if_neg still]

theorem return_good {generator after : ObjGenerator} (good : Good generator)
    (allows : Allows generator .return_) (stepped : generatorReturn generator = some after) :
    Good after := by
  have finishes {fiberState : FiberState} {done : Bool}
      (control : Control generator fiberState .nobody false done 0)
      (answered : AllAnswered generator) : Good after := by
    rw [return_over control.running] at stepped
    rw [← Option.some.inj stepped]
    constructor
    · apply Standing.finished
      · exact { fiberState := rfl, driver := control.driver, running := control.running, done := rfl
                awaits := control.awaits }
      · exact answered
    · exact good.received
  cases good.standing with
  | fresh control answered _ => exact finishes control answered
  | driven p control waits =>
      unfold generatorReturn at stepped
      rw [if_pos control.running] at stepped
      exact Option.some.inj stepped ▸ good
  | resumed p control waits => exact absurd waits.waits (allows control.running p)
  | atYield control _ answered _ => exact finishes control answered
  | atAwait p control _ waits => exact absurd waits.waits (allows control.running p)
  | finished control answered => exact finishes control answered

theorem settled_stands {generator after : ObjGenerator} {value : Value}
    {isRejection caught : Bool} (good : Good generator)
    (stepped : stepGenerator generator (.settled value isRejection caught) = some after) :
    ∃ p, Control generator .suspended .nobody false false 1 ∧ generator.stop = .await ∧
      OnlyWaits generator p ∧
      after = csVMResumeFiber { generator with awaits := generator.awaits - 1 } value isRejection
        caught := by
  have never {fiberState : FiberState} {driver : Driver} {running done : Bool}
      (control : Control generator fiberState driver running done 0) : False := by
    unfold stepGenerator at stepped
    rw [control.awaits] at stepped
    cases stepped
  cases good.standing with
  | fresh control _ _ => exact (never control).elim
  | driven p control _ => exact (never control).elim
  | resumed p control _ => exact (never control).elim
  | atYield control _ _ _ => exact (never control).elim
  | finished control _ => exact (never control).elim
  | atAwait p control stop waits =>
      refine ⟨p, control, stop, waits, ?_⟩
      have there : ¬ (generator.awaits = 0 ∨ generator.driver ≠ .nobody) := by
        rw [control.awaits, control.driver]
        exact fun impossible => impossible.elim Nat.one_ne_zero (fun other => other rfl)
      unfold stepGenerator at stepped
      dsimp only at stepped
      rw [if_neg there] at stepped
      exact (Option.some.inj stepped).symm

theorem settled_good {generator after : ObjGenerator} {value : Value}
    {isRejection caught : Bool} (good : Good generator)
    (allows : Allows generator (.settled value isRejection caught))
    (stepped : stepGenerator generator (.settled value isRejection caught) = some after) :
    Good after := by
  obtain ⟨p, control, _, waits, rfl⟩ := settled_stands good stepped
  have spent : generator.awaits - 1 = 0 := by rw [control.awaits]
  have resumed : Standing { generator with
      awaits := generator.awaits - 1, fiberState := .running, driver := .eventLoop } := by
    apply Standing.resumed p
    · exact { fiberState := rfl, driver := rfl, running := control.running, done := control.done
              awaits := spent }
    · exact { pendingResult := waits.pendingResult, waits := waits.waits, only := waits.only }
  unfold csVMResumeFiber
  rw [if_neg (fun other => other control.fiberState)]
  cases isRejection with
  | true =>
      rw [allows rfl]
      exact { standing := resumed, received := good.received }
  | false =>
      constructor
      · cases resumed with
        | resumed q control waits =>
            apply Standing.resumed q
            · exact { fiberState := rfl, driver := rfl, running := control.running
                      done := control.done, awaits := spent }
            · exact { pendingResult := waits.pendingResult, waits := waits.waits
                      only := waits.only }
        | fresh control _ _ => cases control.fiberState
        | driven q control _ => cases control.driver
        | atYield control _ _ _ => cases control.fiberState
        | atAwait q control _ _ => cases control.fiberState
        | finished control _ => cases control.fiberState
      · intro entry member isRequest
        rcases List.mem_append.mp member with old | new
        · exact good.received entry old isRequest
        · rw [List.mem_singleton.mp new] at isRequest
          cases isRequest

theorem stepGenerator_good {generator after : ObjGenerator} {action : GeneratorAction}
    (good : Good generator) (allows : Allows generator action)
    (stepped : stepGenerator generator action = some after) : Good after := by
  cases action with
  | next sent => exact next_good good allows stepped
  | return_ => exact return_good good allows stepped
  | settled value isRejection caught => exact settled_good good allows stepped
  | halt halt => exact haltGenerator_good good stepped

theorem runGenerator_good {generator after : ObjGenerator} {actions : List GeneratorAction}
    (good : Good generator) (meets : Meets generator actions)
    (ran : runGenerator generator actions = some after) : Good after := by
  induction actions generalizing generator with
  | nil => exact Option.some.inj ran ▸ good
  | cons action rest ih =>
      obtain ⟨allows, others⟩ := meets
      obtain ⟨next, stepped, ranRest⟩ := Option.bind_eq_some_iff.mp ran
      exact ih (stepGenerator_good good allows stepped) (others next stepped) ranRest

/-! ### What a step outside the condition breaks -/

theorem next_overtakes {generator after : ObjGenerator} {sent : Value} (good : Good generator)
    (idle : generator.running = false) {p : Nat} (waits : generator.promises[p]? = some none)
    (stepped : csGeneratorNextAsync generator sent = some after) : ¬ Answers after := by
  cases good.standing with
  | fresh control answered _ => exact absurd waits (answered p)
  | driven q control _ =>
      rw [control.running] at idle
      cases idle
  | resumed q control _ =>
      have open_ : ¬ (generator.done || generator.running) = true := by
        rw [control.done, control.running]
        exact Bool.false_ne_true
      have driven : generator.driver ≠ .nobody := by
        rw [control.driver]
        exact fun impossible => by cases impossible
      unfold csGeneratorNextAsync at stepped
      dsimp only at stepped
      rw [if_neg open_, if_pos driven] at stepped
      cases stepped
  | atYield control _ answered _ => exact absurd waits (answered p)
  | atAwait q control stop _ =>
      rw [next_drives control] at stepped
      rw [← Option.some.inj stepped]
      intro answers
      have arrived : (⟨.request, generator.stop, sent⟩ : Received).stop = .yield :=
        answers.received ⟨.request, generator.stop, sent⟩
          (List.mem_append_right _ (List.mem_singleton.mpr rfl)) rfl
      rw [show (⟨.request, generator.stop, sent⟩ : Received).stop = generator.stop from rfl, stop]
        at arrived
      cases arrived
  | finished control answered => exact absurd waits (answered p)

theorem return_forgets {generator after : ObjGenerator} (idle : generator.running = false)
    {p : Nat} (waits : generator.promises[p]? = some none)
    (stepped : generatorReturn generator = some after) : ¬ Answers after := by
  rw [return_over idle] at stepped
  rw [← Option.some.inj stepped]
  intro answers
  exact answers.answered rfl p waits

theorem uncaught_forgets {generator after : ObjGenerator} {reason : Value} (good : Good generator)
    (stepped : stepGenerator generator (.settled reason true false) = some after) :
    ¬ Answers after := by
  obtain ⟨p, control, _, waits, rfl⟩ := settled_stands good stepped
  unfold csVMResumeFiber
  rw [if_neg (fun other => other control.fiberState)]
  intro answers
  exact answers.answered rfl p waits.waits

/-- From every state that allowed steps reach, a step keeps what requests are
promised exactly when the condition allows it. -/
theorem requests_answered_iff {actions : List GeneratorAction} {generator after : ObjGenerator}
    {action : GeneratorAction} (meets : Meets csGeneratorNew actions)
    (ran : runGenerator csGeneratorNew actions = some generator)
    (stepped : stepGenerator generator action = some after) :
    Answers generator ∧
      ((Answers after ∧ StepAnswers generator action after) ↔ Allows generator action) := by
  have good := runGenerator_good csGeneratorNew_good meets ran
  refine ⟨good.answers, ?_, ?_⟩
  · rintro ⟨answers, _⟩
    cases action with
    | next sent =>
        intro idle p waits
        exact next_overtakes good idle waits stepped answers
    | return_ =>
        intro idle p waits
        exact return_forgets idle waits stepped answers
    | settled value isRejection caught =>
        rintro rfl
        cases caught with
        | true => rfl
        | false => exact absurd answers (uncaught_forgets good stepped)
    | halt halt => exact trivial
  · intro allows
    constructor
    · exact (stepGenerator_good good allows stepped).answers
    · constructor
      · intro p answer there
        exact stepGenerator_once stepped there
      · intro reason uncaught
        subst uncaught
        exact absurd (allows rfl) Bool.false_ne_true

/-- A body that awaits, then yields, and a second request that waits for its turn. -/
theorem requests_answered_iff_in_turn :
    ∃ generator after,
      runGenerator csGeneratorNew
        [.next .null, .halt .await, .settled (.bool true) false false, .halt (.yield .null)] =
          some generator ∧
      stepGenerator generator (.next .null) = some after ∧
      (Answers generator ∧ ((Answers after ∧ StepAnswers generator (.next .null) after) ↔
        Allows generator (.next .null))) := by
  have meets : Meets csGeneratorNew
      [.next .null, .halt .await, .settled (.bool true) false false, .halt (.yield .null)] := by
    refine ⟨fun _ _ waits => (by cases waits), fun first same => ?_⟩
    cases same
    refine ⟨trivial, fun second same => ?_⟩
    cases same
    refine ⟨fun impossible => (by cases impossible), fun third same => ?_⟩
    cases same
    exact ⟨trivial, fun _ _ => trivial⟩
  exact ⟨_, _, rfl, rfl, requests_answered_iff meets rfl rfl⟩

/-- A second `next` while the body awaits: what it sent arrives at the `await`. -/
theorem request_overtakes :
    ¬ ∀ (actions : List GeneratorAction) (generator after : ObjGenerator)
        (action : GeneratorAction), runGenerator csGeneratorNew actions = some generator →
      stepGenerator generator action = some after →
      Answers after ∧ StepAnswers generator action after := by
  intro always
  have answers := (always [.next .null, .halt .await] _ _ (.next (.bool true)) rfl rfl).1
  have arrived := answers.received ⟨.request, .await, .bool true⟩
    (List.mem_singleton.mpr rfl) rfl
  cases arrived

end CScript.AsyncGenerator
