/-
Which reactions a step registers, and the delivery of all of them.

Each call that waits on promises registers what its caller asked for and nothing
else; every other step registers at most adoptions, which are how a promise
resolved with another one waits for it.
-/

import CScript.Event.Delivery

namespace CScript.EventLoop

/-! ### What a call registers -/

def EventVM.registeredOn (vm : EventVM) (p : Nat) : List Reaction :=
  match vm.promises[p]? with
  | some promise => promise.registered
  | none => []

def reactionsFor (p : Nat) (added : List (Nat × Reaction)) : List Reaction :=
  (added.filter (fun entry => entry.1 = p)).map Prod.snd

def combineWaiters (mode : CombineMode) (state : Nat) : Nat → List Value → List (Nat × Reaction)
  | _, [] => []
  | i, element :: rest =>
      match asPromise element with
      | some p =>
          (p, combineReaction state (combineIndex mode i)) :: combineWaiters mode state (i + 1) rest
      | none => combineWaiters mode state (i + 1) rest

/-- What a program asks for with each call. -/
def EventAction.waiters (vm : EventVM) : EventAction → List (Nat × Reaction)
  | .then_ p onFulfilled onRejected => [(p, plainReaction onFulfilled onRejected (some vm.fresh))]
  | .catch_ p onRejected => [(p, plainReaction .undefined onRejected (some vm.fresh))]
  | .finally_ p handler => [(p, finallyReaction handler vm.fresh)]
  | .await fiber awaited => [((asPromise awaited).getD vm.fresh, awaitReaction fiber)]
  | .combine mode inputs => combineWaiters mode vm.combines.length 0 inputs
  | _ => []

def EventAction.registers : EventAction → Bool
  | .then_ .. | .catch_ .. | .finally_ .. | .await .. | .combine .. => true
  | _ => false

/-- `added` is what the promises were given between `vm` and `after`. -/
structure Registers (vm after : EventVM) (added : List (Nat × Reaction)) : Prop where
  promises : vm.promises.length ≤ after.promises.length
  registered : ∀ p, after.registeredOn p = vm.registeredOn p ++ reactionsFor p added

theorem Registers.same {vm after : EventVM} (promises : after.promises = vm.promises) :
    Registers vm after [] := by
  refine { promises := Nat.le_of_eq (congrArg List.length promises).symm, registered := ?_ }
  intro p
  unfold EventVM.registeredOn
  rw [promises]
  exact (List.append_nil _).symm

theorem Registers.trans {first second third : EventVM} {early late : List (Nat × Reaction)}
    (before : Registers first second early) (after : Registers second third late) :
    Registers first third (early ++ late) where
  promises := Nat.le_trans before.promises after.promises
  registered := by
    intro p
    have both : reactionsFor p (early ++ late) = reactionsFor p early ++ reactionsFor p late := by
      unfold reactionsFor
      rw [List.filter_append, List.map_append]
    rw [after.registered, before.registered, both, List.append_assoc]

theorem Registers.stored {vm after : EventVM} {p : Nat} {promise changed : ObjPromise}
    (reactions : List Reaction) (found : vm.promises[p]? = some promise)
    (stored : after.promises = vm.promises.set p changed)
    (extended : changed.registered = promise.registered ++ reactions) :
    Registers vm after (reactions.map (fun reaction => (p, reaction))) where
  promises := by simp only [stored, List.length_set, Nat.le_refl]
  registered := by
    intro other
    have bound : p < vm.promises.length := (List.getElem?_eq_some_iff.mp found).1
    unfold EventVM.registeredOn
    rw [stored]
    by_cases same : other = p
    · subst same
      have all : reactionsFor other (reactions.map (fun reaction => (other, reaction))) =
          reactions := by
        unfold reactionsFor
        rw [List.filter_eq_self.mpr, List.map_map]
        · exact List.map_id reactions
        · intro entry member
          obtain ⟨reaction, _, rfl⟩ := List.mem_map.mp member
          exact decide_eq_true rfl
      rw [List.getElem?_set_self bound, found, all]
      exact extended
    · have none_ : reactionsFor other (reactions.map (fun reaction => (p, reaction))) = [] := by
        unfold reactionsFor
        rw [List.filter_eq_nil_iff.mpr]
        · rfl
        · intro entry member equal
          obtain ⟨reaction, _, rfl⟩ := List.mem_map.mp member
          exact same (of_decide_eq_true equal).symm
      rw [List.getElem?_set_ne (Ne.symm same), none_, List.append_nil]

theorem register_promises {vm : EventVM} {p : Nat} {promise : ObjPromise} (reaction : Reaction)
    (found : vm.promises[p]? = some promise) :
    (register vm p reaction).promises = vm.promises.set p
      { promise with
        handled := true
        registered := promise.registered ++ [reaction]
        reactions := if promise.state = .pending then promise.reactions ++ [reaction]
          else promise.reactions } := by
  unfold register
  rw [found]
  dsimp only
  by_cases pending : promise.state = .pending
  · rw [if_pos pending, if_pos pending]
    rfl
  · rw [if_neg pending, if_neg pending, enqueue_promises]
    rfl

theorem register_registers {vm : EventVM} {p : Nat} (reaction : Reaction)
    (bound : p < vm.promises.length) :
    Registers vm (register vm p reaction) [(p, reaction)] :=
  have found : vm.promises[p]? = some vm.promises[p] := List.getElem?_eq_getElem bound
  Registers.stored [reaction] found (register_promises reaction found) rfl

theorem settle_promises {vm : EventVM} {p : Nat} {promise : ObjPromise} {state : PromiseState}
    {value : Value} (found : vm.promises[p]? = some promise) (pending : promise.state = .pending) :
    (settle vm p state value).promises =
      vm.promises.set p { promise with state, value, reactions := [] } := by
  unfold settle
  rw [found]
  dsimp only
  rw [if_neg (fun settled => settled pending), queueReactions_eq]
  unfold csVMNoteRejection EventVM.setPromise
  split
  · dsimp only
    rw [enqueueAll_promises, List.set_set]
  · dsimp only
    rw [enqueueAll_promises, List.set_set]

theorem settle_registers (vm : EventVM) (p : Nat) (state : PromiseState) (value : Value) :
    Registers vm (settle vm p state value) [] := by
  by_cases waits : ∃ promise, vm.promises[p]? = some promise ∧ promise.state = .pending
  · obtain ⟨promise, found, pending⟩ := waits
    exact Registers.stored [] found (settle_promises found pending)
      (List.append_nil _).symm
  · rw [settle_settled (fun promise found pending => waits ⟨promise, found, pending⟩)]
    exact Registers.same rfl

theorem fulfillPlain_registers (vm : EventVM) (p : Nat) {value : Value}
    (plain : asPromise value = none) : Registers vm (csPromiseFulfill vm p value) [] := by
  rw [csPromiseFulfill_settles plain]
  exact settle_registers vm p .fulfilled value

theorem csPromiseNew_registers (vm : EventVM) : Registers vm (csPromiseNew vm) [] where
  promises := List.length_append ▸ Nat.le_add_right _ _
  registered := by
    intro p
    have nothing : reactionsFor p [] = [] := rfl
    rw [nothing, List.append_nil]
    unfold EventVM.registeredOn csPromiseNew
    by_cases old : p < vm.promises.length
    · rw [List.getElem?_append_left old]
    · rw [List.getElem?_append_right (Nat.le_of_not_lt old),
        List.getElem?_eq_none (Nat.le_of_not_lt old)]
      cases p - vm.promises.length with
      | zero => rfl
      | succ _ => rfl

theorem markHandled_registers (vm : EventVM) (p : Nat) : Registers vm (markHandled vm p) [] := by
  unfold markHandled
  cases found : vm.promises[p]? with
  | none => exact Registers.same rfl
  | some promise =>
      exact Registers.stored [] found rfl
        (List.append_nil _).symm

theorem awaitPromise_registers {vm : EventVM} {p : Nat} (fiber : Nat)
    (bound : p < vm.promises.length) :
    Registers vm (awaitPromise vm fiber p) [(p, awaitReaction fiber)] := by
  rw [awaitPromise_eq]
  have handled := markHandled_registers vm p
  exact handled.trans (register_registers _ (Nat.lt_of_lt_of_le bound handled.promises))

theorem knows_longer {vm after : EventVM} {value : Value}
    (longer : vm.promises.length ≤ after.promises.length) (known : vm.knows value = true) :
    after.knows value = true := by
  unfold EventVM.knows at known ⊢
  cases isPromise : asPromise value with
  | none => rfl
  | some p =>
      rw [isPromise] at known
      exact decide_eq_true (Nat.lt_of_lt_of_le (of_decide_eq_true known) longer)

theorem combineInputs_registers (mode : CombineMode) (state i : Nat) (vm : EventVM)
    (inputs : List Value) (known : ∀ element ∈ inputs, vm.knows element = true) :
    Registers vm (combineInputs mode state i vm inputs) (combineWaiters mode state i inputs) := by
  induction inputs generalizing i vm with
  | nil => exact Registers.same rfl
  | cons element rest ih =>
      have others {middle : EventVM} (longer : vm.promises.length ≤ middle.promises.length) :
          ∀ other ∈ rest, middle.knows other = true :=
        fun other member => knows_longer longer (known other (List.mem_cons_of_mem element member))
      have first := known element List.mem_cons_self
      unfold EventVM.knows at first
      unfold combineInputs combineWaiters
      rw [combineInput_eq]
      cases isPromise : asPromise element with
      | none =>
          dsimp only
          have queued := Registers.same (enqueue_promises vm
            { microtask .undefined element none false with
              combineState := some state, combineIndex := combineIndex mode i })
          exact queued.trans (ih (i + 1) _ (others queued.promises))
      | some input =>
          rw [isPromise] at first
          have handled := markHandled_registers vm input
          have registered := handled.trans (register_registers
            (combineReaction state (combineIndex mode i))
            (Nat.lt_of_lt_of_le (of_decide_eq_true first) handled.promises))
          exact registered.trans (ih (i + 1) _ (others registered.promises))

theorem combinator_registers (builders : Builders) (vm : EventVM) (mode : CombineMode)
    (inputs : List Value) (known : ∀ element ∈ inputs, vm.knows element = true) :
    Registers vm (combinator builders vm mode inputs)
      (combineWaiters mode vm.combines.length 0 inputs) := by
  have made (count : Nat) : Registers vm (newCombine (csPromiseNew vm) mode count vm.fresh) [] :=
    (csPromiseNew_registers vm).trans (Registers.same rfl)
  have fulfilled (count : Nat) : Registers vm
      (csPromiseFulfill (newCombine (csPromiseNew vm) mode count vm.fresh) vm.fresh
        (arrayValue vm.combines.length)) [] :=
    (made count).trans (fulfillPlain_registers _ _ rfl)
  unfold combinator
  dsimp only
  cases inputs with
  | nil =>
      cases mode with
      | all => exact fulfilled _
      | allSettled => exact fulfilled _
      | any => exact (made _).trans (settle_registers _ _ _ _)
      | race => exact made _
  | cons element rest =>
      refine (made _).trans (combineInputs_registers mode _ 0 _ (element :: rest) ?_)
      exact fun other member => knows_longer (made 0).promises (known other member)

/-! ### What the other steps register -/

def Adopts (vm after : EventVM) : Prop :=
  ∃ adopted, Registers vm after adopted ∧ ∀ entry ∈ adopted, ∃ p, entry.2 = adoption p

theorem Registers.adopts {vm after : EventVM} (registers : Registers vm after []) :
    Adopts vm after :=
  ⟨[], registers, fun _ member => absurd member List.not_mem_nil⟩

theorem Adopts.same {vm after : EventVM} (promises : after.promises = vm.promises) :
    Adopts vm after :=
  (Registers.same promises).adopts

theorem Adopts.trans {first second third : EventVM} (before : Adopts first second)
    (after : Adopts second third) : Adopts first third := by
  obtain ⟨early, registersEarly, adoptEarly⟩ := before
  obtain ⟨late, registersLate, adoptLate⟩ := after
  refine ⟨early ++ late, registersEarly.trans registersLate, ?_⟩
  intro entry member
  rcases List.mem_append.mp member with inEarly | inLate
  · exact adoptEarly entry inEarly
  · exact adoptLate entry inLate

theorem csPromiseFulfill_adopts_only (vm : EventVM) (p : Nat) (value : Value) :
    Adopts vm (csPromiseFulfill vm p value) := by
  cases isPromise : asPromise value with
  | none => exact (fulfillPlain_registers vm p isPromise).adopts
  | some inner =>
      by_cases waits : ∃ promise, vm.promises[p]? = some promise ∧ promise.state = .pending
      · obtain ⟨promise, found, pending⟩ := waits
        rw [csPromiseFulfill_adopts found pending isPromise]
        by_cases bound : inner < vm.promises.length
        · refine ⟨[(inner, adoption p)], register_registers _ bound, ?_⟩
          intro entry member
          exact ⟨p, (List.mem_singleton.mp member) ▸ rfl⟩
        · have same : register vm inner (adoption p) = vm := by
            unfold register
            rw [List.getElem?_eq_none (Nat.le_of_not_lt bound)]
          rw [same]
          exact Adopts.same rfl
      · rw [csPromiseFulfill_settled (fun promise found pending =>
          waits ⟨promise, found, pending⟩)]
        exact Adopts.same rfl

theorem csPromiseReject_adopts (vm : EventVM) (p : Nat) (reason : Value) :
    Adopts vm (csPromiseReject vm p reason) :=
  (settle_registers vm p .rejected reason).adopts

theorem collectOutcome_adopts (builders : Builders) (vm : EventVM) (state : Nat)
    (combine : CombineState) (task : Microtask) :
    Adopts vm (collectOutcome builders vm state combine task) := by
  have stored (combines : List CombineState) : Adopts vm { vm with combines } := Adopts.same rfl
  unfold collectOutcome
  dsimp only
  split
  · exact stored _
  · split
    · exact (stored _).trans (csPromiseReject_adopts _ _ _)
    · exact (stored _).trans (csPromiseFulfill_adopts_only _ _ _)

theorem runCombine_adopts (builders : Builders) (vm : EventVM) (state : Nat)
    (task : Microtask) : Adopts vm (runCombine builders vm state task) := by
  have idle : Adopts vm vm := Adopts.same rfl
  unfold runCombine
  cases vm.combines[state]? with
  | none => exact idle
  | some combine =>
      dsimp only
      cases vm.promises[combine.target]? with
      | none => exact idle
      | some target =>
          dsimp only
          split
          · exact idle
          · have collected := collectOutcome_adopts builders vm state combine task
            have rejected := csPromiseReject_adopts vm combine.target task.argument
            have fulfilled := csPromiseFulfill_adopts_only vm combine.target task.argument
            split
            · split
              · exact rejected
              · exact fulfilled
            · split
              · exact rejected
              · exact collected
            · split
              · exact collected
              · exact fulfilled
            · exact collected

theorem runQuietly_adopts (builders : Builders) (vm : EventVM) (task : Microtask) :
    Adopts vm (runQuietly builders vm task) := by
  unfold runQuietly
  cases task.combineState with
  | some state => exact runCombine_adopts builders vm state task
  | none =>
      show Adopts vm (passThrough vm task)
      unfold passThrough
      split
      · unfold csVMQueueMicrotask
        rw [patch_enqueue]
        exact Adopts.same (enqueue_promises vm _)
      · cases task.result with
        | none => exact Adopts.same rfl
        | some result =>
            dsimp only
            split
            · exact csPromiseReject_adopts vm _ _
            · exact csPromiseFulfill_adopts_only vm _ _

theorem handlerReturned_adopts (vm : EventVM) (task : Microtask) (returned : Value) :
    Adopts vm (handlerReturned vm task returned) := by
  unfold handlerReturned
  cases task.result with
  | none => exact Adopts.same rfl
  | some result =>
      dsimp only
      split
      · unfold csVMQueueMicrotask
        rw [patch_enqueue]
        exact Adopts.same (enqueue_promises vm _)
      · exact csPromiseFulfill_adopts_only vm result returned

theorem finishTask_adopts {vm after : EventVM} {task : Microtask} {action : EventAction}
    (finished : finishTask vm task action = some after) : Adopts vm after := by
  have moved {middle : EventVM} (adopts : Adopts vm middle) : Adopts vm (advance middle) :=
    adopts.trans (Adopts.same rfl)
  have stopped : Adopts vm { advance vm with phase := .code } := Adopts.same rfl
  unfold finishTask at finished
  split at finished
  case h_1 value =>
      split at finished
      · exact Option.some.inj finished ▸ moved (Adopts.same rfl)
      · exact Option.some.inj finished ▸ moved (handlerReturned_adopts vm task value)
  case h_2 thrown =>
      split at finished
      · cases finished
      · split at finished
        case h_1 result _ =>
            exact Option.some.inj finished ▸ moved (csPromiseReject_adopts vm result thrown)
        case h_2 => exact Option.some.inj finished ▸ stopped
  case h_3 =>
      split at finished
      · cases finished
      · exact Option.some.inj finished ▸ stopped
  case h_4 => cases finished

/-- What one step gives the promises: what the program asked for in a call that
waits, and otherwise nothing but adoptions. -/
theorem stepEvent_registers {builders : Builders} {vm after : EventVM} {action : EventAction}
    (stepped : stepEvent builders vm action = some after) :
    if action.registers then Registers vm after (action.waiters vm) else Adopts vm after := by
  have new := csPromiseNew_registers vm
  have calls {next : EventVM} (known : action.known vm = true)
      (called : action.call builders vm = some next) :
      if action.registers then Registers vm next (action.waiters vm) else Adopts vm next := by
    have onNew {p : Nat} (reaction : Reaction) (bound : p < vm.promises.length) :
        Registers vm (register (csPromiseNew vm) p reaction) [(p, reaction)] :=
      new.trans (register_registers reaction (Nat.lt_of_lt_of_le bound new.promises))
    cases action with
    | newPromise => exact Option.some.inj called ▸ new.adopts
    | resolve p value => exact Option.some.inj called ▸ csPromiseFulfill_adopts_only vm p value
    | reject p reason => exact Option.some.inj called ▸ csPromiseReject_adopts vm p reason
    | resolvedWith value =>
        rw [← Option.some.inj called]
        show Adopts vm (promiseResolve vm value)
        unfold promiseResolve
        cases asPromise value with
        | some _ => exact Adopts.same rfl
        | none => exact new.adopts.trans (csPromiseFulfill_adopts_only _ _ value)
    | rejectedWith reason =>
        rw [← Option.some.inj called]
        exact new.adopts.trans (csPromiseReject_adopts _ _ reason)
    | then_ p onFulfilled onRejected =>
        rw [← Option.some.inj called]
        show Registers vm (csPromiseAddReaction _ _ _ _ _) _
        rw [csPromiseAddReaction_eq]
        exact onNew _ (of_decide_eq_true known)
    | catch_ p onRejected =>
        rw [← Option.some.inj called]
        show Registers vm (csPromiseAddReaction _ _ _ _ _) _
        rw [csPromiseAddReaction_eq]
        exact onNew _ (of_decide_eq_true known)
    | finally_ p handler =>
        rw [← Option.some.inj called, promiseFinally_eq]
        exact onNew _ (of_decide_eq_true known)
    | await fiber awaited =>
        rw [← Option.some.inj called]
        show Registers vm (opAwait vm fiber awaited) [((asPromise awaited).getD vm.fresh, awaitReaction fiber)]
        have bound : vm.knows awaited = true := known
        unfold opAwait
        unfold EventVM.knows at bound
        cases isPromise : asPromise awaited with
        | some p =>
            rw [isPromise] at bound
            exact awaitPromise_registers fiber (of_decide_eq_true bound)
        | none =>
            have made := new.trans (fulfillPlain_registers (csPromiseNew vm) vm.fresh isPromise)
            have one : vm.fresh < (csPromiseNew vm).promises.length := by
              show vm.promises.length < (vm.promises ++ [_]).length
              rw [List.length_append]
              exact Nat.lt_succ_self _
            exact made.trans (awaitPromise_registers fiber
              (Nat.lt_of_lt_of_le one (fulfillPlain_registers _ vm.fresh isPromise).promises))
    | combine mode inputs =>
        rw [← Option.some.inj called]
        exact combinator_registers builders vm mode inputs (List.all_eq_true.mp known)
    | queueMicrotask callback =>
        exact Option.some.inj called ▸ Adopts.same (enqueue_promises vm _)
    | drain | next | returned _ | threw _ | failed | drained => cases called
  unfold stepEvent at stepped
  split at stepped
  case isFalse => cases stepped
  case isTrue known =>
    split at stepped
    case h_1 =>
        split at stepped
        case isTrue drain =>
            rw [← Option.some.inj stepped, drain]
            exact Adopts.same rfl
        case isFalse => exact calls known stepped
    case h_2 =>
        split at stepped
        case h_1 task _ =>
            rw [← Option.some.inj stepped]
            show Adopts vm (startTask builders vm task)
            have begun : Adopts vm { vm with phase := .running task, ran := vm.ran ++ [task] } :=
              Adopts.same rfl
            unfold startTask
            dsimp only
            split
            · exact begun
            · exact (begun.trans (runQuietly_adopts builders _ task)).trans (Adopts.same rfl)
        case h_2 =>
            rw [← Option.some.inj stepped]
            exact Adopts.same rfl
        case h_3 => cases stepped
    case h_3 task running =>
        cases called : action.call builders vm with
        | some next =>
            rw [called] at stepped
            exact Option.some.inj stepped ▸ calls known called
        | none =>
            rw [called] at stepped
            have adopts := finishTask_adopts stepped
            cases action with
            | returned _ | threw _ | failed => exact adopts
            | _ => cases stepped

/-! ### Delivery -/

/-- Whatever a program does with promises, in every state a run reaches: the
reactions given to a promise are queued once, in the order they were given and
with its outcome, when it is settled and not before; a settled promise keeps its
outcome for good; the queue is only appended to and is run from its front, one
task a turn of the drain, which no call from program code is. -/
theorem runEvents_delivers {builders : Builders} {vm : EventVM} {actions : List EventAction}
    (reached : runEvents builders initial actions = some vm) :
    (∀ (p : Nat) (promise : ObjPromise), vm.promises[p]? = some promise →
      promise.Answered p vm.history) ∧
    (∀ (later : EventVM) (others : List EventAction),
      runEvents builders vm others = some later → Advanced vm later) ∧
    (∀ (after : EventVM) (action : EventAction), stepEvent builders vm action = some after →
      InOrder vm action after ∧
        if action.registers then Registers vm after (action.waiters vm) else Adopts vm after) := by
  obtain ⟨sound, _⟩ := runEvents_kept initial_sound reached
  refine ⟨sound.answered, fun later others ran => (runEvents_kept sound ran).2, ?_⟩
  intro after action stepped
  exact ⟨(stepEvent_kept sound stepped).2.2, stepEvent_registers stepped⟩

private def plainBuilders : Builders :=
  { settlementRecord := fun outcome _ => outcome, csAggregateError := fun _ => .null }

private def waitedFor : List EventAction :=
  [.newPromise, .then_ 0 (.obj (.cell .closure 1)) .undefined, .resolve 0 (.bool true),
    .catch_ 0 (.obj (.cell .closure 2)), .await 0 (promiseValue 0)]

/-- One promise with waiters registered before it is settled and after, and a
drain of all of them. -/
theorem runEvents_delivers_both :
    ∃ vm later, runEvents plainBuilders initial waitedFor = some vm ∧
      (∀ (p : Nat) (promise : ObjPromise), vm.promises[p]? = some promise →
        promise.Answered p vm.history) ∧
      runEvents plainBuilders vm [.drain, .next, .returned .null, .next, .next, .returned .null] =
        some later ∧ Advanced vm later :=
  ⟨_, _, rfl, (@runEvents_delivers plainBuilders _ waitedFor rfl).1, rfl,
    (@runEvents_delivers plainBuilders _ waitedFor rfl).2.1 _
      [.drain, .next, .returned .null, .next, .next, .returned .null] rfl⟩

end CScript.EventLoop
