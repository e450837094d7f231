/-
Every reaction is delivered once, in order, and never early.

The history of the queue is what was run followed by what still waits in it.
For each promise the tasks of its reactions in that history are none while it is
pending, and from its settlement on exactly the reactions it was ever given, in
the order they were registered, each with the outcome.  The history only grows
at its end and is run from its front.
-/

import CScript.Event.EventLoop

namespace CScript.EventLoop

/-! ### The queue as a history -/

def EventVM.inHand (vm : EventVM) : Nat :=
  match vm.phase with
  | .running _ => 1
  | _ => 0

def EventVM.waiting (vm : EventVM) : List Microtask :=
  vm.microtasks.drop (vm.microtaskHead + vm.inHand)

def EventVM.history (vm : EventVM) : List Microtask :=
  vm.ran ++ vm.waiting

def tasksOf (p : Nat) (tasks : List Microtask) : List Microtask :=
  tasks.filter (fun task => task.origin = some p)

def Reaction.task (reaction : Reaction) (p : Nat) (state : PromiseState) (value : Value) :
    Microtask :=
  match reaction.fiber, reaction.combineState with
  | some fiber, _ =>
      ofPromise p { microtask .undefined value none state.isRejected with fiber := some fiber }
  | none, some combine =>
      ofPromise p { microtask .undefined value none state.isRejected with
        combineState := some combine, combineIndex := reaction.combineIndex }
  | none, none =>
      ofPromise p
        { microtask (if state = .fulfilled then reaction.onFulfilled else reaction.onRejected)
            value reaction.result state.isRejected with
          isFinally := reaction.isFinally, extraHops := reaction.extraHops }

/-- A promise that is pending keeps everything it was given; one that is settled
keeps nothing and has had all of it queued. -/
structure ObjPromise.Answered (promise : ObjPromise) (p : Nat) (history : List Microtask) :
    Prop where
  pending : promise.state = .pending →
    promise.reactions = promise.registered ∧ tasksOf p history = []
  settled : promise.state ≠ .pending →
    promise.reactions = [] ∧
      tasksOf p history =
        promise.registered.map (fun reaction => reaction.task p promise.state promise.value)

structure EventVM.Sound (vm : EventVM) : Prop where
  inside : vm.microtaskHead + vm.inHand ≤ vm.microtasks.length
  answered : ∀ (p : Nat) (promise : ObjPromise), vm.promises[p]? = some promise → promise.Answered p vm.history
  origins : ∀ task ∈ vm.history, ∀ p, task.origin = some p → p < vm.promises.length

/-! ### What a call leaves as it was -/

structure ObjPromise.Later (promise after : ObjPromise) : Prop where
  settled : promise.state ≠ .pending → after.state = promise.state ∧ after.value = promise.value
  registered : promise.registered <+: after.registered

structure Onward (vm after : EventVM) : Prop where
  phase : after.phase = vm.phase
  ran : after.ran = vm.ran
  waiting : vm.waiting <+: after.waiting
  promises : ∀ (p : Nat) (promise : ObjPromise), vm.promises[p]? = some promise →
    ∃ later, after.promises[p]? = some later ∧ promise.Later later

theorem ObjPromise.Later.refl (promise : ObjPromise) : promise.Later promise :=
  { settled := fun _ => ⟨rfl, rfl⟩, registered := List.prefix_rfl }

theorem ObjPromise.Later.trans {first second third : ObjPromise} (early : first.Later second)
    (late : second.Later third) : first.Later third := by
  refine { settled := fun settled => ?_, registered := early.registered.trans late.registered }
  obtain ⟨state, value⟩ := early.settled settled
  obtain ⟨stateLate, valueLate⟩ := late.settled (state ▸ settled)
  exact ⟨stateLate.trans state, valueLate.trans value⟩

theorem Onward.refl (vm : EventVM) : Onward vm vm :=
  { phase := rfl, ran := rfl, waiting := List.prefix_rfl
    promises := fun _ promise found => ⟨promise, found, ObjPromise.Later.refl promise⟩ }

theorem Onward.trans {first second third : EventVM} (early : Onward first second)
    (late : Onward second third) : Onward first third where
  phase := late.phase.trans early.phase
  ran := late.ran.trans early.ran
  waiting := early.waiting.trans late.waiting
  promises := by
    intro p promise found
    obtain ⟨middle, middleFound, toMiddle⟩ := early.promises p promise found
    obtain ⟨last, lastFound, toLast⟩ := late.promises p middle middleFound
    exact ⟨last, lastFound, toMiddle.trans toLast⟩

def Kept (vm after : EventVM) : Prop :=
  vm.Sound → after.Sound ∧ Onward vm after

theorem Kept.refl (vm : EventVM) : Kept vm vm :=
  fun sound => ⟨sound, Onward.refl vm⟩

theorem Kept.trans {first second third : EventVM} (early : Kept first second)
    (late : Kept second third) : Kept first third := by
  intro sound
  obtain ⟨soundMiddle, toMiddle⟩ := early sound
  obtain ⟨soundLast, toLast⟩ := late soundMiddle
  exact ⟨soundLast, toMiddle.trans toLast⟩

/-! ### Queuing -/

theorem compact_waiting (vm : EventVM) (inside : vm.microtaskHead + vm.inHand ≤ vm.microtasks.length) :
    vm.compact.waiting = vm.waiting ∧
      vm.compact.microtaskHead + vm.compact.inHand ≤ vm.compact.microtasks.length := by
  unfold EventVM.compact
  split
  case isTrue full =>
      have idle : vm.inHand = 0 := by omega
      have idleAfter : EventVM.inHand { vm with microtaskHead := 0, microtasks := [] } = 0 := idle
      constructor
      · have spent : vm.microtasks.length ≤ vm.microtaskHead + vm.inHand := by omega
        exact (List.drop_nil).trans (List.drop_eq_nil_of_le spent).symm
      · show 0 + EventVM.inHand { vm with microtaskHead := 0, microtasks := [] } ≤ 0
        omega
  case isFalse => exact ⟨rfl, inside⟩

theorem enqueue_waiting (vm : EventVM) (task : Microtask)
    (inside : vm.microtaskHead + vm.inHand ≤ vm.microtasks.length) :
    (vm.enqueue task).waiting = vm.waiting ++ [task] ∧
      (vm.enqueue task).microtaskHead + (vm.enqueue task).inHand ≤
        (vm.enqueue task).microtasks.length := by
  obtain ⟨same, insideCompact⟩ := compact_waiting vm inside
  have hand : (vm.enqueue task).inHand = vm.compact.inHand := rfl
  constructor
  · calc (vm.enqueue task).waiting
        = (vm.compact.microtasks ++ [task]).drop (vm.compact.microtaskHead + vm.compact.inHand) :=
          rfl
      _ = vm.compact.waiting ++ [task] := List.drop_append_of_le_length insideCompact
      _ = vm.waiting ++ [task] := by rw [same]
  · show vm.compact.microtaskHead + vm.compact.inHand ≤ (vm.compact.microtasks ++ [task]).length
    rw [List.length_append]
    omega

@[simp] theorem compact_promises (vm : EventVM) : vm.compact.promises = vm.promises := by
  unfold EventVM.compact
  split <;> rfl

@[simp] theorem compact_phase (vm : EventVM) : vm.compact.phase = vm.phase := by
  unfold EventVM.compact
  split <;> rfl

@[simp] theorem compact_ran (vm : EventVM) : vm.compact.ran = vm.ran := by
  unfold EventVM.compact
  split <;> rfl

@[simp] theorem enqueue_promises (vm : EventVM) (task : Microtask) :
    (vm.enqueue task).promises = vm.promises :=
  compact_promises vm

@[simp] theorem enqueue_phase (vm : EventVM) (task : Microtask) :
    (vm.enqueue task).phase = vm.phase :=
  compact_phase vm

@[simp] theorem enqueue_ran (vm : EventVM) (task : Microtask) : (vm.enqueue task).ran = vm.ran :=
  compact_ran vm

private theorem modify_last {α : Type} (tasks : List α) (task : α) (patch : α → α) :
    (tasks ++ [task]).modify ((tasks ++ [task]).length - 1) patch = tasks ++ [patch task] := by
  induction tasks with
  | nil => rfl
  | cons head tail ih =>
      have last : (head :: tail ++ [task]).length - 1 = (tail ++ [task]).length - 1 + 1 := by simp
      rw [last, List.cons_append, List.modify_succ_cons, ih, List.cons_append]

theorem patch_enqueue (vm : EventVM) (task : Microtask) (patch : Microtask → Microtask) :
    patchMicrotask (vm.enqueue task) patch = vm.enqueue (patch task) := by
  unfold patchMicrotask EventVM.enqueue
  dsimp only
  rw [modify_last]

theorem csVMQueueCombine_eq (vm : EventVM) (state : Nat) (index : Int) (argument : Value)
    (isRejection : Bool) :
    csVMQueueCombine vm state index argument isRejection =
      vm.enqueue { microtask .undefined argument none isRejection with
        combineState := some state, combineIndex := index } := by
  unfold csVMQueueCombine csVMQueueMicrotask
  rw [patch_enqueue]

theorem queueReaction_eq (p : Nat) (state : PromiseState) (value : Value) (vm : EventVM)
    (reaction : Reaction) :
    queueReaction p state value vm reaction = vm.enqueue (reaction.task p state value) := by
  unfold queueReaction Reaction.task
  cases reaction.fiber with
  | some fiber =>
      unfold csVMQueueMicrotask
      exact patch_enqueue vm _ _
  | none =>
      cases reaction.combineState with
      | some combine =>
          dsimp only
          rw [csVMQueueCombine_eq]
          exact patch_enqueue vm _ _
      | none =>
          unfold csVMQueueMicrotask
          exact patch_enqueue vm _ _

def EventVM.enqueueAll (vm : EventVM) (tasks : List Microtask) : EventVM :=
  tasks.foldl EventVM.enqueue vm

theorem enqueueAll_waiting (vm : EventVM) (tasks : List Microtask)
    (inside : vm.microtaskHead + vm.inHand ≤ vm.microtasks.length) :
    (vm.enqueueAll tasks).waiting = vm.waiting ++ tasks ∧
      (vm.enqueueAll tasks).microtaskHead + (vm.enqueueAll tasks).inHand ≤
        (vm.enqueueAll tasks).microtasks.length := by
  induction tasks generalizing vm with
  | nil => exact ⟨(List.append_nil _).symm, inside⟩
  | cons task rest ih =>
      obtain ⟨first, insideFirst⟩ := enqueue_waiting vm task inside
      obtain ⟨others, insideLast⟩ := ih (vm.enqueue task) insideFirst
      refine ⟨?_, insideLast⟩
      calc (vm.enqueueAll (task :: rest)).waiting
          = ((vm.enqueue task).enqueueAll rest).waiting := rfl
        _ = (vm.waiting ++ [task]) ++ rest := by rw [others, first]
        _ = vm.waiting ++ task :: rest := List.append_assoc _ _ _

@[simp] theorem enqueueAll_promises (vm : EventVM) (tasks : List Microtask) :
    (vm.enqueueAll tasks).promises = vm.promises := by
  induction tasks generalizing vm with
  | nil => rfl
  | cons task rest ih => exact (ih (vm.enqueue task)).trans (enqueue_promises vm task)

@[simp] theorem enqueueAll_phase (vm : EventVM) (tasks : List Microtask) :
    (vm.enqueueAll tasks).phase = vm.phase := by
  induction tasks generalizing vm with
  | nil => rfl
  | cons task rest ih => exact (ih (vm.enqueue task)).trans (enqueue_phase vm task)

@[simp] theorem enqueueAll_ran (vm : EventVM) (tasks : List Microtask) :
    (vm.enqueueAll tasks).ran = vm.ran := by
  induction tasks generalizing vm with
  | nil => rfl
  | cons task rest ih => exact (ih (vm.enqueue task)).trans (enqueue_ran vm task)

theorem queueReactions_eq (p : Nat) (state : PromiseState) (value : Value)
    (reactions : List Reaction) (vm : EventVM) :
    reactions.foldl (queueReaction p state value) vm =
      vm.enqueueAll (reactions.map (fun reaction => reaction.task p state value)) := by
  induction reactions generalizing vm with
  | nil => rfl
  | cons reaction rest ih =>
      rw [List.foldl_cons, queueReaction_eq, ih]
      rfl

/-! ### One promise changed -/

/-- `after` is `vm` with one promise changed and tasks of that promise queued. -/
structure Changed (vm after : EventVM) (p : Nat) (changed : ObjPromise)
    (tasks : List Microtask) : Prop where
  promises : after.promises = vm.promises.set p changed
  waiting : after.waiting = vm.waiting ++ tasks
  inside : after.microtaskHead + after.inHand ≤ after.microtasks.length
  phase : after.phase = vm.phase
  ran : after.ran = vm.ran
  combines : after.combines = vm.combines

@[simp] theorem compact_combines (vm : EventVM) : vm.compact.combines = vm.combines := by
  unfold EventVM.compact
  split <;> rfl

@[simp] theorem enqueueAll_combines (vm : EventVM) (tasks : List Microtask) :
    (vm.enqueueAll tasks).combines = vm.combines := by
  induction tasks generalizing vm with
  | nil => rfl
  | cons task rest ih => exact (ih (vm.enqueue task)).trans (compact_combines vm)

theorem changed_setPromise (vm : EventVM) (p : Nat) (promise : ObjPromise)
    (inside : vm.microtaskHead + vm.inHand ≤ vm.microtasks.length) :
    Changed vm (vm.setPromise p promise) p promise [] :=
  { promises := rfl
    waiting := (List.append_nil _).symm
    inside := inside
    phase := rfl
    ran := rfl
    combines := rfl }

theorem changed_queued (vm : EventVM) (p : Nat) (promise : ObjPromise) (tasks : List Microtask)
    (inside : vm.microtaskHead + vm.inHand ≤ vm.microtasks.length) :
    Changed vm ((vm.setPromise p promise).enqueueAll tasks) p promise tasks := by
  obtain ⟨waiting, insideAfter⟩ := enqueueAll_waiting (vm.setPromise p promise) tasks inside
  exact
    { promises := enqueueAll_promises _ _
      waiting := waiting
      inside := insideAfter
      phase := enqueueAll_phase _ _
      ran := enqueueAll_ran _ _
      combines := enqueueAll_combines _ _ }

theorem Changed.again {vm after : EventVM} {p : Nat} {first : ObjPromise}
    {tasks : List Microtask} (change : Changed vm after p first tasks) (second : ObjPromise) :
    Changed vm (after.setPromise p second) p second tasks where
  promises := by
    show after.promises.set p second = vm.promises.set p second
    rw [change.promises, List.set_set]
  waiting := change.waiting
  inside := change.inside
  phase := change.phase
  ran := change.ran
  combines := change.combines

theorem Changed.noted {vm after : EventVM} {p : Nat} {changed : ObjPromise}
    {tasks : List Microtask} (change : Changed vm after p changed tasks) :
    Changed vm (csVMNoteRejection after p) p changed tasks :=
  { promises := change.promises
    waiting := change.waiting
    inside := change.inside
    phase := change.phase
    ran := change.ran
    combines := change.combines }

theorem Changed.history {vm after : EventVM} {p : Nat} {changed : ObjPromise}
    {tasks : List Microtask} (change : Changed vm after p changed tasks) :
    after.history = vm.history ++ tasks := by
  unfold EventVM.history
  rw [change.ran, change.waiting, List.append_assoc]

private theorem tasksOf_append (p : Nat) (early late : List Microtask) :
    tasksOf p (early ++ late) = tasksOf p early ++ tasksOf p late :=
  List.filter_append _ _

private theorem tasksOf_own {p : Nat} {tasks : List Microtask}
    (own : ∀ task ∈ tasks, task.origin = some p) : tasksOf p tasks = tasks :=
  List.filter_eq_self.mpr (fun task member => decide_eq_true (own task member))

private theorem tasksOf_other {p : Nat} {tasks : List Microtask}
    (other : ∀ task ∈ tasks, task.origin ≠ some p) : tasksOf p tasks = [] :=
  List.filter_eq_nil_iff.mpr (fun task member same =>
    other task member (of_decide_eq_true same))

theorem task_origin (reaction : Reaction) (p : Nat) (state : PromiseState) (value : Value) :
    (reaction.task p state value).origin = some p := by
  unfold Reaction.task
  split <;> rfl

theorem Changed.kept {vm after : EventVM} {p : Nat} {promise changed : ObjPromise}
    {tasks : List Microtask} (change : Changed vm after p changed tasks) (sound : vm.Sound)
    (found : vm.promises[p]? = some promise) (own : ∀ task ∈ tasks, task.origin = some p)
    (later : promise.Later changed)
    (answered : changed.Answered p (vm.history ++ tasks)) :
    after.Sound ∧ Onward vm after := by
  have bound : p < vm.promises.length := (List.getElem?_eq_some_iff.mp found).1
  have foundAfter : after.promises[p]? = some changed := by
    rw [change.promises]
    exact List.getElem?_set_self bound
  refine ⟨{ inside := change.inside, answered := ?_, origins := ?_ },
    { phase := change.phase, ran := change.ran,
      waiting := ⟨tasks, change.waiting.symm⟩, promises := ?_ }⟩
  · intro other promiseOther foundOther
    rw [change.history]
    by_cases same : other = p
    · subst same
      rw [foundAfter] at foundOther
      exact Option.some.inj foundOther ▸ answered
    · rw [change.promises, List.getElem?_set_ne (Ne.symm same)] at foundOther
      have before := sound.answered other promiseOther foundOther
      have none_ : tasksOf other tasks = [] :=
        tasksOf_other (fun task member equal => same (Option.some.inj (equal.symm.trans (own task member))))
      constructor
      · intro pending
        rw [tasksOf_append, none_, List.append_nil]
        exact before.pending pending
      · intro settled
        rw [tasksOf_append, none_, List.append_nil]
        exact before.settled settled
  · intro task member origin named
    rw [change.promises, List.length_set]
    rw [change.history] at member
    rcases List.mem_append.mp member with early | late
    · exact sound.origins task early origin named
    · have same := Option.some.inj (named.symm.trans (own task late))
      exact same ▸ bound
  · intro other promiseOther foundOther
    by_cases same : other = p
    · subst same
      rw [found] at foundOther
      exact ⟨changed, foundAfter, Option.some.inj foundOther ▸ later⟩
    · refine ⟨promiseOther, ?_, ObjPromise.Later.refl promiseOther⟩
      rw [change.promises, List.getElem?_set_ne (Ne.symm same)]
      exact foundOther

/-! ### Settling -/

theorem settle_changed {vm : EventVM} {p : Nat} {promise : ObjPromise} (state : PromiseState)
    (value : Value) (inside : vm.microtaskHead + vm.inHand ≤ vm.microtasks.length)
    (found : vm.promises[p]? = some promise) (pending : promise.state = .pending) :
    Changed vm (settle vm p state value) p { promise with state, value, reactions := [] }
      (promise.reactions.map (fun reaction => reaction.task p state value)) := by
  have queued := changed_queued vm p { promise with state, value }
    (promise.reactions.map (fun reaction => reaction.task p state value)) inside
  have settled := queued.again { promise with state, value, reactions := [] }
  unfold settle
  rw [found]
  dsimp only
  rw [if_neg (fun settled => settled pending), queueReactions_eq]
  split
  · exact settled.noted
  · exact settled

theorem settle_settled {vm : EventVM} {p : Nat} {state : PromiseState} {value : Value}
    (settled : ∀ promise, vm.promises[p]? = some promise → promise.state ≠ .pending) :
    settle vm p state value = vm := by
  unfold settle
  cases found : vm.promises[p]? with
  | none => rfl
  | some promise => exact if_pos (settled promise found)

theorem settle_kept (vm : EventVM) (p : Nat) {state : PromiseState} (value : Value)
    (decided : state ≠ .pending) : Kept vm (settle vm p state value) := by
  intro sound
  by_cases waits : ∃ promise, vm.promises[p]? = some promise ∧ promise.state = .pending
  · obtain ⟨promise, found, pending⟩ := waits
    obtain ⟨reactions, none_⟩ := (sound.answered p promise found).pending pending
    have own : ∀ task ∈ promise.reactions.map (fun reaction => reaction.task p state value),
        task.origin = some p := by
      intro task member
      obtain ⟨reaction, _, rfl⟩ := List.mem_map.mp member
      exact task_origin reaction p state value
    refine (settle_changed state value sound.inside found pending).kept sound found own ?_ ?_
    · exact { settled := fun settled => absurd pending settled, registered := List.prefix_rfl }
    · refine { pending := fun still => absurd still decided, settled := fun _ => ⟨rfl, ?_⟩ }
      rw [tasksOf_append, none_, List.nil_append, tasksOf_own own, reactions]
  · rw [settle_settled (fun promise found pending => waits ⟨promise, found, pending⟩)]
    exact Kept.refl vm sound

/-! ### Registering -/

def register (vm : EventVM) (p : Nat) (reaction : Reaction) : EventVM :=
  match vm.promises[p]? with
  | none => vm
  | some promise =>
      let noted := { promise with handled := true, registered := promise.registered ++ [reaction] }
      if promise.state = .pending then
        vm.setPromise p { noted with reactions := promise.reactions ++ [reaction] }
      else (vm.setPromise p noted).enqueue (reaction.task p promise.state promise.value)

theorem csPromiseAddReaction_eq (vm : EventVM) (p : Nat) (onFulfilled onRejected : Value)
    (result : Option Nat) :
    csPromiseAddReaction vm p onFulfilled onRejected result =
      register vm p (plainReaction onFulfilled onRejected result) := by
  unfold csPromiseAddReaction register
  cases vm.promises[p]? with
  | none => rfl
  | some promise =>
      dsimp only
      by_cases pending : promise.state = .pending
      · rw [if_neg (fun settled => settled pending), if_pos pending]
      · rw [if_pos pending, if_neg pending]
        unfold csVMQueueMicrotask
        exact patch_enqueue _ _ _

private theorem enqueue_setPromise (vm : EventVM) (task : Microtask) (p : Nat)
    (promise : ObjPromise) :
    (vm.enqueue task).setPromise p promise = (vm.setPromise p promise).enqueue task := by
  unfold EventVM.enqueue EventVM.setPromise EventVM.compact
  split <;> rfl

private theorem setPromise_found {vm : EventVM} {p : Nat} (bound : p < vm.promises.length)
    (promise : ObjPromise) : (vm.setPromise p promise).promises[p]? = some promise :=
  List.getElem?_set_self bound

private theorem setPromise_twice (vm : EventVM) (p : Nat) (first second : ObjPromise) :
    (vm.setPromise p first).setPromise p second = vm.setPromise p second := by
  unfold EventVM.setPromise
  dsimp only
  rw [List.set_set]

theorem patchWaiter_register {reaction : Reaction} {p : Nat} {onReaction : Reaction → Reaction}
    {onTask : Microtask → Microtask}
    (agree : ∀ state value,
      onTask (reaction.task p state value) = (onReaction reaction).task p state value)
    (vm : EventVM) :
    patchWaiter (register vm p reaction) p onReaction onTask =
      register vm p (onReaction reaction) := by
  unfold register
  cases found : vm.promises[p]? with
  | none =>
      unfold patchWaiter
      rw [found]
  | some promise =>
      have bound : p < vm.promises.length := (List.getElem?_eq_some_iff.mp found).1
      dsimp only
      by_cases pending : promise.state = .pending
      · rw [if_pos pending, if_pos pending]
        unfold patchWaiter
        rw [setPromise_found bound]
        dsimp only
        rw [if_pos pending, modify_last, modify_last, setPromise_twice]
      · rw [if_neg pending, if_neg pending]
        unfold patchWaiter
        rw [enqueue_promises, setPromise_found bound]
        dsimp only
        rw [if_neg pending, modify_last, enqueue_setPromise, setPromise_twice, patch_enqueue,
          agree]

theorem register_changed {vm : EventVM} {p : Nat} {promise : ObjPromise} (reaction : Reaction)
    (inside : vm.microtaskHead + vm.inHand ≤ vm.microtasks.length)
    (found : vm.promises[p]? = some promise) :
    Changed vm (register vm p reaction) p
      { promise with
        handled := true
        registered := promise.registered ++ [reaction]
        reactions := if promise.state = .pending then promise.reactions ++ [reaction]
          else promise.reactions }
      (if promise.state = .pending then []
        else [reaction.task p promise.state promise.value]) := by
  unfold register
  rw [found]
  dsimp only
  by_cases pending : promise.state = .pending
  · rw [if_pos pending, if_pos pending, if_pos pending]
    exact changed_setPromise vm p _ inside
  · rw [if_neg pending, if_neg pending, if_neg pending]
    exact changed_queued vm p _ [reaction.task p promise.state promise.value] inside

theorem register_kept (vm : EventVM) (p : Nat) (reaction : Reaction) :
    Kept vm (register vm p reaction) := by
  intro sound
  cases found : vm.promises[p]? with
  | none =>
      have same : register vm p reaction = vm := by
        unfold register
        rw [found]
      rw [same]
      exact Kept.refl vm sound
  | some promise =>
      have before := sound.answered p promise found
      refine (register_changed reaction sound.inside found).kept sound found ?_ ?_ ?_
      · intro task member
        split at member
        · cases member
        · rw [List.mem_singleton.mp member]
          exact task_origin reaction p promise.state promise.value
      · exact { settled := fun _ => ⟨rfl, rfl⟩, registered := List.prefix_append _ _ }
      · constructor
        · intro pending
          obtain ⟨reactions, none_⟩ := before.pending pending
          refine ⟨?_, ?_⟩
          · dsimp only
            rw [if_pos pending, reactions]
          · rw [if_pos pending, List.append_nil, none_]
        · intro settled
          obtain ⟨reactions, queued⟩ := before.settled settled
          refine ⟨?_, ?_⟩
          · dsimp only
            rw [if_neg settled, reactions]
          · rw [if_neg settled, tasksOf_append, queued, List.map_append]
            congr 1
            exact tasksOf_own (fun task member =>
              List.mem_singleton.mp member ▸ task_origin reaction p promise.state promise.value)

/-! ### The calls -/

def adoption (p : Nat) : Reaction :=
  { plainReaction .undefined .undefined (some p) with extraHops := 1 }

def finallyReaction (handler : Value) (result : Nat) : Reaction :=
  { plainReaction handler handler (some result) with isFinally := true }

def awaitReaction (fiber : Nat) : Reaction :=
  { plainReaction .undefined .undefined none with fiber := some fiber }

def combineReaction (state : Nat) (index : Int) : Reaction :=
  { plainReaction .undefined .undefined none with
    combineState := some state, combineIndex := index }

theorem csPromiseFulfill_adopts {vm : EventVM} {p inner : Nat} {promise : ObjPromise}
    {value : Value} (found : vm.promises[p]? = some promise) (pending : promise.state = .pending)
    (isPromise : asPromise value = some inner) :
    csPromiseFulfill vm p value = register vm inner (adoption p) := by
  unfold csPromiseFulfill
  rw [found]
  dsimp only
  rw [if_neg (fun settled => settled pending), isPromise]
  dsimp only
  rw [csPromiseAddReaction_eq]
  exact patchWaiter_register (fun _ _ => rfl) vm

theorem csPromiseFulfill_settles {vm : EventVM} {p : Nat} {value : Value}
    (plain : asPromise value = none) :
    csPromiseFulfill vm p value = settle vm p .fulfilled value := by
  unfold csPromiseFulfill settle
  cases vm.promises[p]? with
  | none => rfl
  | some promise =>
      dsimp only
      by_cases pending : promise.state = .pending
      · rw [if_neg (fun settled => settled pending), if_neg (fun settled => settled pending), plain]
      · rw [if_pos pending, if_pos pending]

theorem csPromiseFulfill_settled {vm : EventVM} {p : Nat} {value : Value}
    (settled : ∀ promise, vm.promises[p]? = some promise → promise.state ≠ .pending) :
    csPromiseFulfill vm p value = vm := by
  unfold csPromiseFulfill
  cases found : vm.promises[p]? with
  | none => rfl
  | some promise => exact if_pos (settled promise found)

theorem promiseFinally_eq (vm : EventVM) (p : Nat) (handler : Value) :
    promiseFinally vm p handler =
      register (csPromiseNew vm) p (finallyReaction handler vm.fresh) := by
  unfold promiseFinally
  rw [csPromiseAddReaction_eq]
  exact patchWaiter_register (fun _ _ => rfl) _

theorem awaitPromise_eq (vm : EventVM) (fiber p : Nat) :
    awaitPromise vm fiber p = register (markHandled vm p) p (awaitReaction fiber) := by
  unfold awaitPromise
  rw [csPromiseAddReaction_eq]
  exact patchWaiter_register (fun state _ => by cases state <;> rfl) _

theorem combineInput_eq (state : Nat) (index : Int) (vm : EventVM) (element : Value) :
    combineInput state index vm element =
      match asPromise element with
      | none => vm.enqueue { microtask .undefined element none false with
          combineState := some state, combineIndex := index }
      | some input => register (markHandled vm input) input (combineReaction state index) := by
  unfold combineInput
  cases asPromise element with
  | none => exact csVMQueueCombine_eq vm state index element false
  | some input =>
      dsimp only
      rw [csPromiseAddReaction_eq]
      exact patchWaiter_register (fun state _ => by cases state <;> rfl) _

theorem enqueue_kept (vm : EventVM) {task : Microtask} (unowned : task.origin = none) :
    Kept vm (vm.enqueue task) := by
  intro sound
  obtain ⟨waiting, inside⟩ := enqueue_waiting vm task sound.inside
  have history : (vm.enqueue task).history = vm.history ++ [task] := by
    unfold EventVM.history
    rw [waiting, enqueue_ran, List.append_assoc]
  have silent (p : Nat) : tasksOf p [task] = [] := by
    refine tasksOf_other (fun other member named => ?_)
    rw [List.mem_singleton.mp member, unowned] at named
    cases named
  refine ⟨{ inside := inside, answered := ?_, origins := ?_ },
    { phase := enqueue_phase vm task, ran := enqueue_ran vm task,
      waiting := ⟨[task], waiting.symm⟩, promises := ?_ }⟩
  · intro p promise found
    rw [enqueue_promises] at found
    have before := sound.answered p promise found
    constructor
    · intro pending
      rw [history, tasksOf_append, silent, List.append_nil]
      exact before.pending pending
    · intro settled
      rw [history, tasksOf_append, silent, List.append_nil]
      exact before.settled settled
  · intro other member p named
    rw [enqueue_promises]
    rw [history] at member
    rcases List.mem_append.mp member with early | late
    · exact sound.origins other early p named
    · rw [List.mem_singleton.mp late, unowned] at named
      cases named
  · intro p promise found
    exact ⟨promise, (enqueue_promises vm task) ▸ found, ObjPromise.Later.refl promise⟩

theorem csPromiseNew_kept (vm : EventVM) : Kept vm (csPromiseNew vm) := by
  intro sound
  have old {p : Nat} {promise : ObjPromise} (found : vm.promises[p]? = some promise) :
      (csPromiseNew vm).promises[p]? = some promise := by
    have bound := (List.getElem?_eq_some_iff.mp found).1
    exact (List.getElem?_append_left bound).trans found
  refine ⟨{ inside := sound.inside, answered := ?_, origins := ?_ },
    { phase := rfl, ran := rfl, waiting := List.prefix_rfl
      promises := fun p promise found => ⟨promise, old found, ObjPromise.Later.refl promise⟩ }⟩
  · intro p promise found
    by_cases fresh : p < vm.promises.length
    · have before : vm.promises[p]? = some promise :=
        (List.getElem?_append_left fresh).symm.trans found
      exact sound.answered p promise before
    · have last : p = vm.promises.length := by
        have bound := (List.getElem?_eq_some_iff.mp found).1
        have length : (csPromiseNew vm).promises.length = vm.promises.length + 1 :=
          List.length_append
        omega
      have made : (csPromiseNew vm).promises[p]? =
          some { state := .pending, value := .undefined, reactions := [], handled := false,
                 registered := [] } := by
        rw [last]
        exact List.getElem?_concat_length
      rw [made] at found
      rw [← Option.some.inj found]
      refine { pending := fun _ => ⟨rfl, ?_⟩, settled := fun settled => absurd rfl settled }
      exact tasksOf_other (fun task member named => fresh (sound.origins task member p named))
  · intro task member p named
    have bound := sound.origins task member p named
    exact Nat.lt_of_lt_of_le bound (List.length_append ▸ Nat.le_add_right _ _)

theorem combines_kept (vm : EventVM) (combines : List CombineState) :
    Kept vm { vm with combines } :=
  fun sound =>
    ⟨{ inside := sound.inside, answered := sound.answered, origins := sound.origins },
      { phase := rfl, ran := rfl, waiting := List.prefix_rfl
        promises := fun _ promise found => ⟨promise, found, ObjPromise.Later.refl promise⟩ }⟩

theorem markHandled_kept (vm : EventVM) (p : Nat) : Kept vm (markHandled vm p) := by
  intro sound
  unfold markHandled
  cases found : vm.promises[p]? with
  | none => exact Kept.refl vm sound
  | some promise =>
      have before := sound.answered p promise found
      refine (changed_setPromise vm p { promise with handled := true } sound.inside).kept sound
        found (fun task member => absurd member List.not_mem_nil)
        { settled := fun _ => ⟨rfl, rfl⟩, registered := List.prefix_rfl } ?_
      rw [List.append_nil]
      exact { pending := before.pending, settled := before.settled }

theorem csPromiseReject_kept (vm : EventVM) (p : Nat) (reason : Value) :
    Kept vm (csPromiseReject vm p reason) :=
  settle_kept vm p reason (fun impossible => by cases impossible)

theorem csPromiseFulfill_kept (vm : EventVM) (p : Nat) (value : Value) :
    Kept vm (csPromiseFulfill vm p value) := by
  cases isPromise : asPromise value with
  | none =>
      rw [csPromiseFulfill_settles isPromise]
      exact settle_kept vm p value (fun impossible => by cases impossible)
  | some inner =>
      by_cases waits : ∃ promise, vm.promises[p]? = some promise ∧ promise.state = .pending
      · obtain ⟨promise, found, pending⟩ := waits
        rw [csPromiseFulfill_adopts found pending isPromise]
        exact register_kept vm inner (adoption p)
      · rw [csPromiseFulfill_settled (fun promise found pending =>
          waits ⟨promise, found, pending⟩)]
        exact Kept.refl vm

theorem then_kept (vm : EventVM) (p : Nat) (onFulfilled onRejected : Value)
    (result : Option Nat) :
    Kept vm (csPromiseAddReaction (csPromiseNew vm) p onFulfilled onRejected result) := by
  rw [csPromiseAddReaction_eq]
  exact (csPromiseNew_kept vm).trans (register_kept _ p _)

theorem awaitPromise_kept (vm : EventVM) (fiber p : Nat) : Kept vm (awaitPromise vm fiber p) := by
  rw [awaitPromise_eq]
  exact (markHandled_kept vm p).trans (register_kept _ p _)

theorem combineInput_kept (state : Nat) (index : Int) (vm : EventVM) (element : Value) :
    Kept vm (combineInput state index vm element) := by
  rw [combineInput_eq]
  cases asPromise element with
  | none => exact enqueue_kept vm rfl
  | some input => exact (markHandled_kept vm input).trans (register_kept _ input _)

theorem combineInputs_kept (mode : CombineMode) (state i : Nat) (vm : EventVM)
    (inputs : List Value) : Kept vm (combineInputs mode state i vm inputs) := by
  induction inputs generalizing i vm with
  | nil => exact Kept.refl vm
  | cons element rest ih =>
      exact (combineInput_kept state (combineIndex mode i) vm element).trans (ih (i + 1) _)

theorem combinator_made_kept (builders : Builders) (vm : EventVM) (mode : CombineMode)
    (inputs : List Value) : Kept (csPromiseNew vm) (combinator builders vm mode inputs) := by
  have made (count : Nat) :
      Kept (csPromiseNew vm) (newCombine (csPromiseNew vm) mode count vm.fresh) :=
    combines_kept _ _
  unfold combinator
  dsimp only
  split
  · cases mode with
    | all => exact (made _).trans (csPromiseFulfill_kept _ _ _)
    | allSettled => exact (made _).trans (csPromiseFulfill_kept _ _ _)
    | any => exact (made _).trans (csPromiseReject_kept _ _ _)
    | race => exact made _
  · exact (made _).trans (combineInputs_kept mode _ 0 _ inputs)

theorem combinator_kept (builders : Builders) (vm : EventVM) (mode : CombineMode)
    (inputs : List Value) : Kept vm (combinator builders vm mode inputs) :=
  (csPromiseNew_kept vm).trans (combinator_made_kept builders vm mode inputs)

theorem call_kept {builders : Builders} {vm after : EventVM} {action : EventAction}
    (called : action.call builders vm = some after) : Kept vm after := by
  cases action with
  | newPromise => exact Option.some.inj called ▸ csPromiseNew_kept vm
  | resolve p value => exact Option.some.inj called ▸ csPromiseFulfill_kept vm p value
  | reject p reason => exact Option.some.inj called ▸ csPromiseReject_kept vm p reason
  | resolvedWith value =>
      rw [← Option.some.inj called]
      unfold promiseResolve
      cases asPromise value with
      | some _ => exact Kept.refl vm
      | none => exact (csPromiseNew_kept vm).trans (csPromiseFulfill_kept _ _ value)
  | rejectedWith reason =>
      rw [← Option.some.inj called]
      exact (csPromiseNew_kept vm).trans (csPromiseReject_kept _ _ reason)
  | then_ p onFulfilled onRejected =>
      exact Option.some.inj called ▸ then_kept vm p onFulfilled onRejected _
  | catch_ p onRejected => exact Option.some.inj called ▸ then_kept vm p .undefined onRejected _
  | finally_ p handler =>
      rw [← Option.some.inj called, promiseFinally_eq]
      exact (csPromiseNew_kept vm).trans (register_kept _ p _)
  | await fiber awaited =>
      rw [← Option.some.inj called]
      unfold opAwait
      cases asPromise awaited with
      | some p => exact awaitPromise_kept vm fiber p
      | none =>
          exact ((csPromiseNew_kept vm).trans (csPromiseFulfill_kept _ _ awaited)).trans
            (awaitPromise_kept _ fiber _)
  | combine mode inputs => exact Option.some.inj called ▸ combinator_kept builders vm mode inputs
  | queueMicrotask callback => exact Option.some.inj called ▸ enqueue_kept vm rfl
  | drain | next | returned _ | threw _ | failed | drained => cases called

/-! ### The tasks -/

theorem collectOutcome_kept (builders : Builders) (vm : EventVM) (state : Nat)
    (combine : CombineState) (task : Microtask) :
    Kept vm (collectOutcome builders vm state combine task) := by
  unfold collectOutcome
  dsimp only
  split
  · exact combines_kept vm _
  · split
    · exact (combines_kept vm _).trans (csPromiseReject_kept _ _ _)
    · exact (combines_kept vm _).trans (csPromiseFulfill_kept _ _ _)

theorem runCombine_kept (builders : Builders) (vm : EventVM) (state : Nat) (task : Microtask) :
    Kept vm (runCombine builders vm state task) := by
  unfold runCombine
  cases vm.combines[state]? with
  | none => exact Kept.refl vm
  | some combine =>
      dsimp only
      cases vm.promises[combine.target]? with
      | none => exact Kept.refl vm
      | some target =>
          dsimp only
          split
          · exact Kept.refl vm
          · cases combine.mode with
            | race =>
                dsimp only
                split
                · exact csPromiseReject_kept vm _ _
                · exact csPromiseFulfill_kept vm _ _
            | all =>
                dsimp only
                split
                · exact csPromiseReject_kept vm _ _
                · exact collectOutcome_kept builders vm state combine task
            | any =>
                dsimp only
                split
                · exact collectOutcome_kept builders vm state combine task
                · exact csPromiseFulfill_kept vm _ _
            | allSettled => exact collectOutcome_kept builders vm state combine task

theorem passThrough_kept (vm : EventVM) (task : Microtask) : Kept vm (passThrough vm task) := by
  unfold passThrough
  split
  · unfold csVMQueueMicrotask
    rw [patch_enqueue]
    exact enqueue_kept vm rfl
  · cases task.result with
    | none => exact Kept.refl vm
    | some result =>
        dsimp only
        split
        · exact csPromiseReject_kept vm _ _
        · exact csPromiseFulfill_kept vm _ _

theorem runQuietly_kept (builders : Builders) (vm : EventVM) (task : Microtask) :
    Kept vm (runQuietly builders vm task) := by
  unfold runQuietly
  cases task.combineState with
  | some state => exact runCombine_kept builders vm state task
  | none => exact passThrough_kept vm task

theorem handlerReturned_kept (vm : EventVM) (task : Microtask) (returned : Value) :
    Kept vm (handlerReturned vm task returned) := by
  unfold handlerReturned
  cases task.result with
  | none => exact Kept.refl vm
  | some result =>
      dsimp only
      split
      · unfold csVMQueueMicrotask
        rw [patch_enqueue]
        exact enqueue_kept vm rfl
      · exact csPromiseFulfill_kept vm result returned

/-! ### The steps -/

structure Advanced (vm after : EventVM) : Prop where
  history : vm.history <+: after.history
  ran : vm.ran <+: after.ran
  promises : ∀ (p : Nat) (promise : ObjPromise), vm.promises[p]? = some promise →
    ∃ later, after.promises[p]? = some later ∧ promise.Later later

theorem Advanced.refl (vm : EventVM) : Advanced vm vm :=
  { history := List.prefix_rfl, ran := List.prefix_rfl
    promises := (Onward.refl vm).promises }

theorem Advanced.trans {first second third : EventVM} (early : Advanced first second)
    (late : Advanced second third) : Advanced first third where
  history := early.history.trans late.history
  ran := early.ran.trans late.ran
  promises := by
    intro p promise found
    obtain ⟨middle, middleFound, toMiddle⟩ := early.promises p promise found
    obtain ⟨last, lastFound, toLast⟩ := late.promises p middle middleFound
    exact ⟨last, lastFound, toMiddle.trans toLast⟩

theorem Onward.advanced {vm after : EventVM} (onward : Onward vm after) : Advanced vm after where
  history := by
    unfold EventVM.history
    rw [onward.ran]
    exact List.prefix_append_right_inj _ |>.mpr onward.waiting
  ran := onward.ran ▸ List.prefix_rfl
  promises := onward.promises

theorem advance_sound {vm : EventVM} {task : Microtask} (sound : vm.Sound)
    (running : vm.phase = .running task) :
    (advance vm).Sound ∧ (advance vm).history = vm.history := by
  have inHand : vm.inHand = 1 := by
    unfold EventVM.inHand
    rw [running]
  have idle : (advance vm).inHand = 0 := rfl
  have same : (advance vm).waiting = vm.waiting := by
    unfold EventVM.waiting
    rw [idle, inHand]
    rfl
  have history : (advance vm).history = vm.history := congrArg (vm.ran ++ ·) same
  refine ⟨{ inside := ?_, answered := ?_, origins := ?_ }, history⟩
  · have inside := sound.inside
    rw [inHand] at inside
    exact inside
  · intro p promise found
    rw [history]
    exact sound.answered p promise found
  · rw [history]
    exact sound.origins

theorem advance_advanced {vm : EventVM} {task : Microtask} (sound : vm.Sound)
    (running : vm.phase = .running task) : Advanced vm (advance vm) where
  history := (advance_sound sound running).2 ▸ List.prefix_rfl
  ran := List.prefix_rfl
  promises := (Onward.refl vm).promises

/-- The task at the head is the first that waits, and starting it moves it from
one part of the history to the other. -/
theorem started_sound {vm : EventVM} {task : Microtask} (sound : vm.Sound)
    (draining : vm.phase = .draining) (head : vm.microtasks[vm.microtaskHead]? = some task) :
    (∃ rest, vm.waiting = task :: rest) ∧
      EventVM.Sound { vm with phase := .running task, ran := vm.ran ++ [task] } ∧
      EventVM.history { vm with phase := .running task, ran := vm.ran ++ [task] } =
        vm.history := by
  obtain ⟨bound, atHead⟩ := List.getElem?_eq_some_iff.mp head
  have idle : vm.inHand = 0 := by
    unfold EventVM.inHand
    rw [draining]
  have split : vm.waiting = task :: vm.microtasks.drop (vm.microtaskHead + 1) := by
    unfold EventVM.waiting
    rw [idle, Nat.add_zero, List.drop_eq_getElem_cons bound, atHead]
  have history : EventVM.history { vm with phase := .running task, ran := vm.ran ++ [task] } =
      vm.history := by
    calc (vm.ran ++ [task]) ++ vm.microtasks.drop (vm.microtaskHead + 1)
        = vm.ran ++ task :: vm.microtasks.drop (vm.microtaskHead + 1) :=
          List.append_assoc _ _ _
      _ = vm.history := by rw [← split]; rfl
  refine ⟨⟨_, split⟩, { inside := bound, answered := ?_, origins := ?_ }, history⟩
  · intro p promise found
    rw [history]
    exact sound.answered p promise found
  · rw [history]
    exact sound.origins

theorem startTask_kept (builders : Builders) {vm : EventVM} {task : Microtask} (sound : vm.Sound)
    (draining : vm.phase = .draining) (head : vm.microtasks[vm.microtaskHead]? = some task) :
    (startTask builders vm task).Sound ∧ Advanced vm (startTask builders vm task) ∧
      (startTask builders vm task).ran = vm.ran ++ [task] := by
  obtain ⟨_, soundStarted, history⟩ := started_sound sound draining head
  have started : Advanced vm { vm with phase := .running task, ran := vm.ran ++ [task] } :=
    { history := history ▸ List.prefix_rfl
      ran := List.prefix_append _ _
      promises := (Onward.refl vm).promises }
  unfold startTask
  dsimp only
  split
  · exact ⟨soundStarted, started, rfl⟩
  · obtain ⟨soundRun, onward⟩ := runQuietly_kept builders _ task soundStarted
    obtain ⟨soundAfter, _⟩ := advance_sound soundRun onward.phase
    exact ⟨soundAfter,
      (started.trans onward.advanced).trans (advance_advanced soundRun onward.phase), onward.ran⟩

structure StepKept (vm after : EventVM) : Prop where
  sound : after.Sound
  advanced : Advanced vm after
  ran : after.ran = vm.ran

private theorem advance_kept {vm after : EventVM} {task : Microtask} (sound : vm.Sound)
    (running : vm.phase = .running task) (kept : Kept vm after) : StepKept vm (advance after) := by
  obtain ⟨soundAfter, onward⟩ := kept sound
  have runningAfter := onward.phase.trans running
  exact
    { sound := (advance_sound soundAfter runningAfter).1
      advanced := onward.advanced.trans (advance_advanced soundAfter runningAfter)
      ran := onward.ran }

private theorem stopped_kept {vm : EventVM} {task : Microtask} (sound : vm.Sound)
    (running : vm.phase = .running task) :
    StepKept vm { advance vm with phase := .code } := by
  have kept := advance_kept sound running (Kept.refl vm)
  exact
    { sound := { inside := kept.sound.inside, answered := kept.sound.answered
                 origins := kept.sound.origins }
      advanced := { history := kept.advanced.history, ran := kept.advanced.ran
                    promises := kept.advanced.promises }
      ran := rfl }

theorem finishTask_kept {vm after : EventVM} {task : Microtask} {action : EventAction}
    (sound : vm.Sound) (running : vm.phase = .running task)
    (finished : finishTask vm task action = some after) : StepKept vm after := by
  unfold finishTask at finished
  split at finished
  case h_1 value =>
      split at finished
      · exact Option.some.inj finished ▸ advance_kept sound running (Kept.refl vm)
      · exact Option.some.inj finished ▸
          advance_kept sound running (handlerReturned_kept vm task value)
  case h_2 thrown =>
      split at finished
      · cases finished
      · split at finished
        case h_1 result _ =>
            exact Option.some.inj finished ▸
              advance_kept sound running (csPromiseReject_kept vm result thrown)
        case h_2 => exact Option.some.inj finished ▸ stopped_kept sound running
  case h_3 =>
      split at finished
      · cases finished
      · exact Option.some.inj finished ▸ stopped_kept sound running
  case h_4 => cases finished

/-- A task is started only by a turn of the drain, and it is the one that has
waited longest; a drain is over only when none waits. -/
structure InOrder (vm : EventVM) (action : EventAction) (after : EventVM) : Prop where
  started : action = .next → vm.phase = .draining ∧
    ∃ task rest, vm.waiting = task :: rest ∧ after.ran = vm.ran ++ [task]
  untouched : action ≠ .next → after.ran = vm.ran
  drained : action = .drained → vm.waiting = []

theorem stepEvent_kept {builders : Builders} {vm after : EventVM} {action : EventAction}
    (sound : vm.Sound) (stepped : stepEvent builders vm action = some after) :
    after.Sound ∧ Advanced vm after ∧ InOrder vm action after := by
  have calls {next : EventVM} (called : action.call builders vm = some next) :
      next.Sound ∧ Advanced vm next ∧ InOrder vm action next := by
    obtain ⟨soundNext, onward⟩ := call_kept called sound
    refine ⟨soundNext, onward.advanced, { started := ?_, untouched := fun _ => onward.ran, drained := ?_ }⟩
    · rintro rfl
      cases called
    · rintro rfl
      cases called
  unfold stepEvent at stepped
  split at stepped
  case isFalse => cases stepped
  case isTrue =>
    split at stepped
    case h_1 code =>
        split at stepped
        case isTrue drain =>
            rw [← Option.some.inj stepped, drain]
            have idle : vm.inHand = 0 := by
              unfold EventVM.inHand
              rw [code]
            have history : EventVM.history { vm with phase := .draining } = vm.history := by
              unfold EventVM.history EventVM.waiting
              rw [idle]
              rfl
            refine ⟨{ inside := ?_, answered := ?_, origins := ?_ },
              { history := history ▸ List.prefix_rfl, ran := List.prefix_rfl
                promises := (Onward.refl vm).promises },
              { started := fun impossible => by cases impossible
                untouched := fun _ => rfl
                drained := fun impossible => by cases impossible }⟩
            · have inside := sound.inside
              rw [idle] at inside
              exact inside
            · rw [history]
              exact sound.answered
            · rw [history]
              exact sound.origins
        case isFalse => exact calls stepped
    case h_2 draining =>
        split at stepped
        case h_1 task head _ =>
            rw [← Option.some.inj stepped]
            obtain ⟨rest, _, _⟩ := started_sound sound draining head
            obtain ⟨soundAfter, advanced, ran⟩ := startTask_kept builders sound draining head
            obtain ⟨rest, split⟩ := rest
            exact ⟨soundAfter, advanced,
              { started := fun _ => ⟨draining, task, rest, split, ran⟩
                untouched := fun other => absurd rfl other
                drained := fun impossible => by cases impossible }⟩
        case h_2 spent _ =>
            rw [← Option.some.inj stepped]
            have idle : vm.inHand = 0 := by
              unfold EventVM.inHand
              rw [draining]
            have none_ : vm.waiting = [] := by
              unfold EventVM.waiting
              rw [idle]
              exact List.drop_eq_nil_of_le (List.getElem?_eq_none_iff.mp spent)
            have history : EventVM.history
                { vm with microtaskHead := 0, microtasks := [], phase := .code } = vm.history := by
              unfold EventVM.history
              rw [none_]
              rfl
            refine ⟨{ inside := Nat.le_refl _, answered := ?_, origins := ?_ },
              { history := history ▸ List.prefix_rfl, ran := List.prefix_rfl
                promises := (Onward.refl vm).promises },
              { started := fun impossible => by cases impossible
                untouched := fun _ => rfl
                drained := fun _ => none_ }⟩
            · rw [history]
              exact sound.answered
            · rw [history]
              exact sound.origins
        case h_3 => cases stepped
    case h_3 task running =>
        cases called : action.call builders vm with
        | some next =>
            rw [called] at stepped
            exact Option.some.inj stepped ▸ calls called
        | none =>
            rw [called] at stepped
            have kept := finishTask_kept sound running stepped
            refine ⟨kept.sound, kept.advanced,
              { started := ?_, untouched := fun _ => kept.ran, drained := ?_ }⟩
            · rintro rfl
              cases stepped
            · rintro rfl
              cases stepped

theorem initial_sound : initial.Sound :=
  { inside := Nat.le_refl _
    answered := fun p _ found => by cases found
    origins := fun _ member => by cases member }

theorem runEvents_kept {builders : Builders} {vm after : EventVM} {actions : List EventAction}
    (sound : vm.Sound) (ran : runEvents builders vm actions = some after) :
    after.Sound ∧ Advanced vm after := by
  induction actions generalizing vm with
  | nil => exact Option.some.inj ran ▸ ⟨sound, Advanced.refl vm⟩
  | cons action rest ih =>
      obtain ⟨next, stepped, others⟩ := Option.bind_eq_some_iff.mp ran
      obtain ⟨soundNext, first, _⟩ := stepEvent_kept sound stepped
      obtain ⟨soundAfter, last⟩ := ih soundNext others
      exact ⟨soundAfter, first.trans last⟩

end CScript.EventLoop
