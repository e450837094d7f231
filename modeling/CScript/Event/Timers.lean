/-
Timers: the queue in order of what is due, and the loop that takes the first one off.

A program schedules and clears timers at any time, also from a callback.  The timer whose
callback runs is in no queue, and an interval goes back on once its callback has returned.
-/

import CScript.Foundation.Refinement
import Mathlib.Algebra.GroupWithZero.Nat
import Mathlib.Data.Nat.Basic
import Mathlib.Order.CompletePartialOrder

namespace CScript.Timers

open Foundation

structure Timer (Time Callback : Type) where
  dueMs : Time
  sequence : Nat
  id : Int
  callback : Callback
  cancelled : Bool
  repeatMs : Time

/-- What the machine keeps of its timers.  `next` is the local of the loop. -/
structure VM (Time Callback : Type) where
  timers : List (Timer Time Callback)
  nextTimerId : Int
  timerSequence : Nat
  firingTimerId : Int
  firingCancelled : Bool
  next : Option (Timer Time Callback)

def CS_TIMERS_MAX : Nat := 1024

def init (Time Callback : Type) : VM Time Callback :=
  { timers := [], nextTimerId := 0, timerSequence := 0, firingTimerId := 0,
    firingCancelled := false, next := none }

section

variable {Time Callback : Type} [LinearOrder Time]

def After (left right : Timer Time Callback) : Prop :=
  right.dueMs < left.dueMs ∨ left.dueMs = right.dueMs ∧ right.sequence < left.sequence

instance (left right : Timer Time Callback) : Decidable (After left right) :=
  inferInstanceAs (Decidable (_ ∨ _))

/-- The loop that makes room, on the queue from its end. -/
def sink (timer : Timer Time Callback) : List (Timer Time Callback) → List (Timer Time Callback)
  | [] => [timer]
  | last :: before =>
      if After last timer then last :: sink timer before else timer :: last :: before

def insert (timer : Timer Time Callback) (timers : List (Timer Time Callback)) :
    List (Timer Time Callback) :=
  (sink timer timers.reverse).reverse

/-- `delay` is none where there is no number, or NaN.  A full queue is an error. -/
def scheduleTimer [Zero Time] [One Time] [Add Time] (vm : VM Time Callback) (now : Time)
    (delay : Option Time) (callback : Callback) (repeating : Bool) : Option (VM Time Callback) :=
  let delay := delay.elim 0 fun delay => if delay < 0 then 0 else delay
  if vm.timers.length = CS_TIMERS_MAX then none
  else
    let timer : Timer Time Callback :=
      { dueMs := now + delay
        sequence := vm.timerSequence
        id := vm.nextTimerId
        callback := callback
        cancelled := false
        repeatMs := if repeating then (if 1 < delay then delay else 1) else 0 }
    some { vm with
      timers := insert timer vm.timers
      nextTimerId := vm.nextTimerId + 1
      timerSequence := vm.timerSequence + 1 }

def clearTimeout (vm : VM Time Callback) (id : Int) : VM Time Callback :=
  { vm with
    firingCancelled := if id = vm.firingTimerId then true else vm.firingCancelled
    timers := vm.timers.eraseP (fun timer => timer.id = id) }

/-- A turn of the loop that is not waiting for a callback, and the timer it has taken. -/
def turn (vm : VM Time Callback) : Option (VM Time Callback × Option (Timer Time Callback)) :=
  match vm.next, vm.timers with
  | none, next :: rest =>
      if next.cancelled then some ({ vm with timers := rest }, none)
      else
        some ({ vm with
          timers := rest
          firingTimerId := next.id
          firingCancelled := false
          next := some next }, some next)
  | _, _ => none

/-- The turn goes on behind the callback. -/
def returned [Zero Time] [Add Time] (vm : VM Time Callback) (now : Time) :
    Option (VM Time Callback) :=
  vm.next.map fun next =>
    let after := { vm with firingTimerId := -1, firingCancelled := false, next := none }
    if 0 < next.repeatMs ∧ vm.firingCancelled = false ∧ vm.timers.length < CS_TIMERS_MAX then
      { after with
        timers := insert { next with dueMs := now + next.repeatMs, sequence := vm.timerSequence }
          vm.timers
        timerSequence := vm.timerSequence + 1 }
    else after

inductive Action (Time Callback : Type) where
  | schedule (now : Time) (delay : Option Time) (callback : Callback) (repeating : Bool)
  | clear (id : Int)
  | turn
  | returned (now : Time)

/-- A callback that throws ends the loop, and the run with it. -/
def step [Zero Time] [One Time] [Add Time] (vm : VM Time Callback) :
    Action Time Callback → Option (VM Time Callback × Option (Timer Time Callback))
  | .schedule now delay callback repeating =>
      some ((scheduleTimer vm now delay callback repeating).getD vm, none)
  | .clear id => some (clearTimeout vm id, none)
  | .turn => turn vm
  | .returned now => (returned vm now).map (·, none)

/-! ### The queue -/

variable {timer : Timer Time Callback} {timers : List (Timer Time Callback)}
  {vm next last : VM Time Callback} {action : Action Time Callback}
  {actions : List (Action Time Callback)} {answer : Option (Timer Time Callback)}
  {answers : List (Option (Timer Time Callback))}

theorem sink_perm (timer : Timer Time Callback) (timers : List (Timer Time Callback)) :
    (sink timer timers).Perm (timer :: timers) := by
  induction timers with
  | nil => rfl
  | cons last before ih =>
      unfold sink
      split
      · exact (ih.cons last).trans (.swap _ _ _)
      · rfl

theorem After.trans {left middle right : Timer Time Callback} (first : After left middle)
    (second : After middle right) : After left right := by
  rcases first with first | ⟨first, older⟩
  · rcases second with second | ⟨second, _⟩
    · exact .inl (lt_trans second first)
    · exact .inl (second ▸ first)
  · rcases second with second | ⟨second, old⟩
    · exact .inl (first ▸ second)
    · exact .inr ⟨first.trans second, Nat.lt_trans old older⟩

/-- A timer registered last does not come before one that is due as early. -/
theorem sink_ordered (ordered : timers.Pairwise After)
    (newer : ∀ old ∈ timers, old.sequence < timer.sequence) :
    (sink timer timers).Pairwise After := by
  induction timers with
  | nil => exact List.pairwise_singleton _ _
  | cons last before ih =>
      obtain ⟨here, rest⟩ := List.pairwise_cons.mp ordered
      unfold sink
      split
      · rename_i after
        refine List.pairwise_cons.mpr
          ⟨fun other member => ?_,
            ih rest fun old there => newer old (List.mem_cons_of_mem _ there)⟩
        rcases List.mem_cons.mp ((sink_perm timer before).mem_iff.mp member) with rfl | old
        · exact after
        · exact here other old
      · rename_i notAfter
        have first : After timer last := by
          rcases lt_trichotomy timer.dueMs last.dueMs with earlier | same | later
          · exact absurd (.inl earlier) notAfter
          · exact .inr ⟨same, newer last List.mem_cons_self⟩
          · exact .inl later
        refine List.pairwise_cons.mpr ⟨fun other member => ?_, ordered⟩
        rcases List.mem_cons.mp member with rfl | old
        · exact first
        · exact first.trans (here other old)

theorem insert_perm (timer : Timer Time Callback) (timers : List (Timer Time Callback)) :
    (insert timer timers).Perm (timer :: timers) :=
  (List.reverse_perm _).trans
    ((sink_perm timer _).trans ((List.reverse_perm timers).cons timer))

theorem insert_ordered
    (ordered : timers.Pairwise (fun left right => After right left))
    (newer : ∀ old ∈ timers, old.sequence < timer.sequence) :
    (insert timer timers).Pairwise (fun left right => After right left) :=
  List.pairwise_reverse.mpr (sink_ordered (List.pairwise_reverse.mpr ordered)
    fun old there => newer old (List.mem_reverse.mp there))

/-! ### Every run -/

structure Sound (vm : VM Time Callback) : Prop where
  ordered : vm.timers.Pairwise (fun left right => After right left)
  older : ∀ timer ∈ vm.timers, timer.sequence < vm.timerSequence
  known : ∀ timer ∈ vm.timers, timer.id < vm.nextTimerId
  distinct : (vm.timers.map Timer.id).Nodup
  live : ∀ timer ∈ vm.timers, timer.cancelled = false
  few : vm.timers.length ≤ CS_TIMERS_MAX
  firing : ∀ next ∈ vm.next, next.id = vm.firingTimerId ∧ next.id < vm.nextTimerId ∧
    next.cancelled = false ∧ ∀ timer ∈ vm.timers, timer.id ≠ next.id

/-- A timer is put on the queue under an id that no other timer there has. -/
theorem Sound.put (sound : Sound vm) {ids : Int}
    (sequence : timer.sequence = vm.timerSequence) (live : timer.cancelled = false)
    (own : ∀ old ∈ vm.timers, old.id ≠ timer.id) (known : timer.id < ids)
    (more : vm.nextTimerId ≤ ids) (room : vm.timers.length < CS_TIMERS_MAX)
    {now : Option (Timer Time Callback)} {fired : Int} {cancelled : Bool}
    (firing : ∀ next ∈ now, next ∈ vm.next ∧ fired = vm.firingTimerId ∧ timer.id ≠ next.id) :
    Sound { vm with
      timers := insert timer vm.timers
      nextTimerId := ids
      timerSequence := vm.timerSequence + 1
      firingTimerId := fired
      firingCancelled := cancelled
      next := now } := by
  have members : ∀ {P : Timer Time Callback → Prop}, P timer → (∀ old ∈ vm.timers, P old) →
      ∀ one ∈ insert timer vm.timers, P one := by
    intro P here others one member
    rcases List.mem_cons.mp ((insert_perm timer vm.timers).mem_iff.mp member) with rfl | old
    · exact here
    · exact others one old
  refine ⟨insert_ordered sound.ordered fun old there => ?_, members ?_ fun old there => ?_,
    members known fun old there => ?_, ?_, members live sound.live, ?_, fun next held => ?_⟩
  · rw [sequence]
    exact sound.older old there
  · exact sequence ▸ Nat.lt_succ_self _
  · exact Nat.lt_succ_of_lt (sound.older old there)
  · exact Int.lt_of_lt_of_le (sound.known old there) more
  · refine ((insert_perm timer vm.timers).map Timer.id).nodup_iff.mpr
      (List.nodup_cons.mpr ⟨fun member => ?_, sound.distinct⟩)
    obtain ⟨old, there, same⟩ := List.mem_map.mp member
    exact own old there same
  · rw [(insert_perm timer vm.timers).length_eq]
    exact room
  · obtain ⟨before, same, apart⟩ := firing next held
    obtain ⟨id, below, alive, others⟩ := sound.firing next before
    exact ⟨id.trans same.symm, Int.lt_of_lt_of_le below more, alive, members apart others⟩

theorem Sound.fewer (sound : Sound vm) (sublist : timers.Sublist vm.timers)
    {now : Option (Timer Time Callback)} {fired : Int} {cancelled : Bool}
    (firing : ∀ next ∈ now, next.id = fired ∧ next.id < vm.nextTimerId ∧
      next.cancelled = false ∧ ∀ timer ∈ timers, timer.id ≠ next.id) :
    Sound { vm with
      timers := timers, firingTimerId := fired, firingCancelled := cancelled, next := now } where
  ordered := sound.ordered.sublist sublist
  older timer there := sound.older timer (sublist.subset there)
  known timer there := sound.known timer (sublist.subset there)
  distinct := sound.distinct.sublist (sublist.map _)
  live timer there := sound.live timer (sublist.subset there)
  few := Nat.le_trans sublist.length_le sound.few
  firing := firing

theorem Sound.start : Sound (init Time Callback) :=
  ⟨.nil, by simp [init], by simp [init], .nil, by simp [init], Nat.zero_le _, by simp [init]⟩

/-- No timer with the id waits, and the one that runs does not go back on the queue. -/
structure Gone [Zero Time] (vm : VM Time Callback) (id : Int) : Prop where
  known : id < vm.nextTimerId
  queue : ∀ timer ∈ vm.timers, timer.id ≠ id
  firing : ∀ fired ∈ vm.next, fired.id = id → 0 < fired.repeatMs → vm.firingCancelled = true

theorem Sound.cleared [Zero Time] {id : Int} (sound : Sound vm)
    (known : id < vm.nextTimerId) : Gone (clearTimeout vm id) id := by
  refine ⟨known, fun timer there same => ?_, fun fired held same _ => ?_⟩
  · obtain ⟨first, front, back, others, here, queue, rest⟩ :=
      List.exists_of_eraseP (p := fun timer => timer.id = id)
        (List.eraseP_sublist.subset there) (decide_eq_true same)
    have distinct := sound.distinct
    rw [queue, List.map_append, List.map_cons] at distinct
    rw [clearTimeout, rest] at there
    rcases List.mem_append.mp there with before | behind
    · exact others timer before (decide_eq_true same)
    · exact (List.nodup_cons.mp (List.nodup_append.mp distinct).2.1).1
        (List.mem_map.mpr ⟨timer, behind, same.trans (of_decide_eq_true here).symm⟩)
  · exact if_pos (same ▸ (sound.firing fired held).1)

variable [Zero Time]

/-- What a step can do to the queue. -/
structure Stepped (vm : VM Time Callback) (action : Action Time Callback)
    (next : VM Time Callback) (answer : Option (Timer Time Callback)) : Prop where
  sound : Sound next
  more : vm.nextTimerId ≤ next.nextTimerId
  taken : ∀ timer ∈ answer, next.next = some timer ∧ vm.timers = timer :: next.timers
  members : ∀ timer ∈ next.timers, timer ∈ vm.timers ∨ vm.nextTimerId ≤ timer.id ∨
    ∃ fired ∈ vm.next, timer.id = fired.id ∧ 0 < fired.repeatMs ∧ vm.firingCancelled = false
  running : ∀ fired ∈ next.next, fired ∈ answer ∨
    fired ∈ vm.next ∧ (vm.firingCancelled = true → next.firingCancelled = true)
  kept : ∀ timer ∈ vm.timers, action = .clear timer.id ∨ timer ∈ next.timers ∨
    answer = some timer

variable [One Time] [Add Time]

theorem step_cases (sound : Sound vm) (stepped : step vm action = some (next, answer)) :
    Stepped vm action next answer := by
  cases action with
  | schedule now delay callback repeating =>
      obtain ⟨rfl, rfl⟩ := Prod.mk.inj (Option.some.inj stepped)
      unfold scheduleTimer
      dsimp only
      split
      · exact ⟨sound, Int.le_refl _, by simp, fun timer there => .inl there,
          fun fired held => .inr ⟨held, id⟩, fun timer there => .inr (.inl there)⟩
      · rename_i room
        refine ⟨sound.put rfl rfl (fun old there same => ?_) (Int.lt_succ _)
          (Int.le_of_lt (Int.lt_succ _)) (by have := sound.few; omega)
          fun fired held => ⟨held, rfl, fun same => ?_⟩, Int.le_of_lt (Int.lt_succ _),
          by simp, fun timer there => ?_, fun fired held => .inr ⟨held, id⟩,
          fun timer there => .inr (.inl ?_)⟩
        · exact Int.lt_irrefl _ (same ▸ sound.known old there)
        · exact Int.lt_irrefl _ (same ▸ (sound.firing fired held).2.1)
        · rcases List.mem_cons.mp ((insert_perm _ _).mem_iff.mp there) with rfl | old
          · exact .inr (.inl (Int.le_refl _))
          · exact .inl old
        · exact (insert_perm _ _).mem_iff.mpr (List.mem_cons_of_mem _ there)
  | clear id =>
      obtain ⟨rfl, rfl⟩ := Prod.mk.inj (Option.some.inj stepped)
      refine ⟨sound.fewer List.eraseP_sublist fun fired held => ?_, Int.le_refl _, by simp,
        fun timer there => .inl (List.eraseP_sublist.subset there),
        fun fired held => .inr ⟨held, fun cancelled => ?_⟩, fun timer there => ?_⟩
      · obtain ⟨same, known, live, others⟩ := sound.firing fired held
        exact ⟨same, known, live, fun timer there =>
          others timer (List.eraseP_sublist.subset there)⟩
      · exact (ite_eq_left_iff.mpr fun _ => cancelled)
      · by_cases same : timer.id = id
        · exact .inl (congrArg _ same.symm)
        · exact .inr (.inl ((List.mem_eraseP_of_neg (by simpa using same)).mpr there))
  | turn =>
      change turn vm = some (next, answer) at stepped
      unfold turn at stepped
      split at stepped
      · rename_i first rest idle queue
        have here : first ∈ vm.timers := queue ▸ List.mem_cons_self
        have live := sound.live first here
        rw [if_neg (by simp [live])] at stepped
        obtain ⟨rfl, rfl⟩ := Prod.mk.inj (Option.some.inj stepped)
        have distinct := sound.distinct
        rw [queue, List.map_cons, List.nodup_cons] at distinct
        refine ⟨sound.fewer (queue ▸ List.sublist_cons_self first rest) fun fired held => ?_,
          Int.le_refl _, fun timer held => ?_, fun timer there => .inl ?_,
          fun fired held => .inl held, fun timer there => ?_⟩
        · cases held
          exact ⟨rfl, sound.known first here, live, fun timer there same =>
            distinct.1 (List.mem_map.mpr ⟨timer, there, same⟩)⟩
        · cases held
          exact ⟨rfl, queue⟩
        · exact queue ▸ List.mem_cons_of_mem _ there
        · rw [queue] at there
          rcases List.mem_cons.mp there with rfl | there
          · exact .inr (.inr rfl)
          · exact .inr (.inl there)
      · cases stepped
  | returned now =>
      obtain ⟨_, held, same⟩ := Option.map_eq_some_iff.mp stepped
      obtain ⟨rfl, rfl⟩ := Prod.mk.inj same
      obtain ⟨fired, firing, rfl⟩ := Option.map_eq_some_iff.mp held
      obtain ⟨_, known, live, others⟩ := sound.firing fired firing
      dsimp only
      split
      · rename_i again
        refine ⟨sound.put rfl (by exact live) (by exact others) (by exact known) (Int.le_refl _)
          again.2.2 (by simp), Int.le_refl _, by simp, fun timer there => ?_, by simp,
          fun timer there => .inr (.inl ?_)⟩
        · rcases List.mem_cons.mp ((insert_perm _ _).mem_iff.mp there) with rfl | old
          · exact .inr (.inr ⟨fired, firing, rfl, again.1, again.2.1⟩)
          · exact .inl old
        · exact (insert_perm _ _).mem_iff.mpr (List.mem_cons_of_mem _ there)
      · exact ⟨sound.fewer (List.Sublist.refl _) (by simp), Int.le_refl _, by simp,
          fun timer there => .inl there, by simp, fun timer there => .inr (.inl there)⟩

theorem Gone.step {id : Int} (gone : Gone vm id) (sound : Sound vm)
    (stepped : step vm action = some (next, answer)) :
    Gone next id ∧ ∀ timer ∈ answer, timer.id ≠ id := by
  have done := step_cases sound stepped
  have apart : ∀ timer ∈ answer, timer.id ≠ id := fun timer held =>
    gone.queue timer ((done.taken timer held).2 ▸ List.mem_cons_self)
  refine ⟨⟨Int.lt_of_lt_of_le gone.known done.more, fun timer there => ?_,
    fun fired held same again => ?_⟩, apart⟩
  · rcases done.members timer there with old | fresh | ⟨fired, held, same, again, live⟩
    · exact gone.queue timer old
    · exact fun same => Int.lt_irrefl _ (Int.lt_of_lt_of_le (same ▸ gone.known) fresh)
    · intro here
      rw [gone.firing fired held (same ▸ here) again] at live
      cases live
  · rcases done.running fired held with here | ⟨before, kept⟩
    · exact absurd same (apart fired here)
    · exact kept (gone.firing fired before same again)

end

end CScript.Timers
