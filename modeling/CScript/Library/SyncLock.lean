/-
The locks of std:sync.

A promise that a lock has not settled yet is named by the call it answers; settling
it hands the call its release function.  The release function is a closure over the
lock alone, which does not remember whether it has been called: a client that calls
it again while the lock is held takes the lock from its holder.
-/

import CScript.Foundation.PermitQueue
import Mathlib.Data.Rat.Cast.Order
import Mathlib.Tactic.Linarith
import Mathlib.Tactic.NormNum

namespace CScript.Sync

open CScript.PermitQueue

/-! ### The classes -/

structure Mutex where
  held : Bool
  waiting : List Nat
  deriving DecidableEq, Repr

namespace Mutex

def new : Mutex :=
  { held := false, waiting := [] }

def lock (mutex : Mutex) (call : Nat) : Mutex × Option Nat :=
  if !mutex.held then ({ mutex with held := true }, some call)
  else ({ mutex with waiting := mutex.waiting ++ [call] }, none)

def release (mutex : Mutex) : Mutex × Option Nat :=
  match mutex.waiting with
  | [] => ({ mutex with held := false }, none)
  | next :: rest => ({ mutex with waiting := rest }, some next)

end Mutex

structure Semaphore where
  free : ℚ
  waiting : List Nat
  deriving DecidableEq

namespace Semaphore

def new (permits : ℚ) : Except String Semaphore :=
  if permits < 1 then .error "a Semaphore needs at least one permit"
  else .ok { free := permits, waiting := [] }

def acquire (semaphore : Semaphore) (call : Nat) : Semaphore × Option Nat :=
  if 0 < semaphore.free then ({ semaphore with free := semaphore.free - 1 }, some call)
  else ({ semaphore with waiting := semaphore.waiting ++ [call] }, none)

def release (semaphore : Semaphore) : Semaphore × Option Nat :=
  match semaphore.waiting with
  | next :: rest => ({ semaphore with waiting := rest }, some next)
  | [] => ({ semaphore with free := semaphore.free + 1 }, none)

end Semaphore

/-- Either of the two classes; `withLock` and `withPermit` are requests whose body
calls the release function. -/
inductive SyncLock where
  | mutex (mutex : Mutex)
  | semaphore (semaphore : Semaphore)

namespace SyncLock

def enter (lock : SyncLock) (call : Nat) : SyncLock × Option Nat :=
  match lock with
  | mutex state => ((state.lock call).map mutex id)
  | semaphore state => ((state.acquire call).map semaphore id)

def leave (lock : SyncLock) : SyncLock × Option Nat :=
  match lock with
  | mutex state => (state.release.map mutex id)
  | semaphore state => (state.release.map semaphore id)

def available : SyncLock → ℚ
  | mutex state => if state.held then 0 else 1
  | semaphore state => state.free

def waiting : SyncLock → List Nat
  | mutex state => state.waiting
  | semaphore state => state.waiting

@[simp] theorem waiting_mutex (state : Mutex) : (mutex state).waiting = state.waiting := rfl

@[simp] theorem waiting_semaphore (state : Semaphore) :
    (semaphore state).waiting = state.waiting := rfl

def Unheld : SyncLock → Prop
  | mutex state => state.held = false
  | semaphore _ => False

inductive Fresh : ℚ → SyncLock → Prop
  | mutex : Fresh 1 (.mutex Mutex.new)
  | semaphore {permits : ℚ} {state : Semaphore} (made : Semaphore.new permits = .ok state) :
      Fresh permits (.semaphore state)

end SyncLock

def syncLock : Lock SyncLock :=
  { enter := SyncLock.enter, leave := SyncLock.leave }

structure KeepsBound (permits : ℚ) (world : World SyncLock) : Prop where
  bound : (world.holders.length : ℚ) ≤ permits
  inOrder : world.granted <+: List.range world.requests.length
  nobodyWaits : world.holders = [] →
    ∀ client < world.requests.length, client ∈ world.granted
  available : world.lock.available ≤ permits

/-! ### The permits of a lock -/

structure Stands (lock : SyncLock) (permits : Permits) : Prop where
  free : lock.available = permits.free
  waiting : permits.waiting = lock.waiting

def SyncLock.Single (total : Nat) : SyncLock → Prop
  | .mutex _ => total = 1
  | .semaphore _ => True

theorem enter_stands {lock : SyncLock} {permits : Permits} (stands : Stands lock permits)
    (call : Nat) :
    Stands (lock.enter call).1 (permits.enter call).1 ∧
      (lock.enter call).2 = (permits.enter call).2 := by
  obtain ⟨free, waiting⟩ := stands
  obtain ⟨none_, refused, stays, joined⟩ | ⟨empty, granted, left, still⟩ :=
    permits.enter_cases call
  · cases lock with
    | mutex state =>
        have held : state.held = true := by
          cases held : state.held with
          | true => rfl
          | false => simp [SyncLock.available, held, none_] at free
        simp only [SyncLock.enter, Mutex.lock, held, Bool.not_true, Bool.false_eq_true, if_false,
          Prod.map, id, refused, and_true]
        exact ⟨by simp [SyncLock.available, stays], by simp [joined, waiting]⟩
    | semaphore state =>
        have nothing : state.free = 0 := by
          simpa [SyncLock.available, none_] using free
        simp only [SyncLock.enter, Semaphore.acquire, nothing, lt_irrefl, if_false, Prod.map, id,
          refused, and_true]
        exact ⟨by simp [SyncLock.available, stays], by simp [joined, waiting]⟩
  · have some_ : permits.free ≠ 0 := by omega
    cases lock with
    | mutex state =>
        have unheld : state.held = false := by
          cases held : state.held with
          | false => rfl
          | true => exact absurd (by simpa [SyncLock.available, held, eq_comm] using free) some_
        have one : permits.free = 1 := by
          simpa [SyncLock.available, unheld, eq_comm] using free
        simp only [SyncLock.enter, Mutex.lock, unheld, Bool.not_false, if_true, Prod.map, id,
          granted, and_true]
        have none_ : (permits.enter call).1.free = 0 := by omega
        exact ⟨by simp [SyncLock.available, none_], by simpa [still, empty] using waiting⟩
    | semaphore state =>
        have count : state.free = permits.free := free
        have whole : (permits.free : ℚ) = (permits.enter call).1.free + 1 := by
          rw [← left]
          push_cast
          rfl
        have positive : 0 < state.free := by
          rw [count, whole]
          positivity
        simp only [SyncLock.enter, Semaphore.acquire, positive, if_true, Prod.map, id, granted,
          and_true]
        refine ⟨?_, by simpa [still, empty] using waiting⟩
        simp only [SyncLock.available]
        rw [count, whole, add_sub_cancel_right]

theorem leave_stands {lock : SyncLock} {permits : Permits} {total : Nat}
    (single : lock.Single total) (stands : Stands lock permits)
    (less : permits.free < total) :
    Stands lock.leave.1 permits.leave.1 ∧ lock.leave.2 = permits.leave.2 := by
  obtain ⟨free, waiting⟩ := stands
  obtain ⟨empty, none_, more, still⟩ | ⟨next, rest, some_, handed, same, left⟩ :=
    permits.leave_cases
  · rw [empty] at waiting
    cases lock with
    | mutex state =>
        have nobody : state.waiting = [] := waiting.symm
        have none_free : permits.free = 0 := by
          have one : total = 1 := single
          omega
        simp only [SyncLock.leave, Mutex.release, nobody, Prod.map, id, none_, and_true]
        exact ⟨by simp [SyncLock.available, more, none_free], by simp [still]⟩
    | semaphore state =>
        have nobody : state.waiting = [] := waiting.symm
        have count : state.free = permits.free := free
        simp only [SyncLock.leave, Semaphore.release, nobody, Prod.map, id, none_, and_true]
        exact ⟨by simp [SyncLock.available, more, count], by simp [still]⟩
  · rw [some_] at waiting
    cases lock with
    | mutex state =>
        have queue : state.waiting = next :: rest := waiting.symm
        simp only [SyncLock.leave, Mutex.release, queue, Prod.map, id, handed, and_true]
        exact ⟨by rw [same]; exact free, by simp [left]⟩
    | semaphore state =>
        have queue : state.waiting = next :: rest := waiting.symm
        simp only [SyncLock.leave, Semaphore.release, queue, Prod.map, id, handed, and_true]
        exact ⟨by rw [same]; exact free, by simp [left]⟩

theorem enter_single {lock : SyncLock} {total : Nat} (single : lock.Single total) (call : Nat) :
    (lock.enter call).1.Single total := by
  cases lock with
  | mutex state => exact single
  | semaphore state => trivial

theorem leave_single {lock : SyncLock} {total : Nat} (single : lock.Single total) :
    lock.leave.1.Single total := by
  cases lock with
  | mutex state => exact single
  | semaphore state => trivial

theorem leave_unheld {lock : SyncLock} {permits : Permits} (stands : Stands lock permits)
    (unheld : lock.Unheld) : lock.leave = (lock, none) := by
  cases lock with
  | mutex state =>
      have open_ : state.held = false := unheld
      have some_ : permits.free ≠ 0 := by
        intro none_
        have free := stands.free
        simp [SyncLock.available, open_, none_] at free
      have empty : state.waiting = [] :=
        stands.waiting.symm.trans (permits.exclusive.resolve_left some_)
      simp only [SyncLock.leave, Mutex.release, empty, Prod.map, id]
      rw [← open_, ← empty]
  | semaphore state => exact unheld.elim

theorem syncLock_implements (total : Nat) :
    Implements syncLock total SyncLock.Unheld
      (fun lock permits => Stands lock permits ∧ lock.Single total) where
  enter := by
    intro lock permits call stands
    obtain ⟨after, same⟩ := enter_stands stands.1 call
    exact ⟨⟨after, enter_single stands.2 call⟩, same⟩
  leave := by
    intro lock permits stands less
    obtain ⟨after, same⟩ := leave_stands stands.2 stands.1 less
    exact ⟨⟨after, leave_single stands.2⟩, same⟩
  idle := by
    intro lock permits stands unheld
    exact leave_unheld stands.1 unheld

theorem fresh_stands {lock : SyncLock} {total : Nat} (fresh : SyncLock.Fresh total lock) :
    0 < total ∧ lock.Single total ∧
      Stands lock { free := total, waiting := [], exclusive := .inr rfl } := by
  generalize given : (total : ℚ) = permits at fresh
  cases fresh with
  | mutex =>
      have one : total = 1 := by exact_mod_cast given
      exact ⟨by omega, one, by simp [SyncLock.available, Mutex.new, one], rfl⟩
  | semaphore made =>
      unfold Semaphore.new at made
      split at made
      · cases made
      · rename_i enough
        cases made
        rw [← given] at enough
        have one : 1 ≤ total := by exact_mod_cast not_lt.mp enough
        exact ⟨one, trivial, given.symm, rfl⟩

/-! ### The bound -/

/-- Where no release function is used twice, the two classes keep to their number
of permits. -/
theorem syncLock_keepsBound {permits : ℚ} {lock : SyncLock} {world : World SyncLock}
    (fresh : SyncLock.Fresh permits lock) (whole : ∃ total : ℕ, permits = total)
    (reached : Reached syncLock (Careful SyncLock.Unheld) (World.start lock) world) :
    KeepsBound permits world := by
  obtain ⟨total, rfl⟩ := whole
  obtain ⟨positive, single, stands⟩ := fresh_stands fresh
  obtain ⟨left, stood, accounted⟩ :=
    reached_accounted (syncLock_implements total) ⟨stands, single⟩ reached
  constructor
  · exact_mod_cast accounted.bounded
  · exact accounted.inOrder
  · exact fun nobody client asked => accounted.nobodyWaits positive nobody asked
  · have count := accounted.count
    rw [stood.1.free]
    exact_mod_cast (by omega : left.free ≤ total)

/-- Two clients of a mutex, one of whom releases a third time when it is not held. -/
theorem syncLock_keepsBound_handedOn :
    ∃ world : World SyncLock, world.granted = [0, 1] ∧ world.released = [1, 1, 0] ∧
      KeepsBound 1 world := by
  have taken : Reached syncLock (Careful SyncLock.Unheld) (World.start (.mutex Mutex.new)) _ :=
    ((Reached.start.perform (.request .handed) trivial rfl).perform (.request .handed) trivial
      rfl).perform (.resume 0) trivial rfl
  have handed := (taken.perform (.release 0) nofun rfl).perform (.resume 1) trivial rfl
  have reached := (handed.perform (.release 1) (fun used => absurd used (by decide)) rfl).perform
    (.release 1) (fun _ => rfl) rfl
  exact ⟨_, rfl, rfl, syncLock_keepsBound .mutex ⟨1, by norm_num⟩ reached⟩

/-- A client that calls its release function twice lets two others in at once. -/
theorem released_twice :
    ¬∀ (permits : ℚ) (lock : SyncLock) (world : World SyncLock), SyncLock.Fresh permits lock →
      Reached syncLock (fun _ _ => True) (World.start lock) world → KeepsBound permits world := by
  intro claim
  have ran : (World.start (.mutex Mutex.new)).run syncLock [.request .handed, .request .handed,
      .request .handed, .resume 0, .release 0, .release 0] =
      some
        { lock := .mutex { held := true, waiting := [] }
          requests := [.handed, .handed, .handed]
          granted := [0, 1, 2]
          resumed := [0]
          released := [0, 0]
          outcomes := [] } := rfl
  have bound := (claim 1 _ _ .mutex (Reached.start.run ran)).bound
  have two : ([0, 1, 2].filter (fun client => client ∉ [0, 0])).length = 2 := rfl
  unfold World.holders at bound
  rw [two] at bound
  norm_num at bound

end CScript.Sync
