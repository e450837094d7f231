/-
Permits that are handed from client to client.

A lock answers a request at once or makes it wait, and a client that is done gives
its permit to the request that waited longest.  Whether clients keep to the number
of permits depends on the lock and on what they do with it: the clients are modelled
here over any lock, and what they keep to is proved of every lock that implements
the permits.
-/

import Mathlib.Data.List.Nodup

namespace CScript.PermitQueue

/-! ### The permits -/

structure Permits where
  free : Nat
  waiting : List Nat
  exclusive : free = 0 ∨ waiting = []

namespace Permits

def enter (permits : Permits) (request : Nat) : Permits × Option Nat :=
  match free : permits.free with
  | 0 => ({ free := 0, waiting := permits.waiting ++ [request], exclusive := .inl rfl }, none)
  | left + 1 =>
      ({ free := left
         waiting := permits.waiting
         exclusive := .inr (permits.exclusive.resolve_left (by omega)) }, some request)

def leave (permits : Permits) : Permits × Option Nat :=
  match waiting : permits.waiting with
  | [] => ({ free := permits.free + 1, waiting := [], exclusive := .inr rfl }, none)
  | next :: rest =>
      ({ free := permits.free
         waiting := rest
         exclusive := .inl (permits.exclusive.resolve_right (by simp [waiting])) }, some next)

theorem enter_cases (permits : Permits) (request : Nat) :
    (permits.free = 0 ∧ (permits.enter request).2 = none ∧ (permits.enter request).1.free = 0 ∧
      (permits.enter request).1.waiting = permits.waiting ++ [request]) ∨
    (permits.waiting = [] ∧ (permits.enter request).2 = some request ∧
      (permits.enter request).1.free + 1 = permits.free ∧
      (permits.enter request).1.waiting = []) := by
  unfold enter
  split
  · rename_i none_
    exact .inl ⟨none_, rfl, rfl, rfl⟩
  · rename_i left some_
    have empty : permits.waiting = [] := permits.exclusive.resolve_left (by omega)
    exact .inr ⟨empty, rfl, some_.symm, empty⟩

theorem leave_cases (permits : Permits) :
    (permits.waiting = [] ∧ permits.leave.2 = none ∧
      permits.leave.1.free = permits.free + 1 ∧ permits.leave.1.waiting = []) ∨
    (∃ next rest, permits.waiting = next :: rest ∧ permits.leave.2 = some next ∧
      permits.leave.1.free = permits.free ∧ permits.leave.1.waiting = rest) := by
  unfold leave
  split
  · rename_i empty
    exact .inl ⟨empty, rfl, rfl, rfl⟩
  · rename_i next rest some_
    exact .inr ⟨next, rest, some_, rfl, rfl, rfl⟩

end Permits

/-! ### Locks and their clients -/

structure Lock (L : Type) where
  enter : L → Nat → L × Option Nat
  leave : L → L × Option Nat

/-- Who calls the release function: whoever it was given to, as often as they like,
or the lock itself when the body it was given is done. -/
inductive Kind where
  | handed
  | scoped
  deriving DecidableEq, Repr

/-- A lock among its clients, who are named by the order of their requests.  A grant
reaches its client later than it is made. -/
structure World (L : Type) where
  lock : L
  requests : List Kind
  granted : List Nat
  resumed : List Nat
  released : List Nat
  outcomes : List (Nat × Bool)

inductive Action where
  | request (kind : Kind)
  | resume (client : Nat)
  | release (client : Nat)
  | finish (client : Nat) (threw : Bool)
  deriving DecidableEq, Repr

namespace World

variable {L : Type}

def start (lock : L) : World L :=
  { lock := lock, requests := [], granted := [], resumed := [], released := [], outcomes := [] }

def leave (lock : Lock L) (world : World L) (client : Nat) : World L :=
  { world with
    lock := (lock.leave world.lock).1
    granted := world.granted ++ (lock.leave world.lock).2.toList
    released := client :: world.released }

/-- `none` where the action is not open to its client. -/
def step (lock : Lock L) (world : World L) : Action → Option (World L)
  | .request kind =>
      some { world with
        lock := (lock.enter world.lock world.requests.length).1
        requests := world.requests ++ [kind]
        granted := world.granted ++ (lock.enter world.lock world.requests.length).2.toList }
  | .resume client =>
      if client ∈ world.granted ∧ client ∉ world.resumed then
        some { world with resumed := client :: world.resumed }
      else none
  | .release client =>
      if client ∈ world.resumed ∧ world.requests[client]? = some .handed then
        some (world.leave lock client)
      else none
  | .finish client threw =>
      if client ∈ world.resumed ∧ world.requests[client]? = some .scoped ∧
          client ∉ world.released then
        some { world.leave lock client with outcomes := (client, threw) :: world.outcomes }
      else none

def run (lock : Lock L) (world : World L) : List Action → Option (World L)
  | [] => some world
  | action :: rest => (world.step lock action).bind (fun next => next.run lock rest)

def holders (world : World L) : List Nat :=
  world.granted.filter (fun client => client ∉ world.released)

end World

inductive Reached {L : Type} (lock : Lock L) (allowed : World L → Action → Prop)
    (first : World L) : World L → Prop
  | start : Reached lock allowed first first
  | step {world next : World L} {action : Action} (reached : Reached lock allowed first world)
      (careful : allowed world action) (stepped : world.step lock action = some next) :
      Reached lock allowed first next

theorem Reached.perform {L : Type} {lock : Lock L} {allowed : World L → Action → Prop}
    {first world next : World L} (reached : Reached lock allowed first world) (action : Action)
    (careful : allowed world action) (stepped : world.step lock action = some next) :
    Reached lock allowed first next :=
  reached.step careful stepped

theorem Reached.run {L : Type} {lock : Lock L} {first world last : World L}
    {actions : List Action} (reached : Reached lock (fun _ _ => True) first world)
    (ran : world.run lock actions = some last) : Reached lock (fun _ _ => True) first last := by
  induction actions generalizing world with
  | nil =>
      cases ran
      exact reached
  | cons action rest ih =>
      obtain ⟨next, stepped, ran⟩ := Option.bind_eq_some_iff.mp ran
      exact ih (reached.perform action trivial stepped) ran

def Careful {L : Type} (idle : L → Prop) (world : World L) : Action → Prop
  | .release client => client ∈ world.released → idle world.lock
  | _ => True

/-! ### What the clients keep to -/

structure Implements {L : Type} (lock : Lock L) (total : Nat) (idle : L → Prop)
    (stands : L → Permits → Prop) : Prop where
  enter : ∀ {state permits} (request : Nat), stands state permits →
    stands (lock.enter state request).1 (permits.enter request).1 ∧
      (lock.enter state request).2 = (permits.enter request).2
  leave : ∀ {state permits}, stands state permits → permits.free < total →
    stands (lock.leave state).1 permits.leave.1 ∧ (lock.leave state).2 = permits.leave.2
  idle : ∀ {state permits}, stands state permits → idle state → lock.leave state = (state, none)

structure Accounted {L : Type} (total : Nat) (permits : Permits) (world : World L) : Prop where
  count : world.holders.length + permits.free = total
  order : world.granted ++ permits.waiting = List.range world.requests.length
  resumed : ∀ client ∈ world.resumed, client ∈ world.granted
  released : ∀ client ∈ world.released, client ∈ world.granted

section

variable {L : Type} {total : Nat} {permits : Permits} {world : World L}

theorem Accounted.nodup (accounted : Accounted total permits world) : world.granted.Nodup := by
  have whole := List.nodup_range (n := world.requests.length)
  rw [← accounted.order] at whole
  exact whole.of_append_left

theorem start_accounted (lock : L) (total : Nat) :
    Accounted total { free := total, waiting := [], exclusive := .inr rfl }
      (World.start lock) where
  count := Nat.zero_add total
  order := rfl
  resumed := nofun
  released := nofun

theorem filter_release {granted released : List Nat} {client : Nat} (nodup : granted.Nodup)
    (member : client ∈ granted) (first : client ∉ released) :
    (granted.filter (fun other => other ∉ client :: released)).length + 1 =
      (granted.filter (fun other => other ∉ released)).length := by
  induction granted with
  | nil => cases member
  | cons other granted ih =>
      obtain ⟨fresh, nodup⟩ := List.nodup_cons.mp nodup
      by_cases same : other = client
      · subst same
        have rest : granted.filter (fun each => each ∉ other :: released) =
            granted.filter (fun each => each ∉ released) := by
          apply List.filter_congr
          intro each inside
          have different : each ≠ other := fun equal => fresh (equal ▸ inside)
          simp [different]
        rw [List.filter_cons_of_neg (by simp), List.filter_cons_of_pos (by simpa using first),
          rest, List.length_cons]
      · have inside : client ∈ granted :=
          (List.mem_cons.mp member).resolve_left (fun equal => same equal.symm)
        have shorter := ih nodup inside
        by_cases done : other ∈ released
        · rw [List.filter_cons_of_neg (by simp [done]), List.filter_cons_of_neg (by simp [done])]
          exact shorter
        · rw [List.filter_cons_of_pos (by simp [done, same]),
            List.filter_cons_of_pos (by simp [done]), List.length_cons, List.length_cons, shorter]

theorem filter_grant {granted released : List Nat} {client : Nat} (fresh : client ∉ released) :
    ((granted ++ [client]).filter (fun other => other ∉ released)).length =
      (granted.filter (fun other => other ∉ released)).length + 1 := by
  rw [List.filter_append, List.filter_cons_of_pos (by simpa using fresh), List.filter_nil,
    List.length_append, List.length_singleton]

theorem Accounted.waiting_fresh (accounted : Accounted total permits world) {client : Nat}
    (waits : client ∈ permits.waiting) : client ∉ world.granted := by
  have whole := List.nodup_range (n := world.requests.length)
  rw [← accounted.order] at whole
  exact fun granted => (List.nodup_append.mp whole).2.2 client granted client waits rfl

theorem Accounted.request (accounted : Accounted total permits world) (kind : Kind)
    {state : L} {answer : Option Nat}
    (same : answer = (permits.enter world.requests.length).2) :
    Accounted total (permits.enter world.requests.length).1
      { world with
        lock := state
        requests := world.requests ++ [kind]
        granted := world.granted ++ answer.toList } := by
  have order := accounted.order
  have next : List.range (world.requests ++ [kind]).length =
      List.range world.requests.length ++ [world.requests.length] := by
    rw [List.length_append, List.length_singleton, List.range_succ]
  obtain ⟨free, none_, stays, waiting⟩ | ⟨empty, some_, left, waiting⟩ :=
    permits.enter_cases world.requests.length
  · rw [none_] at same
    subst same
    have granted : world.granted ++ (none : Option Nat).toList = world.granted :=
      List.append_nil _
    constructor
    · have count := accounted.count
      simp only [World.holders, granted] at count ⊢
      omega
    · simp only [granted, waiting, next, ← List.append_assoc, order]
    · simpa only [granted] using accounted.resumed
    · simpa only [granted] using accounted.released
  · rw [some_] at same
    subst same
    have all : world.granted = List.range world.requests.length := by
      rw [empty, List.append_nil] at order
      exact order
    have fresh : world.requests.length ∉ world.released := by
      intro done
      have inside := accounted.released _ done
      rw [all, List.mem_range] at inside
      exact Nat.lt_irrefl _ inside
    constructor
    · have count := accounted.count
      have grown := @filter_grant world.granted _ _ fresh
      simp only [World.holders, Option.toList_some] at count ⊢
      omega
    · simp only [Option.toList_some, waiting, List.append_nil, next, all]
    · exact fun client done => List.mem_append_left _ (accounted.resumed client done)
    · exact fun client done => List.mem_append_left _ (accounted.released client done)

theorem Accounted.leave (accounted : Accounted total permits world) {client : Nat}
    (holds : client ∈ world.granted) (first : client ∉ world.released) {state : L}
    {answer : Option Nat} (same : answer = permits.leave.2) :
    Accounted total permits.leave.1
      { world with
        lock := state
        granted := world.granted ++ answer.toList
        released := client :: world.released } := by
  have order := accounted.order
  have count := accounted.count
  have shorter := filter_release accounted.nodup holds first
  have stillGranted : ∀ other ∈ client :: world.released, other ∈ world.granted := by
    intro other done
    cases List.mem_cons.mp done with
    | inl equal => exact equal ▸ holds
    | inr before => exact accounted.released other before
  obtain ⟨empty, none_, free, waiting⟩ | ⟨next, rest, some_, handed, free, waiting⟩ :=
    permits.leave_cases
  · rw [none_] at same
    subst same
    have granted : world.granted ++ (none : Option Nat).toList = world.granted :=
      List.append_nil _
    constructor
    · simp only [World.holders, granted] at count ⊢
      omega
    · simp only [granted, waiting]
      rw [empty] at order
      exact order
    · simpa only [granted] using accounted.resumed
    · simpa only [granted] using stillGranted
  · rw [handed] at same
    subst same
    have waits : next ∈ permits.waiting := some_ ▸ List.mem_cons_self
    have fresh : next ∉ client :: world.released :=
      fun done => accounted.waiting_fresh waits (stillGranted next done)
    constructor
    · have grown := @filter_grant world.granted _ _ fresh
      simp only [World.holders, Option.toList_some] at count ⊢
      omega
    · simp only [Option.toList_some, waiting, List.append_assoc, List.singleton_append]
      rw [some_] at order
      exact order
    · exact fun other done => List.mem_append_left _ (accounted.resumed other done)
    · exact fun other done => List.mem_append_left _ (stillGranted other done)

theorem Accounted.again (accounted : Accounted total permits world) {client : Nat}
    (used : client ∈ world.released) :
    Accounted total permits { world with released := client :: world.released } := by
  have same : ∀ other, other ∈ client :: world.released ↔ other ∈ world.released :=
    fun other => ⟨fun done => (List.mem_cons.mp done).elim (fun equal => equal ▸ used) id,
      List.mem_cons_of_mem _⟩
  constructor
  · have count := accounted.count
    simp only [World.holders, same] at count ⊢
    exact count
  · exact accounted.order
  · exact accounted.resumed
  · exact fun other done => accounted.released other ((same other).mp done)

theorem Accounted.resume (accounted : Accounted total permits world) {client : Nat}
    (holds : client ∈ world.granted) :
    Accounted total permits { world with resumed := client :: world.resumed } where
  count := accounted.count
  order := accounted.order
  resumed := by
    intro other done
    cases List.mem_cons.mp done with
    | inl equal => exact equal ▸ holds
    | inr before => exact accounted.resumed other before
  released := accounted.released

theorem Accounted.outcomes (accounted : Accounted total permits world)
    (outcomes : List (Nat × Bool)) :
    Accounted total permits { world with outcomes := outcomes } where
  count := accounted.count
  order := accounted.order
  resumed := accounted.resumed
  released := accounted.released

end

/-! ### Every run -/

section

variable {L : Type} {lock : Lock L} {total : Nat} {idle : L → Prop}
  {stands : L → Permits → Prop} {world next : World L} {permits : Permits}

theorem leave_accounted (implements : Implements lock total idle stands)
    (state : stands world.lock permits) (accounted : Accounted total permits world)
    {client : Nat} (holds : client ∈ world.granted)
    (careful : client ∈ world.released → idle world.lock) :
    ∃ after, stands (world.leave lock client).lock after ∧
      Accounted total after (world.leave lock client) := by
  by_cases used : client ∈ world.released
  · have nothing := implements.idle state (careful used)
    refine ⟨permits, ?_, ?_⟩
    · unfold World.leave
      rw [nothing]
      exact state
    · have again := accounted.again used
      unfold World.leave
      rw [nothing]
      simpa only [Option.toList_none, List.append_nil] using again
  · have holding : client ∈ world.holders := List.mem_filter.mpr ⟨holds, by simpa using used⟩
    have less : permits.free < total := by
      have count := accounted.count
      have positive := List.length_pos_of_mem holding
      omega
    obtain ⟨after, same⟩ := implements.leave state less
    exact ⟨permits.leave.1, after, accounted.leave holds used same⟩

theorem step_accounted (implements : Implements lock total idle stands)
    (state : stands world.lock permits) (accounted : Accounted total permits world)
    {action : Action} (careful : Careful idle world action)
    (stepped : world.step lock action = some next) :
    ∃ after, stands next.lock after ∧ Accounted total after next := by
  cases action with
  | request kind =>
      cases stepped
      obtain ⟨after, same⟩ := implements.enter world.requests.length state
      exact ⟨_, after, accounted.request kind same⟩
  | resume client =>
      simp only [World.step] at stepped
      split at stepped
      · rename_i open_
        cases stepped
        exact ⟨permits, state, accounted.resume open_.1⟩
      · cases stepped
  | release client =>
      simp only [World.step] at stepped
      split at stepped
      · rename_i open_
        cases stepped
        exact leave_accounted implements state accounted (accounted.resumed client open_.1) careful
      · cases stepped
  | finish client threw =>
      simp only [World.step] at stepped
      split at stepped
      · rename_i open_
        obtain ⟨resumed, _, first⟩ := open_
        cases stepped
        obtain ⟨after, stood, kept⟩ := leave_accounted implements state accounted
          (accounted.resumed client resumed) (fun used => absurd used first)
        exact ⟨after, stood, kept.outcomes _⟩
      · cases stepped

theorem reached_accounted (implements : Implements lock total idle stands) {fresh : L}
    (start : stands fresh { free := total, waiting := [], exclusive := .inr rfl })
    (reached : Reached lock (Careful idle) (World.start fresh) world) :
    ∃ permits, stands world.lock permits ∧ Accounted total permits world := by
  induction reached with
  | start => exact ⟨_, start, start_accounted fresh total⟩
  | step _ careful stepped ih =>
      obtain ⟨permits, state, accounted⟩ := ih
      exact step_accounted implements state accounted careful stepped

end

/-! ### What follows -/

section

variable {L : Type} {total : Nat} {permits : Permits} {world : World L}

theorem Accounted.bounded (accounted : Accounted total permits world) :
    world.holders.length ≤ total := by
  have count := accounted.count
  omega

theorem Accounted.inOrder (accounted : Accounted total permits world) :
    world.granted <+: List.range world.requests.length :=
  ⟨permits.waiting, accounted.order⟩

theorem Accounted.nobodyWaits (accounted : Accounted total permits world) (some_ : 0 < total)
    (nobody : world.holders = []) {client : Nat} (asked : client < world.requests.length) :
    client ∈ world.granted := by
  have count := accounted.count
  have order := accounted.order
  rw [nobody, List.length_nil] at count
  have empty : permits.waiting = [] := permits.exclusive.resolve_left (by omega)
  rw [empty, List.append_nil] at order
  rw [order]
  exact List.mem_range.mpr asked

end

end CScript.PermitQueue
