/-
The channel of std:sync.

A value goes straight to a waiting receiver, into the queue, or waits with its sender;
the three queues exclude one another.  The calls of `send` and `receive` are numbered,
and a promise is named by the call it answers.
-/

import Mathlib.Data.List.Infix

namespace CScript.Sync

/-! ### The class -/

/-- What a receiver is given: `{ value, done: false }` or `{ value: undefined, done: true }`. -/
inductive Answer (α : Type) where
  | item (value : α)
  | done
  deriving DecidableEq, Repr

inductive Settlement (α : Type) where
  | answer (receive : Nat) (answer : Answer α)
  | accept (send : Nat)
  | refuse (send : Nat) (message : String)
  deriving DecidableEq, Repr

structure Channel (α : Type) where
  capacity : Nat
  queue : List α
  receivers : List Nat
  senders : List (α × Nat)
  closed : Bool
  deriving DecidableEq, Repr

namespace Channel

variable {α : Type}

def new (capacity : Nat) : Channel α :=
  { capacity := capacity, queue := [], receivers := [], senders := [], closed := false }

def send (channel : Channel α) (value : α) (call : Nat) :
    Except String (Channel α × List (Settlement α)) :=
  if channel.closed then .error "send on a closed Channel"
  else
    match channel.receivers with
    | receiver :: rest =>
        .ok ({ channel with receivers := rest }, [.answer receiver (.item value), .accept call])
    | [] =>
        if channel.capacity = 0 ∨ channel.queue.length < channel.capacity then
          .ok ({ channel with queue := channel.queue ++ [value] }, [.accept call])
        else .ok ({ channel with senders := channel.senders ++ [(value, call)] }, [])

def receive (channel : Channel α) (call : Nat) : Channel α × List (Settlement α) :=
  match channel.queue with
  | value :: rest =>
      match channel.senders with
      | sender :: others =>
          ({ channel with queue := rest ++ [sender.1], senders := others },
            [.accept sender.2, .answer call (.item value)])
      | [] => ({ channel with queue := rest }, [.answer call (.item value)])
  | [] =>
      if channel.closed then (channel, [.answer call .done])
      else ({ channel with receivers := channel.receivers ++ [call] }, [])

def close (channel : Channel α) : Channel α × List (Settlement α) :=
  if channel.closed then (channel, [])
  else
    ({ channel with closed := true, receivers := [], senders := [] },
      channel.receivers.map (fun receiver => .answer receiver .done) ++
        channel.senders.map (fun sender =>
          .refuse sender.2 "the Channel was closed before this send"))

section

variable {channel : Channel α}

theorem send_closed (closed : channel.closed = true) (value : α) (call : Nat) :
    channel.send value call = .error "send on a closed Channel" :=
  if_pos closed

theorem send_handsOff (opened : channel.closed = false) {receiver : Nat} {rest : List Nat}
    (waiting : channel.receivers = receiver :: rest) (value : α) (call : Nat) :
    channel.send value call = .ok
      ({ channel with receivers := rest }, [.answer receiver (.item value), .accept call]) := by
  unfold send
  rw [if_neg (by simp [opened]), waiting]

theorem send_queues (opened : channel.closed = false) (nobody : channel.receivers = [])
    (room : channel.capacity = 0 ∨ channel.queue.length < channel.capacity) (value : α)
    (call : Nat) :
    channel.send value call =
      .ok ({ channel with queue := channel.queue ++ [value] }, [.accept call]) := by
  unfold send
  rw [if_neg (by simp [opened])]
  split
  · rename_i some_
    rw [nobody] at some_
    cases some_
  · exact if_pos room

theorem send_waits (opened : channel.closed = false) (nobody : channel.receivers = [])
    (full : ¬(channel.capacity = 0 ∨ channel.queue.length < channel.capacity)) (value : α)
    (call : Nat) :
    channel.send value call =
      .ok ({ channel with senders := channel.senders ++ [(value, call)] }, []) := by
  unfold send
  rw [if_neg (by simp [opened])]
  split
  · rename_i some_
    rw [nobody] at some_
    cases some_
  · exact if_neg full

theorem receive_refills {value : α} {rest : List α} (queued : channel.queue = value :: rest)
    {sender : α × Nat} {others : List (α × Nat)} (waiting : channel.senders = sender :: others)
    (call : Nat) :
    channel.receive call =
      ({ channel with queue := rest ++ [sender.1], senders := others },
        [.accept sender.2, .answer call (.item value)]) := by
  simp only [receive, queued, waiting]

theorem receive_dequeues {value : α} {rest : List α} (queued : channel.queue = value :: rest)
    (nobody : channel.senders = []) (call : Nat) :
    channel.receive call =
      ({ channel with queue := rest }, [.answer call (.item value)]) := by
  simp only [receive, queued, nobody]

theorem receive_ends (empty : channel.queue = []) (closed : channel.closed = true)
    (call : Nat) : channel.receive call = (channel, [.answer call .done]) := by
  simp only [receive, empty, closed, if_true]

theorem receive_joins (empty : channel.queue = []) (opened : channel.closed = false)
    (call : Nat) :
    channel.receive call =
      ({ channel with receivers := channel.receivers ++ [call] }, []) := by
  unfold receive
  split
  · rename_i some_
    rw [empty] at some_
    cases some_
  · exact if_neg (by simp [opened])

end

end Channel

/-! ### Its callers -/

inductive Sending where
  | pending
  | fulfilled
  | rejected (message : String)
  | thrown (message : String)
  deriving DecidableEq, Repr

/-- A call of `drain`: the receive it waits for, and what it has so far. -/
structure Drain (α : Type) where
  awaiting : Nat
  out : List α
  finished : Bool
  deriving DecidableEq, Repr

structure Traffic (α : Type) where
  channel : Channel α
  sends : List (α × Sending)
  receives : List (Option (Answer α))
  drains : List (Drain α)
  deriving DecidableEq, Repr

/-- What the callers do; a `drain` goes on when the receive it waits for is settled. -/
inductive Call (α : Type) where
  | send (value : α)
  | receive
  | close
  | drain
  | resume (drain : Nat)
  deriving DecidableEq, Repr

namespace Traffic

variable {α : Type}

def start (capacity : Nat) : Traffic α :=
  { channel := .new capacity, sends := [], receives := [], drains := [] }

def settleSend (state : Sending) (send : α × Sending) : α × Sending :=
  match send.2 with
  | .pending => (send.1, state)
  | _ => send

def settle (traffic : Traffic α) : Settlement α → Traffic α
  | .answer receive answer =>
      { traffic with receives := traffic.receives.modify receive (fun given => given.or answer) }
  | .accept send => { traffic with sends := traffic.sends.modify send (settleSend .fulfilled) }
  | .refuse send message =>
      { traffic with sends := traffic.sends.modify send (settleSend (.rejected message)) }

def settleAll (traffic : Traffic α) (settlements : List (Settlement α)) : Traffic α :=
  settlements.foldl settle traffic

def send (traffic : Traffic α) (value : α) : Traffic α :=
  match traffic.channel.send value traffic.sends.length with
  | .error message => { traffic with sends := traffic.sends ++ [(value, .thrown message)] }
  | .ok (channel, settlements) =>
      settleAll { traffic with
        channel := channel
        sends := traffic.sends ++ [(value, .pending)] } settlements

def receive (traffic : Traffic α) : Traffic α :=
  let (channel, settlements) := traffic.channel.receive traffic.receives.length
  settleAll { traffic with
    channel := channel
    receives := traffic.receives ++ [none] } settlements

def close (traffic : Traffic α) : Traffic α :=
  let (channel, settlements) := traffic.channel.close
  settleAll { traffic with channel := channel } settlements

/-- The loop of `drain`, from one `await` to the next. -/
def resume (traffic : Traffic α) (index : Nat) (drain : Drain α) : Traffic α :=
  match traffic.receives[drain.awaiting]? with
  | some (some .done) =>
      { traffic with drains := traffic.drains.set index { drain with finished := true } }
  | some (some (.item value)) =>
      { traffic.receive with
        drains := traffic.drains.set index
          { drain with awaiting := traffic.receives.length, out := drain.out ++ [value] } }
  | _ => traffic

def step (traffic : Traffic α) : Call α → Traffic α
  | .send value => traffic.send value
  | .receive => traffic.receive
  | .close => traffic.close
  | .drain =>
      { traffic.receive with
        drains := traffic.drains ++
          [{ awaiting := traffic.receives.length, out := [], finished := false }] }
  | .resume index =>
      match traffic.drains[index]? with
      | some drain => if drain.finished then traffic else traffic.resume index drain
      | none => traffic

def run (traffic : Traffic α) (calls : List (Call α)) : Traffic α :=
  calls.foldl step traffic

def accepted (traffic : Traffic α) : List α :=
  (traffic.sends.filter (fun send => send.2 matches .fulfilled)).map Prod.fst

def valueOf : Option (Answer α) → Option α
  | some (.item value) => some value
  | _ => none

def received (traffic : Traffic α) : List α :=
  traffic.receives.filterMap valueOf

def SendWaits (traffic : Traffic α) : Prop :=
  ∃ send ∈ traffic.sends, send.2 = .pending

def ReceiveWaits (traffic : Traffic α) : Prop :=
  none ∈ traffic.receives

end Traffic

def drainedAnswers {α : Type} : List α → Nat → List (Answer α)
  | _, 0 => []
  | value :: rest, calls + 1 => .item value :: drainedAnswers rest calls
  | [], calls + 1 => .done :: drainedAnswers [] calls

structure Delivers {α : Type} (capacity : Nat) (traffic : Traffic α) : Prop where
  inOrder : traffic.received <+: traffic.accepted
  conserved : traffic.accepted = traffic.received ++ traffic.channel.queue
  bounded : 0 < capacity → traffic.channel.queue.length ≤ capacity
  nobodyWaits : traffic.ReceiveWaits → traffic.channel.queue = [] ∧ ¬traffic.SendWaits
  settled : traffic.channel.closed = true → ¬traffic.ReceiveWaits ∧ ¬traffic.SendWaits
  drained : traffic.channel.closed = true → ∀ later : List (Call α), ∃ calls,
    (traffic.run later).receives =
      traffic.receives ++ (drainedAnswers traffic.channel.queue calls).map some

/-! ### Where the values are -/

/-- The sends: accepted, waiting, and lost.  The receives: answered with a value,
waiting, and answered with the end. -/
structure Flows {α : Type} (capacity : Nat) (channel : Channel α) (sends : List (α × Sending))
    (receives : List (Option (Answer α))) (received : List α) (ended : Nat)
    (lost : List (α × Sending)) : Prop where
  sent : sends = (received ++ channel.queue).map (fun value => (value, .fulfilled)) ++
    channel.senders.map (fun sender => (sender.1, .pending)) ++ lost
  senders : channel.senders.map Prod.snd =
    List.range' (received.length + channel.queue.length) channel.senders.length
  answered : receives = received.map (fun value => some (.item value)) ++
    List.replicate channel.receivers.length none ++ List.replicate ended (some .done)
  receivers : channel.receivers = List.range' received.length channel.receivers.length
  gone : ∀ send ∈ lost, send.2 ≠ .pending ∧ send.2 ≠ .fulfilled
  opened : channel.closed = false → lost = [] ∧ ended = 0
  closed : channel.closed = true → channel.receivers = [] ∧ channel.senders = []
  drained : ended ≠ 0 → channel.queue = []
  waits : channel.receivers ≠ [] → channel.queue = []
  full : channel.senders ≠ [] → 0 < capacity ∧ channel.queue.length = capacity
  bounded : 0 < capacity → channel.queue.length ≤ capacity
  limit : channel.capacity = capacity

theorem modify_middle {β : Type} (front back : List β) (item : β) (change : β → β)
    {place : Nat} (here : place = front.length) :
    (front ++ item :: back).modify place change = front ++ change item :: back := by
  subst here
  induction front with
  | nil => rfl
  | cons head tail ih =>
      rw [List.cons_append, List.length_cons, List.modify_succ_cons, ih, List.cons_append]

section

variable {α : Type} {capacity : Nat} {channel : Channel α} {sends : List (α × Sending)}
  {receives : List (Option (Answer α))} {received : List α} {ended : Nat}
  {lost : List (α × Sending)}

theorem Flows.start (capacity : Nat) :
    Flows (α := α) capacity (.new capacity) [] [] [] 0 [] where
  sent := rfl
  senders := rfl
  answered := rfl
  receivers := rfl
  gone := nofun
  opened := fun _ => ⟨rfl, rfl⟩
  closed := nofun
  drained := fun some_ => absurd rfl some_
  waits := fun some_ => absurd rfl some_
  full := fun some_ => absurd rfl some_
  bounded := fun _ => Nat.zero_le _
  limit := rfl

theorem Flows.receives_length
    (flows : Flows capacity channel sends receives received ended lost) :
    receives.length = received.length + channel.receivers.length + ended := by
  rw [flows.answered]
  simp only [List.length_append, List.length_map, List.length_replicate]

theorem Flows.sends_length
    (flows : Flows capacity channel sends receives received ended lost) :
    sends.length =
      received.length + channel.queue.length + channel.senders.length + lost.length := by
  rw [flows.sent]
  simp only [List.length_append, List.length_map]

theorem Flows.noSenders (flows : Flows capacity channel sends receives received ended lost)
    (empty : channel.queue = []) : channel.senders = [] := by
  by_contra some_
  obtain ⟨positive, length⟩ := flows.full some_
  rw [empty, List.length_nil] at length
  omega

/-! ### Sending -/

theorem Flows.thrown (flows : Flows capacity channel sends receives received ended lost)
    (closed : channel.closed = true) (value : α) (message : String) :
    Flows capacity channel (sends ++ [(value, .thrown message)]) receives received ended
      (lost ++ [(value, .thrown message)]) := by
  refine { flows with sent := ?_, gone := ?_, opened := ?_ }
  · rw [flows.sent, List.append_assoc]
  · intro send member
    cases List.mem_append.mp member with
    | inl before => exact flows.gone send before
    | inr last =>
        rw [List.mem_singleton.mp last]
        exact ⟨nofun, nofun⟩
  · intro open_
    rw [closed] at open_
    cases open_

theorem Flows.handOff (flows : Flows capacity channel sends receives received ended lost)
    (open_ : channel.closed = false) {receiver : Nat} {rest : List Nat}
    (waiting : channel.receivers = receiver :: rest) (value : α) :
    Flows capacity { channel with receivers := rest }
      ((sends ++ [(value, Sending.pending)]).modify sends.length (Traffic.settleSend .fulfilled))
      (receives.modify receiver (fun given => given.or (some (.item value))))
      (received ++ [value]) ended lost := by
  obtain ⟨noneLost, noneEnded⟩ := flows.opened open_
  have empty : channel.queue = [] := flows.waits (by rw [waiting]; nofun)
  have noSenders := flows.noSenders empty
  have place := flows.receivers
  rw [waiting, List.length_cons, List.range'_succ] at place
  obtain ⟨first, others⟩ := List.cons.inj place
  have sent := flows.sent
  have answered := flows.answered
  subst noneLost noneEnded
  rw [empty, noSenders] at sent
  rw [waiting, List.length_cons, List.replicate_succ] at answered
  simp only [List.append_nil, List.map_nil, List.replicate_zero] at sent answered
  constructor
  · rw [modify_middle sends [] _ _ rfl, sent]
    simp [empty, noSenders, Traffic.settleSend]
  · simp [noSenders]
  · rw [answered, modify_middle _ _ _ _ (by rw [first, List.length_map])]
    simp
  · rw [List.length_append, List.length_singleton]
    exact others
  · nofun
  · exact fun _ => ⟨rfl, rfl⟩
  · intro closed
    rw [open_] at closed
    cases closed
  · exact fun some_ => absurd rfl some_
  · exact fun _ => empty
  · exact fun some_ => absurd noSenders some_
  · exact flows.bounded
  · exact flows.limit

theorem Flows.enqueue (flows : Flows capacity channel sends receives received ended lost)
    (open_ : channel.closed = false) (nobody : channel.receivers = [])
    (room : channel.capacity = 0 ∨ channel.queue.length < channel.capacity) (value : α) :
    Flows capacity { channel with queue := channel.queue ++ [value] }
      ((sends ++ [(value, Sending.pending)]).modify sends.length (Traffic.settleSend .fulfilled))
      receives received ended lost := by
  obtain ⟨noneLost, noneEnded⟩ := flows.opened open_
  have limit := flows.limit
  have noSenders : channel.senders = [] := by
    by_contra some_
    have full := flows.full some_
    omega
  have sent := flows.sent
  subst noneLost noneEnded
  refine { flows with
    sent := ?_, senders := ?_, drained := ?_, waits := ?_, full := ?_, bounded := ?_ }
  · rw [modify_middle sends [] _ _ rfl, sent]
    simp [noSenders, Traffic.settleSend]
  · simp [noSenders]
  · exact fun some_ => absurd rfl some_
  · exact fun some_ => absurd nobody some_
  · exact fun some_ => absurd noSenders some_
  · intro positive
    rw [List.length_append, List.length_singleton]
    omega

theorem Flows.wait (flows : Flows capacity channel sends receives received ended lost)
    (open_ : channel.closed = false)
    (full : ¬(channel.capacity = 0 ∨ channel.queue.length < channel.capacity)) (value : α) :
    Flows capacity { channel with senders := channel.senders ++ [(value, sends.length)] }
      (sends ++ [(value, .pending)]) receives received ended lost := by
  obtain ⟨noneLost, noneEnded⟩ := flows.opened open_
  have limit := flows.limit
  have length := flows.sends_length
  subst noneLost noneEnded
  refine { flows with sent := ?_, senders := ?_, closed := ?_, full := ?_ }
  · rw [flows.sent]
    simp
  · rw [List.map_append, flows.senders, List.length_append, List.length_singleton,
      List.range'_1_concat]
    simp only [List.map_cons, List.map_nil]
    rw [length, List.length_nil, Nat.add_zero]
  · intro closed
    rw [open_] at closed
    cases closed
  · intro _
    have bounded := flows.bounded
    constructor
    · omega
    · have positive : 0 < capacity := by omega
      have most := bounded positive
      show channel.queue.length = capacity
      omega

/-! ### Receiving -/

theorem Flows.noReceivers (flows : Flows capacity channel sends receives received ended lost)
    {value : α} {rest : List α} (queued : channel.queue = value :: rest) :
    channel.receivers = [] := by
  by_contra some_
  have empty := flows.waits some_
  rw [queued] at empty
  cases empty

theorem Flows.notEnded (flows : Flows capacity channel sends receives received ended lost)
    {value : α} {rest : List α} (queued : channel.queue = value :: rest) : ended = 0 := by
  by_contra some_
  have empty := flows.drained some_
  rw [queued] at empty
  cases empty

theorem Flows.refill (flows : Flows capacity channel sends receives received ended lost)
    {value : α} {rest : List α} (queued : channel.queue = value :: rest) {sender : α × Nat}
    {others : List (α × Nat)} (waiting : channel.senders = sender :: others) :
    Flows capacity { channel with queue := rest ++ [sender.1], senders := others }
      (sends.modify sender.2 (Traffic.settleSend .fulfilled))
      ((receives ++ [none]).modify receives.length (fun given => given.or (some (.item value))))
      (received ++ [value]) ended lost := by
  have noneEnded := flows.notEnded queued
  have nobody := flows.noReceivers queued
  have open_ : channel.closed = false := by
    by_contra closed
    have empty := (flows.closed (by simpa using closed)).2
    rw [waiting] at empty
    cases empty
  have places := flows.senders
  rw [waiting, List.length_cons, List.range'_succ, List.map_cons] at places
  obtain ⟨first, left⟩ := List.cons.inj places
  have sent := flows.sent
  have answered := flows.answered
  have full := flows.full (by rw [waiting]; nofun)
  subst noneEnded
  rw [queued, waiting, List.map_cons] at sent
  rw [nobody] at answered
  simp only [List.length_nil, List.replicate_zero, List.append_nil] at answered
  refine { flows with
    sent := ?_, senders := ?_, answered := ?_, receivers := ?_, closed := ?_, drained := ?_,
    waits := ?_, full := ?_, bounded := ?_ }
  · have here : sender.2 = ((received ++ value :: rest).map
        (fun value => (value, Sending.fulfilled))).length := by
      rw [first, queued, List.length_map, List.length_append]
    rw [sent, List.append_assoc, List.cons_append, modify_middle _ _ _ _ here]
    simp [Traffic.settleSend]
  · rw [queued, List.length_cons] at left
    simp only [List.length_append, List.length_singleton]
    rw [left]
    congr 1
    omega
  · rw [modify_middle receives [] _ _ rfl, answered]
    simp [nobody]
  · simp [nobody]
  · intro closed
    rw [open_] at closed
    cases closed
  · exact fun some_ => absurd rfl some_
  · exact fun some_ => absurd nobody some_
  · intro _
    rw [queued, List.length_cons] at full
    rw [List.length_append, List.length_singleton]
    exact full
  · intro positive
    have bounded := flows.bounded positive
    rw [queued, List.length_cons] at bounded
    rw [List.length_append, List.length_singleton]
    exact bounded

theorem Flows.dequeue (flows : Flows capacity channel sends receives received ended lost)
    {value : α} {rest : List α} (queued : channel.queue = value :: rest)
    (nobody : channel.senders = []) :
    Flows capacity { channel with queue := rest } sends
      ((receives ++ [none]).modify receives.length (fun given => given.or (some (.item value))))
      (received ++ [value]) ended lost := by
  have noneEnded := flows.notEnded queued
  have noReceivers := flows.noReceivers queued
  have sent := flows.sent
  have answered := flows.answered
  subst noneEnded
  rw [noReceivers] at answered
  simp only [List.length_nil, List.replicate_zero, List.append_nil] at answered
  refine { flows with
    sent := ?_, senders := ?_, answered := ?_, receivers := ?_, drained := ?_, waits := ?_,
    full := ?_, bounded := ?_ }
  · rw [sent, queued]
    simp [nobody]
  · simp [nobody]
  · rw [modify_middle receives [] _ _ rfl, answered]
    simp [noReceivers]
  · simp [noReceivers]
  · exact fun some_ => absurd rfl some_
  · exact fun some_ => absurd noReceivers some_
  · exact fun some_ => absurd nobody some_
  · intro positive
    have bounded := flows.bounded positive
    rw [queued, List.length_cons] at bounded
    show rest.length ≤ capacity
    omega

theorem Flows.finish (flows : Flows capacity channel sends receives received ended lost)
    (empty : channel.queue = []) (closed : channel.closed = true) :
    Flows capacity channel sends
      ((receives ++ [none]).modify receives.length (fun given => given.or (some .done)))
      received (ended + 1) lost := by
  have nobody := (flows.closed closed).1
  refine { flows with answered := ?_, opened := ?_, drained := ?_ }
  · rw [modify_middle receives [] _ _ rfl, flows.answered, List.replicate_succ']
    simp
  · intro open_
    rw [closed] at open_
    cases open_
  · exact fun _ => empty

theorem Flows.join (flows : Flows capacity channel sends receives received ended lost)
    (empty : channel.queue = []) (open_ : channel.closed = false) :
    Flows capacity { channel with receivers := channel.receivers ++ [receives.length] }
      sends (receives ++ [none]) received ended lost := by
  obtain ⟨noneLost, noneEnded⟩ := flows.opened open_
  have length := flows.receives_length
  subst noneEnded
  refine { flows with answered := ?_, receivers := ?_, closed := ?_, waits := ?_ }
  · rw [flows.answered]
    simp [List.replicate_succ']
  · simp only [List.length_append, List.length_singleton, List.range'_1_concat]
    rw [← flows.receivers, length, Nat.add_zero]
  · intro closed
    rw [open_] at closed
    cases closed
  · exact fun _ => empty

/-! ### Closing -/

theorem settleAll_ended (count : Nat) {traffic : Traffic α} {front back : List (Option (Answer α))}
    (answered : traffic.receives = front ++ List.replicate count none ++ back) :
    traffic.settleAll ((List.range' front.length count).map (fun call => .answer call .done)) =
      { traffic with receives := front ++ List.replicate count (some .done) ++ back } := by
  induction count generalizing traffic front with
  | zero =>
      simp only [List.replicate_zero, List.append_nil] at answered ⊢
      rw [← answered]
      rfl
  | succ count ih =>
      have settled : (traffic.settle (.answer front.length .done)).receives =
          (front ++ [some .done]) ++ List.replicate count none ++ back := by
        simp only [Traffic.settle]
        rw [answered, List.replicate_succ, List.append_assoc, List.cons_append,
          modify_middle _ _ _ _ rfl]
        simp
      have rest := ih settled
      rw [List.length_append, List.length_singleton] at rest
      rw [List.range'_succ, List.map_cons]
      unfold Traffic.settleAll at rest ⊢
      rw [List.foldl_cons, rest, List.replicate_succ]
      simp [Traffic.settle]

theorem settleAll_refused (message : String) (senders : List (α × Nat)) {traffic : Traffic α}
    {front back : List (α × Sending)}
    (sent : traffic.sends =
      front ++ senders.map (fun sender => (sender.1, Sending.pending)) ++ back)
    (places : senders.map Prod.snd = List.range' front.length senders.length) :
    traffic.settleAll (senders.map (fun sender => .refuse sender.2 message)) =
      { traffic with
        sends := front ++ senders.map (fun sender => (sender.1, .rejected message)) ++ back } := by
  induction senders generalizing traffic front with
  | nil =>
      simp only [List.map_nil, List.append_nil] at sent ⊢
      rw [← sent]
      rfl
  | cons sender senders ih =>
      rw [List.length_cons, List.range'_succ, List.map_cons] at places
      obtain ⟨here, places⟩ := List.cons.inj places
      have settled : (traffic.settle (.refuse sender.2 message)).sends =
          (front ++ [(sender.1, .rejected message)]) ++
            senders.map (fun sender => (sender.1, Sending.pending)) ++ back := by
        simp only [Traffic.settle]
        rw [sent, List.map_cons, List.append_assoc, List.cons_append,
          modify_middle _ _ _ _ here]
        simp [Traffic.settleSend]
      have rest := ih settled (by rw [List.length_append, List.length_singleton]; exact places)
      rw [List.map_cons]
      unfold Traffic.settleAll at rest ⊢
      rw [List.foldl_cons, rest]
      simp [Traffic.settle]

end

/-! ### Every run -/

def Traffic.Sound {α : Type} (capacity : Nat) (traffic : Traffic α) : Prop :=
  ∃ received ended lost,
    Flows capacity traffic.channel traffic.sends traffic.receives received ended lost

section

variable {α : Type} {capacity : Nat} {traffic : Traffic α} {received : List α} {ended : Nat}
  {lost : List (α × Sending)}

theorem send_sound (sound : traffic.Sound capacity) (value : α) :
    (traffic.send value).Sound capacity := by
  obtain ⟨received, ended, lost, flows⟩ := sound
  unfold Traffic.send
  cases closed : traffic.channel.closed with
  | true =>
      rw [Channel.send_closed closed]
      exact ⟨_, _, _, flows.thrown closed value _⟩
  | false =>
      cases waiting : traffic.channel.receivers with
      | cons receiver rest =>
          rw [Channel.send_handsOff closed waiting]
          exact ⟨_, _, _, flows.handOff closed waiting value⟩
      | nil =>
          by_cases room : traffic.channel.capacity = 0 ∨
              traffic.channel.queue.length < traffic.channel.capacity
          · rw [Channel.send_queues closed waiting room]
            exact ⟨_, _, _, flows.enqueue closed waiting room value⟩
          · rw [Channel.send_waits closed waiting room]
            exact ⟨_, _, _, flows.wait closed room value⟩

theorem receive_sound (sound : traffic.Sound capacity) : traffic.receive.Sound capacity := by
  obtain ⟨received, ended, lost, flows⟩ := sound
  unfold Traffic.receive
  cases queued : traffic.channel.queue with
  | cons value rest =>
      cases waiting : traffic.channel.senders with
      | cons sender others =>
          rw [Channel.receive_refills queued waiting]
          exact ⟨_, _, _, flows.refill queued waiting⟩
      | nil =>
          rw [Channel.receive_dequeues queued waiting]
          exact ⟨_, _, _, flows.dequeue queued waiting⟩
  | nil =>
      cases closed : traffic.channel.closed with
      | true =>
          rw [Channel.receive_ends queued closed]
          exact ⟨_, _, _, flows.finish queued closed⟩
      | false =>
          rw [Channel.receive_joins queued closed]
          exact ⟨_, _, _, flows.join queued closed⟩

theorem close_eq (flows : Flows capacity traffic.channel traffic.sends traffic.receives
      received ended lost) (opened : traffic.channel.closed = false) :
    traffic.close =
      { traffic with
        channel := { traffic.channel with closed := true, receivers := [], senders := [] }
        sends :=
          (received ++ traffic.channel.queue).map (fun value => (value, .fulfilled)) ++
            traffic.channel.senders.map (fun sender =>
              (sender.1, .rejected "the Channel was closed before this send"))
        receives := received.map (fun value => some (.item value)) ++
          List.replicate traffic.channel.receivers.length (some .done) } := by
  obtain ⟨noneLost, noneEnded⟩ := flows.opened opened
  have sent := flows.sent
  have answered := flows.answered
  subst noneLost noneEnded
  let shut : Traffic α := { traffic with
    channel := { traffic.channel with closed := true, receivers := [], senders := [] } }
  have waiting : shut.receives = received.map (fun value => some (.item value)) ++
      List.replicate traffic.channel.receivers.length none ++ [] := answered
  have ends := settleAll_ended _ waiting
  rw [List.length_map, ← flows.receivers, List.append_nil] at ends
  let ended : Traffic α := { shut with
    receives := received.map (fun value => some (.item value)) ++
      List.replicate traffic.channel.receivers.length (some .done) }
  have pending : ended.sends = (received ++ traffic.channel.queue).map
      (fun value => (value, Sending.fulfilled)) ++
        traffic.channel.senders.map (fun sender => (sender.1, Sending.pending)) ++ [] := sent
  have refuses := settleAll_refused "the Channel was closed before this send" _ pending
    (by rw [List.length_map, List.length_append]; exact flows.senders)
  rw [List.append_nil] at refuses
  have closes : traffic.close = shut.settleAll
      (traffic.channel.receivers.map (fun receiver => .answer receiver .done) ++
        traffic.channel.senders.map (fun sender =>
          .refuse sender.2 "the Channel was closed before this send")) := by
    unfold Traffic.close Channel.close
    rw [if_neg (by simp [opened])]
  rw [closes]
  unfold Traffic.settleAll at ends refuses ⊢
  rw [List.foldl_append, ends, refuses]

theorem close_closed (closed : traffic.channel.closed = true) : traffic.close = traffic := by
  unfold Traffic.close Channel.close
  rw [if_pos closed]
  rfl

theorem close_sound (sound : traffic.Sound capacity) : traffic.close.Sound capacity := by
  cases closed : traffic.channel.closed with
  | true =>
      rw [close_closed closed]
      exact sound
  | false =>
      obtain ⟨received, ended, lost, flows⟩ := sound
      have waits := flows.waits
      rw [close_eq flows closed]
      refine ⟨received, traffic.channel.receivers.length, traffic.channel.senders.map (fun sender =>
        (sender.1, .rejected "the Channel was closed before this send")), ?_⟩
      constructor
      · simp
      · rfl
      · simp
      · rfl
      · intro send member
        obtain ⟨sender, _, same⟩ := List.mem_map.mp member
        rw [← same]
        exact ⟨nofun, nofun⟩
      · nofun
      · exact fun _ => ⟨rfl, rfl⟩
      · exact fun some_ => waits (by simpa using some_)
      · exact fun some_ => absurd rfl some_
      · exact fun some_ => absurd rfl some_
      · exact flows.bounded
      · exact flows.limit

theorem step_sound (sound : traffic.Sound capacity) (call : Call α) :
    (traffic.step call).Sound capacity := by
  cases call with
  | send value => exact send_sound sound value
  | receive => exact receive_sound sound
  | close => exact close_sound sound
  | drain => exact receive_sound sound
  | resume index =>
      simp only [Traffic.step]
      split
      · split
        · exact sound
        · unfold Traffic.resume
          split
          · exact sound
          · exact receive_sound sound
          · exact sound
      · exact sound

theorem run_sound (sound : traffic.Sound capacity) (calls : List (Call α)) :
    (traffic.run calls).Sound capacity := by
  induction calls generalizing traffic with
  | nil => exact sound
  | cons call calls ih => exact ih (step_sound sound call)

/-! ### After the close -/

structure Settles (traffic next : Traffic α) : Prop where
  closed : next.channel.closed = true
  drains : (next.channel.queue = traffic.channel.queue ∧ next.receives = traffic.receives) ∨
    (∃ value, traffic.channel.queue = value :: next.channel.queue ∧
      next.receives = traffic.receives ++ [some (.item value)]) ∨
    (traffic.channel.queue = [] ∧ next.channel.queue = [] ∧
      next.receives = traffic.receives ++ [some .done])

theorem Settles.refl (closed : traffic.channel.closed = true) : Settles traffic traffic :=
  ⟨closed, .inl ⟨rfl, rfl⟩⟩

theorem receive_settles (sound : traffic.Sound capacity)
    (closed : traffic.channel.closed = true) : Settles traffic traffic.receive := by
  obtain ⟨received, ended, lost, flows⟩ := sound
  have nobody := (flows.closed closed).2
  have answered : ∀ answer : Answer α, (traffic.receives ++ [none]).modify
      traffic.receives.length (fun given => given.or (some answer)) =
        traffic.receives ++ [some answer] :=
    fun answer => modify_middle traffic.receives [] _ _ rfl
  unfold Traffic.receive
  cases queued : traffic.channel.queue with
  | cons value rest =>
      rw [Channel.receive_dequeues queued nobody]
      exact ⟨closed, .inr (.inl ⟨value, queued, answered _⟩)⟩
  | nil =>
      rw [Channel.receive_ends queued closed]
      exact ⟨closed, .inr (.inr ⟨queued, queued, answered _⟩)⟩

theorem step_settles (sound : traffic.Sound capacity) (closed : traffic.channel.closed = true)
    (call : Call α) : Settles traffic (traffic.step call) := by
  have receives := receive_settles sound closed
  cases call with
  | send value =>
      simp only [Traffic.step, Traffic.send, Channel.send_closed closed]
      exact ⟨closed, .inl ⟨rfl, rfl⟩⟩
  | receive => exact receives
  | close =>
      simp only [Traffic.step, close_closed closed]
      exact Settles.refl closed
  | drain => exact ⟨receives.closed, receives.drains⟩
  | resume index =>
      simp only [Traffic.step]
      split
      · split
        · exact Settles.refl closed
        · unfold Traffic.resume
          split
          · exact ⟨closed, .inl ⟨rfl, rfl⟩⟩
          · exact ⟨receives.closed, receives.drains⟩
          · exact Settles.refl closed
      · exact Settles.refl closed

theorem run_settles (sound : traffic.Sound capacity) (closed : traffic.channel.closed = true)
    (later : List (Call α)) :
    ∃ calls, (traffic.run later).receives =
      traffic.receives ++ (drainedAnswers traffic.channel.queue calls).map some := by
  induction later generalizing traffic with
  | nil => exact ⟨0, by simp [Traffic.run, drainedAnswers]⟩
  | cons call later ih =>
      have settles := step_settles sound closed call
      obtain ⟨calls, rest⟩ := ih (step_sound sound call) settles.closed
      have ran : traffic.run (call :: later) = (traffic.step call).run later := rfl
      rw [ran, rest]
      obtain ⟨queue, receives⟩ | ⟨value, queue, receives⟩ | ⟨before, after, receives⟩ :=
        settles.drains
      · exact ⟨calls, by rw [queue, receives]⟩
      · exact ⟨calls + 1, by rw [queue, receives, drainedAnswers]; simp⟩
      · exact ⟨calls + 1, by rw [before, after, receives, drainedAnswers]; simp⟩

/-! ### What a channel promises -/

theorem Flows.received_eq (flows : Flows capacity traffic.channel traffic.sends traffic.receives
    received ended lost) : traffic.received = received := by
  have items : ∀ values : List α,
      (values.map (fun value => some (Answer.item value))).filterMap Traffic.valueOf = values := by
    intro values
    induction values with
    | nil => rfl
    | cons value values ih =>
        have head : Traffic.valueOf (some (Answer.item value)) = some value := rfl
        rw [List.map_cons, List.filterMap_cons_some head, ih]
  have nothing : ∀ (given : Option (Answer α)) (count : Nat), Traffic.valueOf given = none →
      (List.replicate count given).filterMap Traffic.valueOf = [] := by
    intro given count other
    apply List.filterMap_eq_nil_iff.mpr
    intro each member
    rw [List.eq_of_mem_replicate member, other]
  unfold Traffic.received
  rw [flows.answered, List.filterMap_append, List.filterMap_append, items, nothing _ _ rfl,
    nothing _ _ rfl, List.append_nil, List.append_nil]

theorem Flows.accepted_eq (flows : Flows capacity traffic.channel traffic.sends traffic.receives
    received ended lost) : traffic.accepted = received ++ traffic.channel.queue := by
  have all : ∀ values : List α,
      ((values.map (fun value => (value, Sending.fulfilled))).filter
        (fun send => send.2 matches .fulfilled)).map Prod.fst = values := by
    intro values
    induction values with
    | nil => rfl
    | cons value values ih =>
        rw [List.map_cons, List.filter_cons_of_pos rfl, List.map_cons, ih]
  have nothing : ∀ sends : List (α × Sending), (∀ send ∈ sends, send.2 ≠ .fulfilled) →
      sends.filter (fun send => send.2 matches .fulfilled) = [] := by
    intro sends other
    apply List.filter_eq_nil_iff.mpr
    intro send member
    have different := other send member
    split
    · rename_i same
      exact absurd same different
    · nofun
  have senders : ∀ send ∈ traffic.channel.senders.map
      (fun sender => (sender.1, Sending.pending)), send.2 ≠ .fulfilled := by
    intro send member
    obtain ⟨sender, _, same⟩ := List.mem_map.mp member
    rw [← same]
    nofun
  unfold Traffic.accepted
  rw [flows.sent, List.filter_append, List.filter_append, nothing _ senders,
    nothing lost (fun send member => (flows.gone send member).2), List.append_nil,
    List.append_nil, all]

theorem Flows.sendWaits (flows : Flows capacity traffic.channel traffic.sends traffic.receives
    received ended lost) (waits : traffic.SendWaits) : traffic.channel.senders ≠ [] := by
  obtain ⟨send, member, pending⟩ := waits
  intro nobody
  rw [flows.sent, nobody, List.map_nil, List.append_nil] at member
  cases List.mem_append.mp member with
  | inl fulfilled =>
      obtain ⟨value, _, same⟩ := List.mem_map.mp fulfilled
      rw [← same] at pending
      cases pending
  | inr gone => exact (flows.gone send gone).1 pending

theorem Flows.receiveWaits (flows : Flows capacity traffic.channel traffic.sends
    traffic.receives received ended lost) (waits : traffic.ReceiveWaits) :
    traffic.channel.receivers ≠ [] := by
  intro nobody
  unfold Traffic.ReceiveWaits at waits
  rw [flows.answered, nobody] at waits
  simp at waits

/-- Whatever its callers do, a channel delivers each value once and in order. -/
theorem channel_delivers (capacity : Nat) (calls : List (Call α)) :
    Delivers capacity ((Traffic.start capacity).run calls) := by
  have sound : ((Traffic.start capacity).run calls).Sound capacity :=
    run_sound ⟨[], 0, [], Flows.start capacity⟩ calls
  obtain ⟨received, ended, lost, flows⟩ := sound
  constructor
  · rw [flows.accepted_eq, flows.received_eq]
    exact List.prefix_append _ _
  · rw [flows.accepted_eq, flows.received_eq]
  · exact flows.bounded
  · intro waits
    have empty := flows.waits (flows.receiveWaits waits)
    exact ⟨empty, fun sends => flows.sendWaits sends (flows.noSenders empty)⟩
  · intro closed
    obtain ⟨noReceivers, noSenders⟩ := flows.closed closed
    exact ⟨fun waits => flows.receiveWaits waits noReceivers,
      fun waits => flows.sendWaits waits noSenders⟩
  · exact fun closed later => run_settles ⟨received, ended, lost, flows⟩ closed later

end

end CScript.Sync
