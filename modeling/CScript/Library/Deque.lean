/-
The deque of std:collections, a ring of slots that doubles where it is full.

A slot that holds no element holds undefined, and undefined can also be an element.
-/

import CScript.Foundation.Refinement
import Mathlib.Data.Nat.ModEq

namespace CScript.Collections

open Foundation

structure Deque (V : Type) where
  items : List (Option V)
  head : Nat
  count : Nat

variable {V : Type}

def empty : Deque V :=
  { items := List.replicate 8 none, head := 0, count := 0 }

namespace Deque

variable (deque : Deque V)

def capacity : Nat :=
  deque.items.length

/-- What is read at a number of slots behind the first element. -/
def behind (index : Nat) : Option V :=
  (deque.items[(deque.head + index) % deque.capacity]?).join

def grow : Deque V :=
  if deque.count < deque.capacity then deque
  else
    { items := (List.range deque.count).map deque.behind ++
        List.replicate (deque.capacity * 2 - deque.count) none
      head := 0
      count := deque.count }

def pushBack (value : Option V) : Deque V :=
  let deque := deque.grow
  { deque with
    items := deque.items.set ((deque.head + deque.count) % deque.capacity) value
    count := deque.count + 1 }

def pushFront (value : Option V) : Deque V :=
  let deque := deque.grow
  let head := (deque.head + deque.capacity - 1) % deque.capacity
  { items := deque.items.set head value, head := head, count := deque.count + 1 }

def popFront : Option V × Deque V :=
  if deque.count = 0 then (none, deque)
  else
    ((deque.items[deque.head]?).join,
      { items := deque.items.set deque.head none
        head := (deque.head + 1) % deque.capacity
        count := deque.count - 1 })

def popBack : Option V × Deque V :=
  if deque.count = 0 then (none, deque)
  else
    let place := (deque.head + deque.count - 1) % deque.capacity
    ((deque.items[place]?).join,
      { deque with items := deque.items.set place none, count := deque.count - 1 })

def peekFront : Option V :=
  if deque.count = 0 then none else (deque.items[deque.head]?).join

def peekBack : Option V :=
  if deque.count = 0 then none
  else (deque.items[(deque.head + deque.count - 1) % deque.capacity]?).join

/-- The method `at`. -/
def at_ (index : Int) : Option V :=
  if index < 0 ∨ deque.count ≤ index then none else deque.behind index.toNat

def toArray : List (Option V) :=
  (List.range deque.count).map fun (index : Nat) => deque.at_ index

end Deque

inductive Op (V : Type) where
  | pushBack (value : Option V)
  | pushFront (value : Option V)
  | popFront
  | popBack
  | peekFront
  | peekBack
  | at_ (index : Int)
  | clear

def step (deque : Deque V) : Op V → Option (Deque V × Option V)
  | .pushBack value => some (deque.pushBack value, none)
  | .pushFront value => some (deque.pushFront value, none)
  | .popFront => some deque.popFront.swap
  | .popBack => some deque.popBack.swap
  | .peekFront => some (deque, deque.peekFront)
  | .peekBack => some (deque, deque.peekBack)
  | .at_ index => some (deque, deque.at_ index)
  | .clear => some (empty, none)

/-- The same on a list. -/
def spec (values : List (Option V)) : Op V → List (Option V) × Option V
  | .pushBack value => (values ++ [value], none)
  | .pushFront value => (value :: values, none)
  | .popFront => (values.tail, values.head?.join)
  | .popBack => (values.dropLast, values.getLast?.join)
  | .peekFront => (values, values.head?.join)
  | .peekBack => (values, values.getLast?.join)
  | .at_ index => (values, if index < 0 then none else values[index.toNat]?.join)
  | .clear => ([], none)

/-- The elements of a list are behind one another in the slots, and the others are undefined. -/
structure Holds (deque : Deque V) (values : List (Option V)) : Prop where
  head : deque.head < deque.capacity
  count : deque.count = values.length
  fits : values.length ≤ deque.capacity
  behind : ∀ index < deque.capacity, deque.behind index = values[index]?.join

theorem place_eq_iff {head capacity left right : Nat} (first : left < capacity)
    (second : right < capacity) :
    (head + left) % capacity = (head + right) % capacity ↔ left = right := by
  refine ⟨fun same => ?_, fun same => same ▸ rfl⟩
  have shifted := Nat.ModEq.add_left_cancel' head same
  exact Nat.ModEq.eq_of_lt_of_lt shifted first second

theorem read_set (items : List (Option V)) {place : Nat} (inside : place < items.length)
    (value : Option V) (other : Nat) :
    ((items.set place value)[other]?).join = if other = place then value
      else (items[other]?).join := by
  rw [List.getElem?_set]
  by_cases here : place = other
  · rw [if_pos here, if_pos (here ▸ inside), if_pos here.symm]
    rfl
  · rw [if_neg here, if_neg (Ne.symm here)]

/-- One slot is written, and the deque begins where it did. -/
theorem behind_set (deque : Deque V) (head count : Nat) (value : Option V) {place index : Nat}
    (inside : place < deque.capacity) (within : index < deque.capacity) :
    Deque.behind
        { items := deque.items.set ((head + place) % deque.capacity) value
          head := head
          count := count } index =
      if index = place then value else Deque.behind { deque with head := head } index := by
  have position := Nat.mod_lt (head + place) (Nat.lt_of_le_of_lt (Nat.zero_le _) inside)
  unfold Deque.behind Deque.capacity at *
  rw [List.length_set, read_set _ position]
  exact if_congr (place_eq_iff within inside) rfl rfl

theorem grow_holds {deque : Deque V} {values : List (Option V)} (holds : Holds deque values) :
    Holds deque.grow values ∧ values.length < deque.grow.capacity := by
  have positive := Nat.lt_of_le_of_lt (Nat.zero_le _) holds.head
  unfold Deque.grow
  split
  · rename_i room
    exact ⟨holds, holds.count ▸ room⟩
  · rename_i full
    have count := holds.count
    have more : deque.capacity = deque.count := by
      have := holds.fits
      omega
    have same : (List.range deque.count).map deque.behind = values :=
      List.ext_getElem (by simp [holds.count]) fun index first second => by
        have here := holds.behind index (Nat.lt_of_lt_of_le second holds.fits)
        rw [List.getElem?_eq_getElem second] at here
        simpa using here
    have size : (values ++ List.replicate (deque.capacity * 2 - deque.count) none).length =
        deque.capacity * 2 := by
      rw [List.length_append, List.length_replicate]
      omega
    rw [same]
    unfold Deque.capacity at size ⊢
    refine ⟨⟨?_, holds.count, ?_, fun index within => ?_⟩, ?_⟩
    all_goals unfold Deque.capacity at *; dsimp only at *
    · omega
    · omega
    · rw [Deque.behind, Nat.zero_add]
      unfold Deque.capacity
      rw [Nat.mod_eq_of_lt within, List.getElem?_append]
      split
      · rfl
      · rename_i past
        rw [List.getElem?_eq_none (Nat.le_of_not_lt past), List.getElem?_replicate]
        split <;> rfl
    · omega

theorem Holds.pushBack {deque : Deque V} {values : List (Option V)} (holds : Holds deque values)
    (value : Option V) : Holds (deque.pushBack value) (values ++ [value]) := by
  obtain ⟨grown, room⟩ := grow_holds holds
  have size : (deque.pushBack value).capacity = deque.grow.capacity := List.length_set
  refine ⟨size ▸ grown.head, ?_, ?_, fun index within => ?_⟩
  · rw [List.length_append, ← grown.count]
    rfl
  · rw [size, List.length_append]
    exact room
  · rw [size] at within
    unfold Deque.pushBack
    dsimp only
    rw [behind_set deque.grow _ _ _ (grown.count ▸ room) within, List.getElem?_append]
    split
    · rename_i here
      rw [here, grown.count]
      simp
    · rename_i elsewhere
      rw [grown.behind index within]
      split
      · rfl
      · rename_i past
        rw [List.getElem?_eq_none (by omega), List.getElem?_eq_none]
        have := grown.count
        simp
        omega

theorem behind_capacity (deque : Deque V) : deque.behind deque.capacity = deque.behind 0 := by
  unfold Deque.behind
  rw [Nat.add_mod_right]
  rfl

theorem behind_succ (deque : Deque V) {head : Nat} (next : (head + 1) % deque.capacity = deque.head)
    (index : Nat) : Deque.behind { deque with head := head } (index + 1) = deque.behind index := by
  unfold Deque.behind
  rw [← next, Nat.mod_add_mod, Nat.add_right_comm]
  rfl

theorem Holds.pushFront {deque : Deque V} {values : List (Option V)} (holds : Holds deque values)
    (value : Option V) : Holds (deque.pushFront value) (value :: values) := by
  obtain ⟨grown, room⟩ := grow_holds holds
  have positive := Nat.lt_of_le_of_lt (Nat.zero_le _) room
  have size : (deque.pushFront value).capacity = deque.grow.capacity := List.length_set
  have next : ((deque.grow.head + deque.grow.capacity - 1) % deque.grow.capacity + 1) %
      deque.grow.capacity = deque.grow.head := by
    rw [Nat.mod_add_mod, Nat.sub_add_cancel (by omega), Nat.add_mod_right,
      Nat.mod_eq_of_lt grown.head]
  refine ⟨size ▸ Nat.mod_lt _ positive, ?_, ?_, fun index within => ?_⟩
  · exact congrArg (· + 1) grown.count
  · rw [size]
    exact room
  · rw [size] at within
    have set := behind_set deque.grow ((deque.grow.head + deque.grow.capacity - 1) %
      deque.grow.capacity) (deque.grow.count + 1) value positive within
    rw [Nat.add_zero, Nat.mod_mod] at set
    refine set.trans ?_
    cases index with
    | zero => rfl
    | succ index =>
        rw [if_neg (Nat.succ_ne_zero _), behind_succ _ next,
          grown.behind index (Nat.lt_of_succ_lt within), List.getElem?_cons_succ]

theorem Holds.first {deque : Deque V} {values : List (Option V)} (holds : Holds deque values) :
    (deque.items[deque.head]?).join = values.head?.join := by
  have here := holds.behind 0 (Nat.lt_of_le_of_lt (Nat.zero_le _) holds.head)
  rw [Deque.behind, Nat.add_zero, Nat.mod_eq_of_lt holds.head] at here
  rw [here, List.head?_eq_getElem?]

theorem Holds.last {deque : Deque V} {values : List (Option V)} (holds : Holds deque values)
    (more : deque.count ≠ 0) :
    (deque.items[(deque.head + deque.count - 1) % deque.capacity]?).join =
      values.getLast?.join := by
  have count := holds.count
  have here := holds.behind (deque.count - 1) (by have := holds.fits; omega)
  rw [Deque.behind, ← Nat.add_sub_assoc (by omega)] at here
  rw [here, List.getLast?_eq_getElem?, count]

theorem Holds.popFront {deque : Deque V} {values : List (Option V)} (holds : Holds deque values) :
    deque.popFront.1 = values.head?.join ∧ Holds deque.popFront.2 values.tail := by
  have count := holds.count
  unfold Deque.popFront
  split
  · rename_i none
    obtain rfl := List.length_eq_zero_iff.mp (count.symm.trans none)
    exact ⟨rfl, holds⟩
  · have positive := Nat.lt_of_le_of_lt (Nat.zero_le _) holds.head
    have fits := holds.fits
    have size : (deque.items.set deque.head none).length = deque.capacity := List.length_set
    refine ⟨holds.first, Nat.lt_of_lt_of_eq (Nat.mod_lt _ positive) size.symm, ?_, ?_,
      fun index within => ?_⟩
    · rw [List.length_tail, ← count]
    · rw [List.length_tail]
      exact Nat.le_trans (Nat.sub_le _ _) (size ▸ fits)
    · replace within : index < deque.capacity := size ▸ within
      have moved := @behind_succ V ⟨deque.items.set deque.head none,
        (deque.head + 1) % deque.capacity, deque.count - 1⟩ deque.head (congrArg _ size) index
      refine moved.symm.trans ?_
      rw [List.getElem?_tail]
      have set := @behind_set V deque deque.head (deque.count - 1) none 0
      rw [Nat.add_zero, Nat.mod_eq_of_lt holds.head] at set
      rcases Nat.lt_or_ge (index + 1) deque.capacity with inside | past
      · refine (set positive inside).trans ?_
        rw [if_neg (Nat.succ_ne_zero _)]
        exact holds.behind _ inside
      · have full : index + 1 = deque.capacity := Nat.le_antisymm within past
        rw [List.getElem?_eq_none (full ▸ fits), full, ← size]
        exact (behind_capacity _).trans (set positive positive)

theorem Holds.popBack {deque : Deque V} {values : List (Option V)} (holds : Holds deque values) :
    deque.popBack.1 = values.getLast?.join ∧ Holds deque.popBack.2 values.dropLast := by
  have count := holds.count
  unfold Deque.popBack
  split
  · rename_i none
    obtain rfl := List.length_eq_zero_iff.mp (count.symm.trans none)
    exact ⟨rfl, holds⟩
  · rename_i more
    have fits := holds.fits
    have size : (deque.items.set ((deque.head + deque.count - 1) % deque.capacity) none).length =
        deque.capacity := List.length_set
    refine ⟨holds.last more, Nat.lt_of_lt_of_eq holds.head size.symm, ?_, ?_,
      fun index within => ?_⟩
    · rw [List.length_dropLast, ← count]
    · rw [List.length_dropLast]
      exact Nat.le_trans (Nat.sub_le _ _) (Nat.le_trans fits (Nat.le_of_eq size.symm))
    · replace within : index < deque.capacity := size ▸ within
      rw [Nat.add_sub_assoc (by omega), behind_set _ _ _ _ (by omega) within,
        List.getElem?_dropLast, ← count]
      split
      · rename_i here
        rw [if_neg (by omega)]
        rfl
      · rename_i elsewhere
        rw [holds.behind index within]
        split
        · rfl
        · rw [List.getElem?_eq_none (by omega)]

theorem Holds.at_ {deque : Deque V} {values : List (Option V)} (holds : Holds deque values)
    (index : Int) :
    deque.at_ index = if index < 0 then none else values[index.toNat]?.join := by
  have count := holds.count
  have fits := holds.fits
  unfold Deque.at_
  by_cases negative : index < 0
  · rw [if_pos (.inl negative), if_pos negative]
  rw [if_neg negative]
  split
  · rw [List.getElem?_eq_none (by omega)]
    rfl
  · exact holds.behind _ (by omega)

theorem Holds.toArray {deque : Deque V} {values : List (Option V)} (holds : Holds deque values) :
    deque.toArray = values :=
  List.ext_getElem (by simp [Deque.toArray, holds.count]) fun index first second => by
    simp [Deque.toArray, holds.at_, List.getElem?_eq_getElem second]

theorem holds_empty : Holds (empty (V := V)) [] where
  head := Nat.succ_pos 7
  count := rfl
  fits := Nat.zero_le _
  behind index within := by
    unfold Deque.behind empty
    rw [List.getElem?_replicate]
    split <;> rfl

theorem step_refines : Refinement.Refines (step (V := V)) spec Holds := by
  intro deque values op holds
  cases op with
  | pushBack value => exact ⟨_, rfl, holds.pushBack value⟩
  | pushFront value => exact ⟨_, rfl, holds.pushFront value⟩
  | popFront => exact ⟨_, congrArg some (congrArg _ holds.popFront.1), holds.popFront.2⟩
  | popBack => exact ⟨_, congrArg some (congrArg _ holds.popBack.1), holds.popBack.2⟩
  | peekFront =>
      refine ⟨deque, congrArg (fun front => some (deque, front)) ?_, holds⟩
      unfold Deque.peekFront
      split
      · rename_i none
        obtain rfl := List.length_eq_zero_iff.mp (holds.count.symm.trans none)
        rfl
      · exact holds.first
  | peekBack =>
      refine ⟨deque, congrArg (fun back => some (deque, back)) ?_, holds⟩
      unfold Deque.peekBack
      split
      · rename_i none
        obtain rfl := List.length_eq_zero_iff.mp (holds.count.symm.trans none)
        rfl
      · rename_i more
        exact holds.last more
  | at_ index => exact ⟨deque, congrArg (fun found => some (deque, found)) (holds.at_ index), holds⟩
  | clear => exact ⟨empty, rfl, holds_empty⟩

/-- Whatever is done to a deque, it answers as the list of its elements does. -/
theorem deque_is_list (ops : List (Op V)) : ∃ deque : Deque V,
    Refinement.run step empty ops = some (deque, (Refinement.specify spec [] ops).2) ∧
      deque.toArray = (Refinement.specify spec [] ops).1 ∧
      deque.count = deque.toArray.length ∧ deque.count ≤ deque.capacity := by
  obtain ⟨deque, ran, holds⟩ := step_refines.run ops empty [] holds_empty
  have same : deque.toArray = (Refinement.specify spec [] ops).1 := holds.toArray
  exact ⟨deque, ran, same, same ▸ holds.count, holds.count ▸ holds.fits⟩

end CScript.Collections
