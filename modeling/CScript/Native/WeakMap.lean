/-
Weak collections under collections at their own allocations.

Every allocation in csMapSet, csMapDelete and rehash may run the collector,
which takes the entries with dead keys out of the map and builds its index
again.  An allocation is given what it does: nothing, or a collection with the
marking it ends with.
-/

import CScript.Native.MapShape
import CScript.Runtime.WeakReferences

namespace CScript

open Foundation

structure WeakCollection where
  map : ObjMap
  capacity : Nat
  deriving DecidableEq

/-- What each allocation of a store does, if it comes to it: the one of the
first index, of a larger index, and of a larger entry array. -/
structure Collections where
  index : Option (Marking Obj)
  growth : Option (Marking Obj)
  entries : Option (Marking Obj)

namespace WeakCollection

def new (isSet : Bool) : WeakCollection :=
  { map := { csMapNew isSet with isWeak := true }
    capacity := 0 }

section

variable (bigints : BigIntCells)

def allocate (collects : Option (Marking Obj)) (map : ObjMap) :
    Option (ObjMap × List (Marking Obj)) :=
  match collects with
  | none => some (map, [])
  | some marking => do
      let pruned ← pruneWeakMap bigints marking map
      return (pruned, [marking])

def rehash (collects : Option (Marking Obj)) (map : ObjMap) (indexCapacity : Nat) :
    Option (ObjMap × List (Marking Obj)) := do
  let (live, ran) ← allocate bigints collects
    { map with entries := compactEntries map.entries }
  let after ← indexEntries bigints live.count 0
    { live with index := List.replicate indexCapacity none }
  return (after, ran)

/-- `if (map->indexCapacity == 0) rehash(map, 8)` -/
def openIndex (plan : Collections) (map : ObjMap) : Option (ObjMap × List (Marking Obj)) :=
  if map.indexCapacity = 0 then rehash bigints plan.index map 8 else some (map, [])

def growIndex (plan : Collections) (map : ObjMap) (slot : Nat) (key : Value) :
    Option (ObjMap × Nat × List (Marking Obj)) :=
  if 4 * (map.count + 1) > 3 * map.indexCapacity then do
    let (grown, ran) ← rehash bigints plan.growth map (map.indexCapacity * 2)
    let slot ← findSlot bigints grown key
    return (grown, slot, ran)
  else some (map, slot, [])

def growEntries (plan : Collections) (map : ObjMap) (capacity : Nat) :
    Option (ObjMap × Nat × List (Marking Obj)) :=
  if capacity < map.count + 1 then do
    let (grown, ran) ← allocate bigints plan.entries map
    return (grown, growCapacity capacity, ran)
  else some (map, capacity, [])

/-- The slot is not looked for again after the entry array has grown. -/
def csMapSet (plan : Collections) (state : WeakCollection) (key value : Value) :
    Option (WeakCollection × List (Marking Obj)) := do
  let (opened, first) ← openIndex bigints plan state.map
  let slot ← findSlot bigints opened key
  match ← opened.index[slot]? with
  | some place => do
      let entry ← opened.entries[place]?
      let map := { opened with entries := opened.entries.set place { entry with value := value } }
      return ({ state with map := map }, first)
  | none => do
      let (roomy, slot, second) ← growIndex bigints plan opened slot key
      let (grown, capacity, third) ← growEntries bigints plan roomy state.capacity
      return ({ map := appendEntry grown slot key value, capacity := capacity },
        first ++ (second ++ third))

def csMapDelete (collects : Option (Marking Obj)) (state : WeakCollection) (key : Value) :
    Option (WeakCollection × Bool) :=
  if state.map.indexCapacity = 0 then some (state, false)
  else do
    let slot ← findSlot bigints state.map key
    match ← state.map.index[slot]? with
    | none => return (state, false)
    | some place => do
        let cleared : MapEntry := { key := .undefined, value := .undefined, present := false }
        let (after, _) ← rehash bigints collects
          { state.map with
            entries := state.map.entries.set place cleared
            liveCount := state.map.liveCount - 1 }
          state.map.indexCapacity
        return ({ state with map := after }, true)

/-! ### What the claim of a store is -/

def aliveIn (ran : List (Marking Obj)) (item : Value × Value) : Bool :=
  ran.all (fun marking => keyAlive marking item)

structure Consistent (map : ObjMap) : Prop where
  indexed : ∀ (place : Nat) (entry : MapEntry), map.entries[place]? = some entry →
    entry.present = true ∧ placeOf bigints map entry.key = some (some place)
  once : ∀ slot place : Nat, map.index[slot]? = some (some place) →
    place < map.count ∧ ∀ other : Nat, map.index[other]? = some (some place) → other = slot

structure Survives (before after : ObjMap) (key value : Value) (ran : List (Marking Obj)) :
    Prop where
  stored : csMapGet bigints after key = some (some value)
  others : ∀ entry ∈ before.entries, entry.present = true →
    csValuesSameValueZero bigints entry.key key = false →
    aliveIn ran (entry.key, entry.value) = true →
    csMapGet bigints after entry.key = some (some entry.value)
  consistent : Consistent bigints after

/-- If the growth of the entry array collects, the slot found before it is
where the index built again leads the key. -/
def SlotStays (plan : Collections) (state : WeakCollection) (key : Value) : Prop :=
  ∀ opened first slot roomy newSlot second marking pruned,
    openIndex bigints plan state.map = some (opened, first) →
    findSlot bigints opened key = some slot → opened.index[slot]? = some none →
    growIndex bigints plan opened slot key = some (roomy, newSlot, second) →
    state.capacity < roomy.count + 1 → plan.entries = some marking →
    pruneWeakMap bigints marking roomy = some pruned →
    findSlot bigints pruned key = some newSlot

end

/-! ### What an allocation leaves -/

section

variable {bigints : BigIntCells}

private theorem filter_aliveIn_append (first second : List (Marking Obj))
    (items : List (Value × Value)) :
    (items.filter (aliveIn first)).filter (aliveIn second) =
      items.filter (aliveIn (first ++ second)) := by
  rw [List.filter_filter]
  apply List.filter_congr
  intro item _
  unfold aliveIn
  rw [List.all_append, Bool.and_comm]

private theorem filter_aliveIn_nil (items : List (Value × Value)) :
    items.filter (aliveIn []) = items :=
  List.filter_eq_self.mpr (fun _ _ => rfl)

private theorem filter_aliveIn_one (marking : Marking Obj) (items : List (Value × Value)) :
    items.filter (aliveIn [marking]) = items.filter (keyAlive marking) := by
  apply List.filter_congr
  intro item _
  exact Bool.and_true _

private theorem allocate_spec (map : ObjMap) {items : List (Value × Value)}
    (collects : Option (Marking Obj)) (entries : map.entries = items.map entryOf) (live : map.liveCount = items.length)
    (distinct : OrderedMap.Distinct (csValuesSameValueZero bigints) items)
    (room : items = [] ∨ ∃ exponent, map.index.length = 2 ^ exponent ∧
      items.length < 2 ^ exponent) :
    ∃ after ran, allocate bigints collects map = some (after, ran) ∧
      (∀ marking ∈ ran, marking ∈ collects) ∧
      after.entries = (items.filter (aliveIn ran)).map entryOf ∧
      after.liveCount = (items.filter (aliveIn ran)).length := by
  cases collects with
  | none =>
      refine ⟨map, [], rfl, fun _ member => absurd member List.not_mem_nil, ?_, ?_⟩ <;>
        rw [filter_aliveIn_nil]
      · exact entries
      · exact live
  | some marking =>
      obtain ⟨after, ran, afterEntries, afterLive, _⟩ :=
        pruneWeakMap_entries marking entries live distinct room
      refine ⟨after, [marking], ?_, ?_, ?_, ?_⟩
      · unfold allocate
        simp only [ran, Option.bind_eq_bind, Option.bind_some, Option.pure_def]
      · intro other member
        rw [List.mem_singleton.mp member]
        rfl
      · rw [filter_aliveIn_one]
        exact afterEntries
      · rw [filter_aliveIn_one]
        exact afterLive

private theorem rehash_holds (map : ObjMap) {items : List (Value × Value)} (exponent : Nat)
    (collects : Option (Marking Obj))
    (entries : compactEntries map.entries = items.map entryOf)
    (live : map.liveCount = items.length)
    (distinct : OrderedMap.Distinct (csValuesSameValueZero bigints) items)
    (room : items = [] ∨ ∃ exponent, map.index.length = 2 ^ exponent ∧
      items.length < 2 ^ exponent)
    (wide : 8 ≤ 2 ^ exponent) (load : 4 * items.length ≤ 3 * 2 ^ exponent) :
    ∃ after ran, rehash bigints collects map (2 ^ exponent) = some (after, ran) ∧
      (∀ marking ∈ ran, marking ∈ collects) ∧
      MapHolds bigints after (items.filter (aliveIn ran)) ∧
      Indexed after.entries after.index (items.filter (aliveIn ran)).length ∧
      after.index.length = 2 ^ exponent := by
  obtain ⟨pruned, ran, allocated, fromPlan, prunedEntries, prunedLive⟩ :=
    allocate_spec { map with entries := compactEntries map.entries } collects entries live distinct
      room
  have kept := distinct.filter (aliveIn ran)
  have fewer := List.length_filter_le (aliveIn ran) items
  have compacted : compactEntries pruned.entries = pruned.entries := by
    rw [prunedEntries, compactEntries_map]
  obtain ⟨index, indexedRan, length, indexed⟩ := rehash_spec pruned exponent
    (by rw [compacted, prunedEntries]; exact distinct_entries kept)
    (by rw [compacted, prunedEntries, List.length_map]; omega)
  unfold CScript.rehash at indexedRan
  simp only [compacted] at indexedRan indexed
  rw [prunedEntries, List.length_map] at indexed
  refine ⟨{ pruned with index := index }, ran, ?_, fromPlan,
    ⟨prunedEntries, prunedLive, kept, Or.inr ⟨?_, ?_, ?_⟩⟩, ?_, length⟩
  · unfold rehash
    simp only [allocated, Option.bind_eq_bind, Option.bind_some, Option.pure_def]
    have same : indexEntries bigints pruned.count 0
        { pruned with index := List.replicate (2 ^ exponent) none } =
        some { pruned with index := index } := indexedRan
    rw [same, Option.bind_some]
  · rw [prunedEntries]
    exact indexed
  · rw [length]
    exact wide
  · rw [length]
    omega
  · rw [prunedEntries]
    exact indexed

/-! ### The parts of a store -/

structure Ready (bigints : BigIntCells) (map : ObjMap) (items : List (Value × Value)) :
    Prop where
  holds : MapHolds bigints map items
  indexed : Indexed map.entries map.index items.length
  wide : 8 ≤ map.index.length
  load : 4 * items.length ≤ 3 * map.index.length

private theorem Ready.room {map : ObjMap} {items : List (Value × Value)}
    (ready : Ready bigints map items) :
    ∃ exponent, map.index.length = 2 ^ exponent ∧ items.length < 2 ^ exponent := by
  obtain ⟨exponent, power⟩ := ready.indexed.power
  have wide := ready.wide
  have load := ready.load
  exact ⟨exponent, power, by omega⟩

private theorem openIndex_ready {map : ObjMap} {items : List (Value × Value)}
    (plan : Collections) (holds : MapHolds bigints map items) :
    ∃ opened ran, openIndex bigints plan map = some (opened, ran) ∧
      (∀ marking ∈ ran, marking ∈ plan.index) ∧
      Ready bigints opened (items.filter (aliveIn ran)) := by
  unfold openIndex ObjMap.indexCapacity
  rcases holds.index with ⟨noIndex, empty⟩ | ⟨indexed, wide, load⟩
  · rw [noIndex, if_pos List.length_nil]
    have entries : compactEntries map.entries = items.map entryOf := by
      rw [holds.entries, compactEntries_map]
    obtain ⟨opened, ran, rehashed, fromPlan, openHolds, indexed, length⟩ :=
      rehash_holds map 3 plan.index entries holds.live holds.distinct (Or.inl empty) (by decide) (by rw [empty]; decide)
    have fewer := List.length_filter_le (aliveIn ran) items
    rw [empty, List.length_nil] at fewer
    exact ⟨opened, ran, rehashed, fromPlan, openHolds, indexed, by omega, by rw [empty]; simp⟩
  · rw [if_neg (by omega)]
    refine ⟨map, [], rfl, fun _ member => absurd member List.not_mem_nil, ?_⟩
    rw [filter_aliveIn_nil]
    exact ⟨holds, indexed, wide, load⟩

private theorem growIndex_ready {map : ObjMap} {items : List (Value × Value)} {slot : Nat}
    {key : Value} (plan : Collections) (ready : Ready bigints map items)
    (found : findSlot bigints map key = some slot) (free : map.index[slot]? = some none)
    (coherent : CoherentWith bigints items key)
    (absent : OrderedMap.lookup (csValuesSameValueZero bigints) items key = none) :
    ∃ roomy newSlot ran, growIndex bigints plan map slot key = some (roomy, newSlot, ran) ∧
      (∀ marking ∈ ran, marking ∈ plan.growth) ∧
      Ready bigints roomy (items.filter (aliveIn ran)) ∧
      4 * ((items.filter (aliveIn ran)).length + 1) ≤ 3 * roomy.index.length ∧
      findSlot bigints roomy key = some newSlot ∧ newSlot < roomy.index.length := by
  unfold growIndex
  rw [ready.holds.count]
  by_cases full : 4 * (items.length + 1) > 3 * map.indexCapacity
  · rw [if_pos full]
    have entries : compactEntries map.entries = items.map entryOf := by
      rw [ready.holds.entries, compactEntries_map]
    obtain ⟨exponent, power, fits⟩ := ready.room
    have wide := ready.wide
    have load := ready.load
    have capacity : map.indexCapacity * 2 = 2 ^ (exponent + 1) := by
      unfold ObjMap.indexCapacity
      rw [power, Nat.pow_succ]
    have doubled := Nat.pow_succ 2 exponent
    obtain ⟨roomy, ran, rehashed, fromPlan, holds, indexed, length⟩ :=
      rehash_holds map (exponent + 1) plan.growth entries
        ready.holds.live ready.holds.distinct (Or.inr ⟨exponent, power, fits⟩) (by omega)
        (by omega)
    have fewer := List.length_filter_le (aliveIn ran) items
    have coherentRoomy : CoherentWith bigints (items.filter (aliveIn ran)) key :=
      fun item member => coherent item (List.mem_filter.mp member).1
    have stillAbsent : OrderedMap.lookup (csValuesSameValueZero bigints)
        (items.filter (aliveIn ran)) key = none :=
      OrderedMap.lookup_eq_none_iff.mpr (fun item member =>
        OrderedMap.lookup_eq_none_iff.mp absent item (List.mem_filter.mp member).1)
    rw [capacity, rehashed]
    rcases holds.findSlot coherentRoomy indexed (by omega) with
      ⟨newSlot, place, item, _, _, here, same⟩ | ⟨newSlot, newFound, newFree, _, _⟩
    · have apart := OrderedMap.lookup_eq_none_iff.mp stillAbsent item (List.mem_of_getElem? here)
      rw [same] at apart
      cases apart
    · refine ⟨roomy, newSlot, ran, ?_, fromPlan, ⟨holds, indexed, by omega, by omega⟩, by omega,
        newFound, (List.getElem?_eq_some_iff.mp newFree).1⟩
      simp only [Option.bind_eq_bind, Option.bind_some, newFound, Option.pure_def]
  · rw [if_neg full]
    refine ⟨map, slot, [], rfl, fun _ member => absurd member List.not_mem_nil, ?_, ?_, found,
      (List.getElem?_eq_some_iff.mp free).1⟩ <;> rw [filter_aliveIn_nil]
    · exact ready
    · exact Nat.not_lt.mp full

def GrowthIdle (plan : Collections) (map : ObjMap) (capacity : Nat) : Prop :=
  ∀ marking, capacity < map.count + 1 → plan.entries ≠ some marking

private theorem growEntries_idle (bigints : BigIntCells) {plan : Collections} {map : ObjMap} {capacity : Nat}
    (idle : GrowthIdle plan map capacity) :
    ∃ after, growEntries bigints plan map capacity = some (map, after, []) := by
  unfold growEntries
  by_cases tight : capacity < map.count + 1
  · cases collects : plan.entries with
    | none =>
        rw [if_pos tight]
        exact ⟨growCapacity capacity, rfl⟩
    | some marking => exact absurd collects (idle marking tight)
  · rw [if_neg tight]
    exact ⟨capacity, rfl⟩

private theorem growEntries_collects {plan : Collections} {map : ObjMap}
    {items : List (Value × Value)} {capacity : Nat} {marking : Marking Obj}
    (ready : Ready bigints map items) (tight : capacity < map.count + 1)
    (collects : plan.entries = some marking) :
    ∃ grown, pruneWeakMap bigints marking map = some grown ∧
      growEntries bigints plan map capacity = some (grown, growCapacity capacity, [marking]) ∧
      Ready bigints grown (items.filter (aliveIn [marking])) ∧
      grown.index.length = map.index.length := by
  obtain ⟨grown, pruned, entries, live, length, _, _, index⟩ :=
    pruneWeakMap_entries marking ready.holds.entries ready.holds.live ready.holds.distinct
      (Or.inr ready.room)
  have fewer := List.length_filter_le (keyAlive marking) items
  have wide := ready.wide
  have load := ready.load
  have indexed : Indexed grown.entries grown.index (items.filter (keyAlive marking)).length := by
    rcases index with ⟨rfl, all⟩ | rebuilt
    · rw [all]
      exact ready.indexed
    · exact rebuilt
  refine ⟨grown, pruned, ?_, ?_, length⟩
  · unfold growEntries allocate
    rw [if_pos tight, collects]
    simp only [pruned, Option.bind_eq_bind, Option.bind_some, Option.pure_def]
  · rw [filter_aliveIn_one]
    exact ⟨⟨entries, live, ready.holds.distinct.filter _, Or.inr ⟨indexed, by omega, by omega⟩⟩,
      indexed, by omega, by omega⟩

/-- Where the growth of the entry array leaves a store: the slot found before it
is right if it did not collect, and otherwise if the key leads to it. -/
private theorem growEntries_ready {map : ObjMap} {items : List (Value × Value)}
    (plan : Collections) (capacity : Nat) (ready : Ready bigints map items) :
    ∃ grown after ran, growEntries bigints plan map capacity = some (grown, after, ran) ∧
      (∀ marking ∈ ran, marking ∈ plan.entries) ∧
      Ready bigints grown (items.filter (aliveIn ran)) ∧
      grown.index.length = map.index.length ∧
      ((grown = map ∧ GrowthIdle plan map capacity) ∨
        ∃ marking, capacity < map.count + 1 ∧ plan.entries = some marking ∧
          pruneWeakMap bigints marking map = some grown) := by
  by_cases idle : GrowthIdle plan map capacity
  · obtain ⟨after, stays⟩ := growEntries_idle bigints idle
    refine ⟨map, after, [], stays, fun _ member => absurd member List.not_mem_nil, ?_, rfl,
      Or.inl ⟨rfl, idle⟩⟩
    rw [filter_aliveIn_nil]
    exact ready
  · unfold GrowthIdle at idle
    push Not at idle
    obtain ⟨marking, tight, collects⟩ := idle
    obtain ⟨grown, pruned, ran, grownReady, length⟩ := growEntries_collects ready tight collects
    refine ⟨grown, _, _, ran, ?_, grownReady, length, Or.inr ⟨marking, tight, collects, pruned⟩⟩
    intro other member
    rw [List.mem_singleton.mp member, collects]
    rfl

/-! ### A store -/

private theorem csMapSet_cases (plan : Collections) {state : WeakCollection}
    {items : List (Value × Value)} {key : Value} (holds : MapHolds bigints state.map items)
    (coherent : CoherentWith bigints items key) (value : Value) :
    ∃ after ran, csMapSet bigints plan state key value = some (after, ran) ∧
      (∀ marking ∈ ran, ∃ collects ∈ [plan.index, plan.growth, plan.entries],
        marking ∈ collects) ∧
      ((MapHolds bigints after.map (OrderedMap.put (csValuesSameValueZero bigints)
            (items.filter (aliveIn ran)) key value) ∧ SlotStays bigints plan state key) ∨
        ∃ (grown : ObjMap) (slot : Nat), Ready bigints grown (items.filter (aliveIn ran)) ∧
          OrderedMap.lookup (csValuesSameValueZero bigints) (items.filter (aliveIn ran)) key =
            none ∧
          4 * ((items.filter (aliveIn ran)).length + 1) ≤ 3 * grown.index.length ∧
          slot < grown.index.length ∧ after.map = appendEntry grown slot key value ∧
          (SlotStays bigints plan state key ↔ findSlot bigints grown key = some slot)) := by
  obtain ⟨opened, first, openRan, firstFrom, ready⟩ := openIndex_ready plan holds
  have coherentIn (ran : List (Marking Obj)) :
      CoherentWith bigints (items.filter (aliveIn ran)) key :=
    fun item member => coherent item (List.mem_filter.mp member).1
  have wide := ready.wide
  have load := ready.load
  unfold csMapSet
  simp only [openRan, Option.bind_eq_bind, Option.bind_some]
  rcases ready.holds.findSlot (coherentIn first) ready.indexed (by omega) with
    ⟨slot, place, item, found, slotHere, here, same⟩ | ⟨slot, found, free, _, absent⟩
  · have entryHere : opened.entries[place]? = some (entryOf item) := by
      rw [ready.holds.entries, List.getElem?_map, here, Option.map_some]
    simp only [found, slotHere, entryHere, Option.bind_some, Option.pure_def]
    refine ⟨_, first, rfl, fun marking member => ⟨_, List.mem_cons_self, firstFrom marking member⟩,
      Or.inl ⟨overwrite_holds ready.holds ready.indexed wide load here same value, ?_⟩⟩
    intro otherOpened otherFirst otherSlot _ _ _ _ _ otherRan otherFound otherFree
    rw [openRan] at otherRan
    cases otherRan
    rw [found] at otherFound
    cases otherFound
    rw [slotHere] at otherFree
    cases otherFree
  · obtain ⟨roomy, newSlot, second, growRan, secondFrom, roomyReady, room, newFound, newBound⟩ :=
      growIndex_ready plan ready found free (coherentIn first) absent
    obtain ⟨grown, capacity, third, enlarged, thirdFrom, grownReady, length, outcome⟩ :=
      growEntries_ready plan state.capacity roomyReady
    simp only [found, free, growRan, enlarged, Option.bind_some, Option.pure_def]
    have filters : ((items.filter (aliveIn first)).filter (aliveIn second)).filter
        (aliveIn third) = items.filter (aliveIn (first ++ (second ++ third))) := by
      rw [filter_aliveIn_append, filter_aliveIn_append]
    have fewer := List.length_filter_le (aliveIn third)
      ((items.filter (aliveIn first)).filter (aliveIn second))
    rw [filters] at grownReady fewer
    refine ⟨_, first ++ (second ++ third), rfl, ?_, Or.inr ⟨grown, newSlot, grownReady, ?_,
      by omega, by omega, rfl, ?_⟩⟩
    · intro marking member
      rcases List.mem_append.mp member with inFirst | member
      · exact ⟨_, List.mem_cons_self, firstFrom marking inFirst⟩
      · rcases List.mem_append.mp member with inSecond | inThird
        · exact ⟨_, List.mem_cons_of_mem _ List.mem_cons_self, secondFrom marking inSecond⟩
        · exact ⟨_, List.mem_cons_of_mem _ (List.mem_cons_of_mem _ List.mem_cons_self),
            thirdFrom marking inThird⟩
    · rw [← filters]
      exact OrderedMap.lookup_eq_none_iff.mpr (fun item member =>
        OrderedMap.lookup_eq_none_iff.mp absent item
          (List.mem_filter.mp (List.mem_filter.mp member).1).1)
    · constructor
      · intro stays
        rcases outcome with ⟨rfl, _⟩ | ⟨marking, tight, collects, pruned⟩
        · exact newFound
        · exact stays opened first slot roomy newSlot second marking grown openRan found free
            growRan tight collects pruned
      · intro foundGrown otherOpened otherFirst otherSlot otherRoomy otherNew otherSecond marking
          pruned otherRan otherFound _ otherGrow tight collects otherPruned
        rw [openRan] at otherRan
        cases otherRan
        rw [found] at otherFound
        cases otherFound
        rw [growRan] at otherGrow
        cases otherGrow
        rcases outcome with ⟨_, idle⟩ | ⟨_, _, collectsHere, prunedHere⟩
        · exact absurd collects (idle marking tight)
        · rw [collects] at collectsHere
          cases collectsHere
          rw [otherPruned] at prunedHere
          cases prunedHere
          exact foundGrown

/-! ### The slot that stays -/

private theorem coherent_own {items : List (Value × Value)}
    (distinct : OrderedMap.Distinct (csValuesSameValueZero bigints) items)
    {place : Nat} {item : Value × Value} (here : items[place]? = some item) :
    CoherentWith bigints items item.1 := by
  intro other member same
  obtain ⟨otherPlace, otherHere⟩ := List.mem_iff_getElem?.mp member
  obtain ⟨bound, isItem⟩ := List.getElem?_eq_some_iff.mp here
  obtain ⟨otherBound, isOther⟩ := List.getElem?_eq_some_iff.mp otherHere
  have pairwise := List.pairwise_iff_getElem.mp distinct
  rcases Nat.lt_trichotomy otherPlace place with less | equal | greater
  · have apart := pairwise otherPlace place otherBound bound less
    rw [isOther, isItem, same] at apart
    cases apart
  · subst equal
    rw [here] at otherHere
    cases otherHere
    rfl
  · have apart := pairwise place otherPlace bound otherBound greater
    rw [isOther, isItem, (sameValueZero_equivalence bigints).symm same] at apart
    cases apart

private theorem placeOf_own {map : ObjMap} {items : List (Value × Value)}
    (holds : MapHolds bigints map items) {place : Nat} {item : Value × Value}
    (here : items[place]? = some item) : placeOf bigints map item.1 = some (some place) := by
  have coherent := coherent_own holds.distinct here
  have equiv := sameValueZero_equivalence bigints
  unfold placeOf ObjMap.indexCapacity
  rcases holds.index with ⟨_, empty⟩ | ⟨indexed, wide, load⟩
  · rw [empty] at here
    cases here
  · rw [if_neg (by omega)]
    rcases holds.findSlot coherent indexed (by omega) with
      ⟨slot, other, otherItem, found, slotHere, otherHere, same⟩ | ⟨_, _, _, _, absent⟩
    · simp only [found, slotHere, Option.bind_eq_bind, Option.bind_some]
      have valueHere := OrderedMap.lookup_of_index equiv holds.distinct here (equiv.refl item.1)
      obtain ⟨bound, isItem⟩ := List.getElem?_eq_some_iff.mp here
      obtain ⟨otherBound, isOther⟩ := List.getElem?_eq_some_iff.mp otherHere
      have pairwise := List.pairwise_iff_getElem.mp holds.distinct
      rcases Nat.lt_trichotomy other place with less | equal | greater
      · have apart := pairwise other place otherBound bound less
        rw [isOther, isItem, same] at apart
        cases apart
      · rw [equal]
      · have apart := pairwise place other bound otherBound greater
        rw [isOther, isItem, equiv.symm same] at apart
        cases apart
    · have matched := OrderedMap.lookup_eq_none_iff.mp absent item (List.mem_of_getElem? here)
      rw [equiv.refl item.1] at matched
      cases matched

theorem consistent_of_holds {map : ObjMap} {items : List (Value × Value)}
    (holds : MapHolds bigints map items) : Consistent bigints map where
  indexed place entry here := by
    obtain ⟨item, itemHere, rfl⟩ := holds.entry_at here
    exact ⟨rfl, placeOf_own holds itemHere⟩
  once slot place here := by
    rcases holds.index with ⟨noIndex, _⟩ | ⟨indexed, _, _⟩
    · rw [noIndex] at here
      cases here
    · rw [holds.count]
      exact ⟨indexed.bounded slot place here,
        fun other otherHere => indexed.once other slot place otherHere here⟩

private theorem survives_of_holds {before after : ObjMap} {items : List (Value × Value)}
    {key value : Value} {ran : List (Marking Obj)} (holdsBefore : MapHolds bigints before items)
    (coherent : CoherentWith bigints items key)
    (holds : MapHolds bigints after (OrderedMap.put (csValuesSameValueZero bigints)
      (items.filter (aliveIn ran)) key value)) :
    Survives bigints before after key value ran := by
  have equiv := sameValueZero_equivalence bigints
  constructor
  · have coherentPut : CoherentWith bigints (OrderedMap.put (csValuesSameValueZero bigints)
        (items.filter (aliveIn ran)) key value) key := by
      intro item member same
      rcases OrderedMap.key_mem_put member with new | ⟨original, originalMember, keyEq⟩
      · rw [new]
      · rw [← keyEq] at same ⊢
        exact coherent original (List.mem_filter.mp originalMember).1 same
    rw [csMapGet_coherent holds coherentPut, OrderedMap.lookup_put equiv, if_pos (equiv.refl key)]
  · intro entry member _ apart alive
    rw [holdsBefore.entries] at member
    obtain ⟨item, itemMember, rfl⟩ := List.mem_map.mp member
    have kept : item ∈ items.filter (aliveIn ran) := List.mem_filter.mpr ⟨itemMember, alive⟩
    obtain ⟨place, here⟩ := List.mem_iff_getElem?.mp kept
    have distinct := holdsBefore.distinct.filter (aliveIn ran)
    have coherentPut : CoherentWith bigints (OrderedMap.put (csValuesSameValueZero bigints)
        (items.filter (aliveIn ran)) key value) item.1 := by
      intro other otherMember same
      rcases OrderedMap.key_mem_put otherMember with new | ⟨original, originalMember, keyEq⟩
      · rw [new] at same
        have apart' : csValuesSameValueZero bigints item.1 key = false := apart
        rw [equiv.symm same] at apart'
        cases apart'
      · rw [← keyEq] at same ⊢
        exact coherent_own distinct here original originalMember same
    have differ : csValuesSameValueZero bigints key item.1 = false := by
      rw [OrderedMap.same_comm equiv]
      exact apart
    show csMapGet bigints after item.1 = some (some item.2)
    rw [csMapGet_coherent holds coherentPut, OrderedMap.lookup_put equiv, differ,
      if_neg Bool.false_ne_true, OrderedMap.lookup_of_index equiv distinct here (equiv.refl item.1)]
  · exact consistent_of_holds holds

private theorem findSlot_appendEntry {grown : ObjMap} {items : List (Value × Value)}
    {slot first : Nat} {key : Value} (ready : Ready bigints grown items)
    (free : grown.index[slot]? = some none) (found : findSlot bigints grown key = some first)
    (firstFree : grown.index[first]? = some none) (apart : slot ≠ first) (value : Value) :
    findSlot bigints (appendEntry grown slot key value) key = some first := by
  have boundedGrown : ∀ other place : Nat, grown.index[other]? = some (some place) →
      place < grown.count := by
    rw [ready.holds.count]
    exact ready.indexed.bounded
  have indexSet : (appendEntry grown slot key value).index =
      grown.index.set slot (some grown.count) := rfl
  have length : (appendEntry grown slot key value).index.length = grown.index.length :=
    List.length_set
  have power : ∃ exponent, (appendEntry grown slot key value).index.length = 2 ^ exponent := by
    rw [length]
    exact ready.indexed.power
  have bounded : ∀ other place : Nat,
      (appendEntry grown slot key value).index[other]? = some (some place) →
      place < (appendEntry grown slot key value).count := by
    intro other place here
    have count : (appendEntry grown slot key value).count = grown.count + 1 := List.length_append
    rw [count]
    rw [indexSet, List.getElem?_set] at here
    split at here
    · split at here
      · cases here
        exact Nat.lt_succ_self _
      · cases here
    · exact Nat.lt_succ_of_lt (boundedGrown other place here)
  have firstBound := (List.getElem?_eq_some_iff.mp firstFree).1
  have firstStops : freeSlot grown.index first = true := decide_eq_true firstFree
  obtain ⟨_, scanned, _, _, before⟩ := LinearProbe.scan_stops
    (fun other => freeSlot grown.index other || matchesAt bigints grown key other)
    (homeOf_bound ready.indexed.power key) firstBound (by simp only [firstStops, Bool.true_or])
  rw [← findSlot_scans ready.indexed.power boundedGrown, found] at scanned
  cases scanned
  have fewer : ∀ other, (freeSlot (appendEntry grown slot key value).index other ||
      matchesAt bigints (appendEntry grown slot key value) key other) = true →
      (freeSlot grown.index other || matchesAt bigints grown key other) = true := by
    intro other stops
    by_cases atSlot : other = slot
    · rw [atSlot]
      exact Bool.or_eq_true_iff.mpr (Or.inl (decide_eq_true free))
    · have indexHere : (appendEntry grown slot key value).index[other]? = grown.index[other]? := by
        rw [indexSet, List.getElem?_set_ne (Ne.symm atSlot)]
      rcases Bool.or_eq_true_iff.mp stops with isFree | matched
      · refine Bool.or_eq_true_iff.mpr (Or.inl (decide_eq_true ?_))
        rw [← indexHere]
        exact of_decide_eq_true isFree
      · refine Bool.or_eq_true_iff.mpr (Or.inr ?_)
        unfold matchesAt at matched ⊢
        rw [indexHere] at matched
        cases placeHere : grown.index[other]? with
        | none =>
            rw [placeHere] at matched
            cases matched
        | some held =>
            cases held with
            | none =>
                rw [placeHere] at matched
                cases matched
            | some place =>
                rw [placeHere] at matched
                have entryHere : (appendEntry grown slot key value).entries[place]? =
                    grown.entries[place]? :=
                  List.getElem?_append_left (boundedGrown other place placeHere)
                simp only [entryHere] at matched
                exact matched
  have home : homeOf (appendEntry grown slot key value).index key = homeOf grown.index key := by
    unfold homeOf
    rw [length]
  refine (findSlot_scans power bounded key).trans ?_
  rw [length, home]
  refine LinearProbe.scan_finds (homeOf_bound ready.indexed.power key) firstBound ?_
    (before.mono fewer)
  refine Bool.or_eq_true_iff.mpr (Or.inl (decide_eq_true ?_))
  rw [indexSet, List.getElem?_set_ne apart, firstFree]

/-- An append at another slot than the one the key leads to loses the entry
whose slot it is, or the new one. -/
private theorem not_survives {before grown : ObjMap} {items : List (Value × Value)} {slot : Nat}
    {key value : Value} {ran : List (Marking Obj)} (ready : Ready bigints grown items)
    (coherent : CoherentWith bigints items key)
    (absent : OrderedMap.lookup (csValuesSameValueZero bigints) items key = none)
    (bound : slot < grown.index.length) (moved : findSlot bigints grown key ≠ some slot) :
    ¬Survives bigints before (appendEntry grown slot key value) key value ran := by
  intro survives
  have wide := ready.wide
  have load := ready.load
  have equiv := sameValueZero_equivalence bigints
  have indexSet : (appendEntry grown slot key value).index =
      grown.index.set slot (some grown.count) := rfl
  have entriesAppended : (appendEntry grown slot key value).entries =
      grown.entries ++ [{ key := key, value := value, present := true }] := rfl
  cases slotHere : grown.index[slot]? with
  | none => exact absurd bound (Nat.not_lt.mpr (List.getElem?_eq_none_iff.mp slotHere))
  | some held =>
      cases held with
      | some place =>
          -- The slot was another entry's, and that entry has no other.
          have placeBound := ready.indexed.bounded slot place slotHere
          have entryBound : place < grown.entries.length := by
            rw [ready.holds.entries, List.length_map]
            exact placeBound
          have stillThere : (appendEntry grown slot key value).entries[place]? =
              some grown.entries[place] := by
            rw [entriesAppended, List.getElem?_append_left entryBound]
            exact List.getElem?_eq_getElem entryBound
          obtain ⟨_, leads⟩ := survives.consistent.indexed place _ stillThere
          unfold placeOf at leads
          split at leads
          · cases leads
          · obtain ⟨other, _, otherHere⟩ := Option.bind_eq_some_iff.mp leads
            rw [indexSet, List.getElem?_set] at otherHere
            split at otherHere
            · cases otherHere
              rw [ready.holds.count] at placeBound
              exact absurd placeBound (Nat.lt_irrefl _)
            · rename_i differ
              exact differ (ready.indexed.once slot other place slotHere otherHere)
      | none =>
          -- The slot is free, but a probe for the key ends before it.
          rcases ready.holds.findSlot coherent ready.indexed (by omega) with
            ⟨_, _, item, _, _, here, same⟩ | ⟨first, found, free, clear, _⟩
          · have apart := OrderedMap.lookup_eq_none_iff.mp absent item (List.mem_of_getElem? here)
            rw [same] at apart
            cases apart
          · have differ : slot ≠ first := fun same => moved (same ▸ found)
            have stored := survives.stored
            have stays : (appendEntry grown slot key value).index[first]? = some none := by
              rw [indexSet, List.getElem?_set_ne differ, free]
            have someIndex : (appendEntry grown slot key value).indexCapacity ≠ 0 := by
              unfold ObjMap.indexCapacity
              rw [indexSet, List.length_set]
              omega
            unfold csMapGet at stored
            rw [if_neg someIndex, findSlot_appendEntry ready slotHere found free differ] at stored
            simp only [stays, Option.bind_eq_bind, Option.bind_some, Option.pure_def] at stored
            cases stored

theorem csMapSet_survives (plan : Collections) {state : WeakCollection}
    {items : List (Value × Value)} {key : Value} (holds : MapHolds bigints state.map items)
    (coherent : CoherentWith bigints items key) (value : Value) :
    ∃ after ran, csMapSet bigints plan state key value = some (after, ran) ∧
      (∀ marking ∈ ran, ∃ collects ∈ [plan.index, plan.growth, plan.entries],
        marking ∈ collects) ∧
      (Survives bigints state.map after.map key value ran ↔ SlotStays bigints plan state key) ∧
      (SlotStays bigints plan state key → ∃ left, MapHolds bigints after.map left) := by
  obtain ⟨after, ran, stored, fromPlan, outcome⟩ := csMapSet_cases plan holds coherent value
  refine ⟨after, ran, stored, fromPlan, ?_⟩
  rcases outcome with ⟨afterHolds, stays⟩ |
    ⟨grown, slot, ready, absent, room, bound, appended, staysIff⟩
  · exact ⟨⟨fun _ => stays, fun _ => survives_of_holds holds coherent afterHolds⟩,
      fun _ => ⟨_, afterHolds⟩⟩
  · have coherentGrown : CoherentWith bigints (items.filter (aliveIn ran)) key :=
      fun item member => coherent item (List.mem_filter.mp member).1
    have wide := ready.wide
    have load := ready.load
    rw [appended]
    have placed (stays : SlotStays bigints plan state key) :
        MapHolds bigints (appendEntry grown slot key value)
          (OrderedMap.put (csValuesSameValueZero bigints) (items.filter (aliveIn ran)) key
            value) := by
      have found := staysIff.mp stays
      rcases ready.holds.findSlot coherentGrown ready.indexed (by omega) with
        ⟨_, _, item, _, _, here, same⟩ | ⟨first, foundFirst, free, clear, _⟩
      · have apart := OrderedMap.lookup_eq_none_iff.mp absent item (List.mem_of_getElem? here)
        rw [same] at apart
        cases apart
      · rw [found] at foundFirst
        cases foundFirst
        exact appendEntry_holds ready.holds ready.indexed wide free clear absent room value
    refine ⟨⟨fun survives => ?_, fun stays => survives_of_holds holds coherent (placed stays)⟩,
      fun stays => ⟨_, placed stays⟩⟩
    by_contra moved
    exact not_survives ready coherentGrown absent bound (fun found => moved (staysIff.mpr found))
      survives

theorem csMapDelete_holds {state : WeakCollection} {items : List (Value × Value)}
    (holds : MapHolds bigints state.map items) (collects : Option (Marking Obj)) (key : Value) :
    ∃ after removed left, csMapDelete bigints collects state key = some (after, removed) ∧
      MapHolds bigints after.map left := by
  unfold csMapDelete
  rcases holds.index with ⟨noIndex, _⟩ | ⟨indexed, wide, load⟩
  · unfold ObjMap.indexCapacity
    rw [noIndex, if_pos List.length_nil]
    exact ⟨state, false, items, rfl, holds⟩
  · have count := holds.count
    have probing : Probing state.map.count state.map.index items.length :=
      { power := indexed.power
        bounded := by
          rw [count]
          exact indexed.bounded
        counted := Nat.le_of_eq indexed.counted.symm }
    obtain ⟨slot, found, ended⟩ := findSlot_ends bigints probing (by omega) key
    have someIndex : state.map.indexCapacity ≠ 0 := by unfold ObjMap.indexCapacity; omega
    rw [if_neg someIndex]
    simp only [found, Option.bind_eq_bind, Option.bind_some]
    rcases ended with free | ⟨place, entry, slotHere, entryHere, _⟩
    · simp only [free, Option.bind_some, Option.pure_def]
      exact ⟨state, false, items, rfl, holds⟩
    · have bound : place < items.length := by
        have inside := (List.getElem?_eq_some_iff.mp entryHere).1
        rw [holds.entries, List.length_map] at inside
        exact inside
      obtain ⟨exponent, power⟩ := indexed.power
      have erased := List.length_eraseIdx_of_lt bound
      have entries : compactEntries (state.map.entries.set place
          { key := .undefined, value := .undefined, present := false }) =
          (items.eraseIdx place).map entryOf := by
        rw [holds.entries]
        exact compactEntries_cleared items place bound
      obtain ⟨after, ran, rehashed, _, afterHolds, _⟩ := rehash_holds
        { state.map with
          entries := state.map.entries.set place
            { key := .undefined, value := .undefined, present := false }
          liveCount := state.map.liveCount - 1 }
        exponent collects entries (by simp only [holds.live, erased]; omega)
        (List.Pairwise.sublist (List.eraseIdx_sublist _ _) holds.distinct)
        (Or.inr ⟨exponent, power, by omega⟩) (by omega) (by omega)
      have width : state.map.indexCapacity = 2 ^ exponent := power
      simp only [slotHere, width, rehashed, Option.bind_some, Option.pure_def]
      exact ⟨_, true, _, rfl, afterHolds⟩

/-! ### Whole runs -/

end

/-- What happens to a weak collection: stores and deletes, with what their
allocations do, and collections at any other allocation. -/
inductive WeakOp where
  | set (key value : Value) (plan : Collections)
  | delete (key : Value) (collects : Option (Marking Obj))
  | collect (marking : Marking Obj)

section

variable (bigints : BigIntCells)

def step (state : WeakCollection) : WeakOp → Option WeakCollection
  | .set key value plan => (csMapSet bigints plan state key value).map Prod.fst
  | .delete key collects => (csMapDelete bigints collects state key).map Prod.fst
  | .collect marking =>
      (pruneWeakMap bigints marking state.map).map (fun map => { state with map := map })

def run : List WeakOp → WeakCollection → Option WeakCollection
  | [], state => some state
  | op :: ops, state => (step bigints state op).bind (run ops)

def Coherent (state : WeakCollection) (key : Value) : Prop :=
  ∀ entry ∈ state.map.entries, csValuesSameValueZero bigints entry.key key = true →
    hashValue entry.key = hashValue key

def StepKeeps (state : WeakCollection) : WeakOp → Prop
  | .set key _ plan => Coherent bigints state key ∧ SlotStays bigints plan state key
  | _ => True

def RunKeeps : List WeakOp → WeakCollection → Prop
  | [], _ => True
  | op :: ops, state =>
      StepKeeps bigints state op ∧ ∀ next, step bigints state op = some next → RunKeeps ops next

variable {bigints}

private theorem Coherent.with {state : WeakCollection} {key : Value}
    {items : List (Value × Value)} (coherent : Coherent bigints state key)
    (holds : MapHolds bigints state.map items) : CoherentWith bigints items key := by
  intro item member same
  refine coherent (entryOf item) ?_ same
  rw [holds.entries]
  exact List.mem_map_of_mem member

theorem step_holds {state : WeakCollection} {items : List (Value × Value)}
    (holds : MapHolds bigints state.map items) {op : WeakOp}
    (keeps : StepKeeps bigints state op) :
    ∃ after left, step bigints state op = some after ∧ MapHolds bigints after.map left := by
  cases op with
  | set key value plan =>
      obtain ⟨after, ran, stored, _, _, placed⟩ :=
        csMapSet_survives plan holds (keeps.1.with holds) value
      obtain ⟨left, afterHolds⟩ := placed keeps.2
      exact ⟨after, left, congrArg (Option.map Prod.fst) stored, afterHolds⟩
  | delete key collects =>
      obtain ⟨after, removed, left, deleted, afterHolds⟩ := csMapDelete_holds holds collects key
      exact ⟨after, left, congrArg (Option.map Prod.fst) deleted, afterHolds⟩
  | collect marking =>
      obtain ⟨after, pruned, afterHolds, _⟩ := pruneWeakMap_spec marking holds
      refine ⟨{ state with map := after }, _, ?_, afterHolds⟩
      simp only [step, pruned, Option.map_some]

theorem run_holds : ∀ {ops : List WeakOp} {state : WeakCollection} {items : List (Value × Value)},
    MapHolds bigints state.map items → RunKeeps bigints ops state →
    ∃ after left, run bigints ops state = some after ∧ MapHolds bigints after.map left
  | [], state, items, holds, _ => ⟨state, items, rfl, holds⟩
  | op :: ops, state, items, holds, keeps => by
      obtain ⟨next, left, stepped, nextHolds⟩ := step_holds holds keeps.1
      obtain ⟨after, last, ran, afterHolds⟩ := run_holds nextHolds (keeps.2 next stepped)
      refine ⟨after, last, ?_, afterHolds⟩
      unfold run
      rw [stepped]
      exact ran

private theorem new_holds (bigints : BigIntCells) (isSet : Bool) :
    MapHolds bigints (new isSet).map [] where
  entries := rfl
  live := rfl
  distinct := List.Pairwise.nil
  index := Or.inl ⟨rfl, rfl⟩

end

/-- After any run of stores, deletes and collections whose stores have kept
their slots the index is right, and a further store does what it should, for
whatever collections at its allocations, exactly if its slot stays. -/
theorem weakStore_survives_iff (bigints : BigIntCells) (isSet : Bool) (before : List WeakOp)
    (kept : RunKeeps bigints before (new isSet)) :
    ∃ state, run bigints before (new isSet) = some state ∧
      Consistent bigints state.map ∧
      ∀ (plan : Collections) (key value : Value), Coherent bigints state key →
        ∃ after ran, csMapSet bigints plan state key value = some (after, ran) ∧
          (∀ marking ∈ ran, ∃ collects ∈ [plan.index, plan.growth, plan.entries],
            marking ∈ collects) ∧
          (Survives bigints state.map after.map key value ran ↔
            SlotStays bigints plan state key) := by
  obtain ⟨state, items, ran, holds⟩ := run_holds (new_holds bigints isSet) kept
  refine ⟨state, ran, consistent_of_holds holds, fun plan key value coherent => ?_⟩
  obtain ⟨after, collected, stored, fromPlan, iff_, _⟩ :=
    csMapSet_survives plan holds (coherent.with holds) value
  exact ⟨after, collected, stored, fromPlan, iff_⟩

/-! ### Eight keys, one of them dead -/

private def noBigInts : BigIntCells :=
  fun _ => { limbs := [], negative := false }

private def quiet : Collections :=
  { index := none
    growth := none
    entries := none }

private def keyAt16 (place : Nat) : Value :=
  .obj (.cell .object (16 * (place + 1)))

theorem weakStore_survives_iff_first :
    ∃ state, run noBigInts [.set (keyAt16 0) .null quiet]
        (new false) = some state ∧
      Consistent noBigInts state.map := by
  have kept : RunKeeps noBigInts [.set (keyAt16 0) .null quiet]
      (new false) := by
    refine ⟨⟨fun _ member => absurd member List.not_mem_nil, ?_⟩, fun _ _ => trivial⟩
    intro _ _ _ _ _ _ _ _ _ _ _ _ _ collects
    cases collects
  obtain ⟨state, ran, consistent, _⟩ := weakStore_survives_iff noBigInts false _ kept
  exact ⟨state, ran, consistent⟩

private def eightKeys : List WeakOp :=
  (List.range 8).map (fun place => .set (keyAt16 place) .null quiet)

private def firstDead : Marking Obj :=
  { isMarked := fun object => decide (object ≠ .cell .object 16)
    gray := [] }

/-- The ninth key asks for a larger entry array, and the collection at that
allocation takes the first key out: the probe for the ninth now ends in front of
the slot it is stored at. -/
theorem ninth_key_lost :
    ¬∀ (bigints : BigIntCells) (isSet : Bool) (before : List WeakOp) (plan : Collections)
      (key value : Value) (state after : WeakCollection) (ran : List (Marking Obj)),
      run bigints before (new isSet) = some state →
      csMapSet bigints plan state key value = some (after, ran) →
      (∀ marking ∈ ran, isWhite marking key = false) →
      Survives bigints state.map after.map key value ran := by
  intro claim
  let plan : Collections := { quiet with entries := some firstDead }
  have lost : (((run noBigInts eightKeys (new false)).bind
      (fun state => csMapSet noBigInts plan state (keyAt16 8) (.bool true))).map
        (fun stored => (csMapGet noBigInts stored.1.map (keyAt16 8),
          stored.2.all (fun marking => !isWhite marking (keyAt16 8))))) =
      some (some none, true) := by
    decide +kernel
  obtain ⟨⟨after, ran⟩, stepped, seen⟩ := Option.map_eq_some_iff.mp lost
  obtain ⟨state, ranBefore, stored⟩ := Option.bind_eq_some_iff.mp stepped
  obtain ⟨missing, reachable⟩ := Prod.mk.inj seen
  have survives := claim noBigInts false eightKeys plan (keyAt16 8) (.bool true) state after ran
    ranBefore stored (fun marking member => by
      have alive := List.all_eq_true.mp reachable marking member
      rw [Bool.not_eq_true'] at alive
      exact alive)
  have found := survives.stored
  rw [missing] at found
  cases found

end WeakCollection

end CScript
