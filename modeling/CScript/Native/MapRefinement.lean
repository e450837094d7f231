/-
A strong Map refines an insertion-ordered list with SameValueZero keys.

The index invariant is about the entries already indexed, so that one lemma
serves a rebuild half way through as well as the finished index.
-/

import CScript.Foundation.OrderedMap
import CScript.Foundation.Refinement
import CScript.Native.Map
import Mathlib.Data.List.InsertIdx

namespace CScript

open Foundation

/-! ### The index -/

def freeSlot (index : List (Option Nat)) (slot : Nat) : Bool :=
  decide (index[slot]? = some none)

def homeOf (index : List (Option Nat)) (key : Value) : Nat :=
  LinearProbe.mask (hashValue key).toNat index.length

theorem homeOf_bound {index : List (Option Nat)} (power : ∃ exponent, index.length = 2 ^ exponent)
    (key : Value) : homeOf index key < index.length := by
  unfold homeOf
  rw [LinearProbe.mask_eq_mod power]
  obtain ⟨exponent, length⟩ := power
  exact Nat.mod_lt _ (by rw [length]; exact Nat.two_pow_pos exponent)

/-- The first `filled` entries are indexed, each at one slot that a probe for
its key reaches. -/
structure Indexed (entries : List MapEntry) (index : List (Option Nat)) (filled : Nat) :
    Prop where
  power : ∃ exponent, index.length = 2 ^ exponent
  bounded : ∀ (slot place : Nat), index[slot]? = some (some place) → place < filled
  once : ∀ left right place : Nat, index[left]? = some (some place) →
    index[right]? = some (some place) → left = right
  placed : ∀ (place : Nat) (entry : MapEntry), place < filled →
    entries[place]? = some entry → ∃ slot : Nat, index[slot]? = some (some place) ∧
      LinearProbe.Unobstructed index.length (freeSlot index) (homeOf index entry.key) slot
  counted : index.count none + filled = index.length

theorem Indexed.exists_free {entries : List MapEntry} {index : List (Option Nat)}
    {filled : Nat} (indexed : Indexed entries index filled) (room : filled < index.length) :
    ∃ slot : Nat, index[slot]? = some none := by
  have counted := indexed.counted
  have positive : 0 < index.count none := by omega
  exact List.mem_iff_getElem?.mp (List.count_pos_iff.mp positive)

theorem indexed_empty (entries : List MapEntry) (exponent : Nat) :
    Indexed entries (List.replicate (2 ^ exponent) none) 0 where
  power := ⟨exponent, List.length_replicate⟩
  bounded slot place here := by
    have wrong := List.mem_of_getElem? here
    rw [List.mem_replicate] at wrong
    cases wrong.2
  once left right place here _ := by
    have wrong := List.mem_of_getElem? here
    rw [List.mem_replicate] at wrong
    cases wrong.2
  placed place entry bound _ := absurd bound (Nat.not_lt_zero place)
  counted := by rw [List.count_replicate_self, List.length_replicate, Nat.add_zero]

theorem Indexed.insert {entries : List MapEntry} {index : List (Option Nat)} {filled slot : Nat}
    (indexed : Indexed entries index filled) {key : Value}
    (here : ∀ entry, entries[filled]? = some entry → entry.key = key)
    (free : index[slot]? = some none)
    (clear : LinearProbe.Unobstructed index.length (freeSlot index) (homeOf index key) slot) :
    Indexed entries (index.set slot (some filled)) (filled + 1) := by
  obtain ⟨bound, slotEq⟩ := List.getElem?_eq_some_iff.mp free
  have home : ∀ other, homeOf (index.set slot (some filled)) other = homeOf index other := by
    intro other
    unfold homeOf
    rw [List.length_set]
  have fewer : ∀ other, freeSlot (index.set slot (some filled)) other = true →
      freeSlot index other = true := by
    intro other stillFree
    unfold freeSlot at stillFree ⊢
    rw [decide_eq_true_eq, List.getElem?_set] at stillFree
    split at stillFree
    · cases stillFree
    · exact decide_eq_true stillFree
  have reads : ∀ other place : Nat, (index.set slot (some filled))[other]? = some (some place) →
      (other = slot ∧ place = filled) ∨ (other ≠ slot ∧ index[other]? = some (some place)) := by
    intro other place held
    rw [List.getElem?_set] at held
    split at held
    · rename_i same
      cases held
      exact Or.inl ⟨same.symm, rfl⟩
    · rename_i differ
      exact Or.inr ⟨Ne.symm differ, held⟩
  constructor
  · simpa only [List.length_set] using indexed.power
  · intro other place held
    rcases reads other place held with ⟨_, rfl⟩ | ⟨_, old⟩
    · exact Nat.lt_succ_self _
    · exact Nat.lt_succ_of_lt (indexed.bounded other place old)
  · intro left right place leftHeld rightHeld
    rcases reads left place leftHeld with ⟨leftEq, leftPlace⟩ | ⟨_, leftOld⟩ <;>
      rcases reads right place rightHeld with ⟨rightEq, rightPlace⟩ | ⟨_, rightOld⟩
    · rw [leftEq, rightEq]
    · exact absurd (indexed.bounded right place rightOld) (by omega)
    · exact absurd (indexed.bounded left place leftOld) (by omega)
    · exact indexed.once left right place leftOld rightOld
  · intro place entry placeBound entryHere
    simp only [List.length_set, home]
    by_cases new : place = filled
    · subst new
      rw [here entry entryHere]
      exact ⟨slot, List.getElem?_set_self bound, clear.mono fewer⟩
    · obtain ⟨old, oldHere, oldClear⟩ := indexed.placed place entry (by omega) entryHere
      refine ⟨old, ?_, oldClear.mono fewer⟩
      have apart : slot ≠ old := by
        intro same
        rw [← same, free] at oldHere
        cases oldHere
      rw [List.getElem?_set_ne apart, oldHere]
  · have counted := indexed.counted
    rw [List.length_set, List.count_set bound, slotEq]
    have positive : 0 < index.count none := List.count_pos_iff.mpr (List.mem_of_getElem? free)
    simp only [BEq.rfl, if_true, reduceCtorEq, beq_iff_eq, if_false]
    omega

theorem Indexed.congr {entries other : List MapEntry} {index : List (Option Nat)} {filled : Nat}
    (indexed : Indexed entries index filled)
    (keys : ∀ place : Nat, place < filled → ∀ entry, other[place]? = some entry →
      ∃ held, entries[place]? = some held ∧ held.key = entry.key) :
    Indexed other index filled where
  power := indexed.power
  bounded := indexed.bounded
  once := indexed.once
  placed place entry bound here := by
    obtain ⟨held, heldHere, keyEq⟩ := keys place bound entry here
    rw [← keyEq]
    exact indexed.placed place held bound heldHere
  counted := indexed.counted

/-! ### Probing -/

section

variable {bigints : BigIntCells}

def matchesAt (bigints : BigIntCells) (map : ObjMap) (key : Value) (slot : Nat) : Bool :=
  match map.index[slot]? with
  | some (some place) =>
      map.entries[place]?.any (fun entry =>
        entry.present && csValuesSameValueZero bigints entry.key key)
  | _ => false

private theorem findSlotLoop_eq_scan {map : ObjMap}
    (power : ∃ exponent, map.index.length = 2 ^ exponent)
    (bounded : ∀ slot place : Nat, map.index[slot]? = some (some place) → place < map.count)
    (key : Value) :
    ∀ (fuel slot : Nat), slot < map.index.length →
      findSlotLoop bigints map key fuel slot =
        LinearProbe.scan map.index.length
          (fun other => freeSlot map.index other || matchesAt bigints map key other) fuel slot
  | 0, _, _ => rfl
  | fuel + 1, slot, bound => by
      have nextBound : (slot + 1) % map.index.length < map.index.length :=
        Nat.mod_lt _ (Nat.lt_of_le_of_lt (Nat.zero_le slot) bound)
      have ih := findSlotLoop_eq_scan power bounded key fuel
        ((slot + 1) % map.index.length) nextBound
      unfold findSlotLoop LinearProbe.scan
      cases here : map.index[slot]? with
      | none =>
          exact absurd bound (Nat.not_lt.mpr (List.getElem?_eq_none_iff.mp here))
      | some held =>
          cases held with
          | none =>
              have free : freeSlot map.index slot = true := decide_eq_true here
              simp only [free, Bool.true_or, if_true]
          | some place =>
              have notFree : freeSlot map.index slot = false := by
                unfold freeSlot
                rw [here]
                rfl
              have placeBound : place < map.entries.length := bounded slot place here
              have entryHere := List.getElem?_eq_getElem placeBound
              have tested : matchesAt bigints map key slot =
                  (map.entries[place].present &&
                    csValuesSameValueZero bigints map.entries[place].key key) := by
                unfold matchesAt
                rw [here]
                simp only [entryHere, Option.any_some]
              simp only [entryHere, notFree, Bool.false_or, tested, LinearProbe.mask_eq_mod
                power, ObjMap.indexCapacity]
              split
              · rfl
              · exact ih

theorem findSlot_scans {map : ObjMap} (power : ∃ exponent, map.index.length = 2 ^ exponent)
    (bounded : ∀ slot place : Nat, map.index[slot]? = some (some place) → place < map.count)
    (key : Value) :
    findSlot bigints map key =
      LinearProbe.scan map.index.length
        (fun other => freeSlot map.index other || matchesAt bigints map key other)
        map.index.length (homeOf map.index key) :=
  findSlotLoop_eq_scan power bounded key _ _ (homeOf_bound power key)

private theorem findSlot_eq_scan {map : ObjMap} {filled : Nat}
    (indexed : Indexed map.entries map.index filled) (stored : filled ≤ map.count)
    (key : Value) :
    findSlot bigints map key =
      LinearProbe.scan map.index.length
        (fun other => freeSlot map.index other || matchesAt bigints map key other)
        map.index.length (homeOf map.index key) :=
  findSlot_scans indexed.power
    (fun slot place here => Nat.lt_of_lt_of_le (indexed.bounded slot place here) stored) key

theorem findSlot_present {map : ObjMap} {filled place : Nat}
    (indexed : Indexed map.entries map.index filled) (stored : filled ≤ map.count)
    (distinct : ∀ (left right : Nat) (one other : MapEntry), left < filled → right < filled →
      map.entries[left]? = some one → map.entries[right]? = some other →
      csValuesSameValueZero bigints one.key other.key = true → left = right)
    (bound : place < filled) {entry : MapEntry} (here : map.entries[place]? = some entry)
    (present : entry.present = true) {key : Value}
    (same : csValuesSameValueZero bigints entry.key key = true)
    (coherent : hashValue entry.key = hashValue key) :
    ∃ slot : Nat, findSlot bigints map key = some slot ∧
      map.index[slot]? = some (some place) := by
  obtain ⟨slot, slotHere, clear⟩ := indexed.placed place entry bound here
  have equiv := sameValueZero_equivalence bigints
  have home : homeOf map.index entry.key = homeOf map.index key := by
    unfold homeOf
    rw [coherent]
  have matched : matchesAt bigints map key slot = true := by
    unfold matchesAt
    rw [slotHere]
    simp only [here, Option.any_some, present, same, Bool.and_self]
  have unique : ∀ other, other < map.index.length → matchesAt bigints map key other = true →
      other = slot := by
    intro other _ otherMatched
    unfold matchesAt at otherMatched
    split at otherMatched
    · rename_i otherPlace otherHere
      have otherBound := indexed.bounded other otherPlace otherHere
      have otherEntry := List.getElem?_eq_getElem (Nat.lt_of_lt_of_le otherBound stored)
      rw [otherEntry, Option.any_some, Bool.and_eq_true] at otherMatched
      have samePlace := distinct otherPlace place _ entry otherBound bound otherEntry here
        (equiv.trans otherMatched.2 (equiv.symm same))
      subst samePlace
      exact indexed.once other slot _ otherHere slotHere
    · cases otherMatched
  refine ⟨slot, ?_, slotHere⟩
  rw [findSlot_eq_scan indexed stored key]
  exact LinearProbe.scan_finds_match (freeSlot map.index)
    (matchesAt bigints map key) (homeOf_bound indexed.power key)
    (List.getElem?_eq_some_iff.mp slotHere).1 matched unique (home ▸ clear)

/-- A probe for a key that is not among the indexed entries ends at a free slot
that nothing free precedes. -/
theorem findSlot_absent (map : ObjMap) {filled : Nat}
    (indexed : Indexed map.entries map.index filled) (stored : filled ≤ map.count)
    (room : filled < map.index.length) (key : Value)
    (absent : ∀ (place : Nat) (entry : MapEntry), place < filled →
      map.entries[place]? = some entry →
      csValuesSameValueZero bigints entry.key key = false) :
    ∃ slot : Nat, findSlot bigints map key = some slot ∧ map.index[slot]? = some none ∧
      LinearProbe.Unobstructed map.index.length (freeSlot map.index)
        (homeOf map.index key) slot := by
  obtain ⟨free, freeHere⟩ := indexed.exists_free room
  have freeStops : freeSlot map.index free = true := decide_eq_true freeHere
  obtain ⟨slot, found, slotBound, stopped, clear⟩ := LinearProbe.scan_stops
    (fun other => freeSlot map.index other || matchesAt bigints map key other)
    (homeOf_bound indexed.power key) (List.getElem?_eq_some_iff.mp freeHere).1
    (by simp only [freeStops, Bool.true_or])
  have noMatch : matchesAt bigints map key slot = false := by
    unfold matchesAt
    split
    · rename_i place placeHere
      have placeBound := indexed.bounded slot place placeHere
      have entryHere := List.getElem?_eq_getElem (Nat.lt_of_lt_of_le placeBound stored)
      rw [entryHere, Option.any_some, absent place _ placeBound entryHere, Bool.and_false]
    · rfl
  rw [noMatch, Bool.or_false] at stopped
  refine ⟨slot, ?_, of_decide_eq_true stopped, clear.mono ?_⟩
  · rw [findSlot_eq_scan indexed stored key]
    exact found
  · intro other otherFree
    simp only [otherFree, Bool.true_or]

/-! ### Rebuilding the index -/

private theorem indexEntries_spec {entries : List MapEntry}
    (distinct : entries.Pairwise (fun left right =>
      csValuesSameValueZero bigints left.key right.key = false)) :
    ∀ (steps filled : Nat) (map : ObjMap), map.entries = entries →
      filled + steps = entries.length → entries.length < map.index.length →
      Indexed entries map.index filled →
      ∃ index, indexEntries bigints steps filled map = some { map with index := index } ∧
        index.length = map.index.length ∧ Indexed entries index entries.length
  | 0, filled, map, entriesEq, all, room, indexed => by
      have done : filled = entries.length := by omega
      exact ⟨map.index, rfl, rfl, done ▸ indexed⟩
  | steps + 1, filled, map, entriesEq, all, room, indexed => by
      have bound : filled < entries.length := by omega
      have here := List.getElem?_eq_getElem bound
      have absent : ∀ (place : Nat) (entry : MapEntry), place < filled →
          map.entries[place]? = some entry →
          csValuesSameValueZero bigints entry.key entries[filled].key = false := by
        intro place entry earlier entryHere
        rw [entriesEq] at entryHere
        obtain ⟨placeBound, entryEq⟩ := List.getElem?_eq_some_iff.mp entryHere
        rw [← entryEq]
        exact List.pairwise_iff_getElem.mp distinct place filled placeBound bound earlier
      obtain ⟨slot, found, free, clear⟩ := findSlot_absent map
        (entriesEq ▸ indexed) (by unfold ObjMap.count; rw [entriesEq]; omega)
        (by omega) entries[filled].key absent
      have grown := indexed.insert
        (fun entry entryHere => by rw [here] at entryHere; cases entryHere; rfl) free clear
      obtain ⟨index, ran, length, full⟩ := indexEntries_spec distinct steps (filled + 1)
        { map with index := map.index.set slot (some filled) } entriesEq (by omega)
        (by rw [List.length_set]; exact room) grown
      refine ⟨index, ?_, by rw [length, List.length_set], full⟩
      unfold indexEntries
      have entryHere : map.entries[filled]? = some entries[filled] := by rw [entriesEq]; exact here
      simp only [entryHere, found, Option.bind_eq_bind, Option.bind_some]
      exact ran

theorem rehash_spec (map : ObjMap) (exponent : Nat)
    (distinct : (compactEntries map.entries).Pairwise (fun left right =>
      csValuesSameValueZero bigints left.key right.key = false))
    (room : (compactEntries map.entries).length < 2 ^ exponent) :
    ∃ index, rehash bigints map (2 ^ exponent) =
        some { map with entries := compactEntries map.entries, index := index } ∧
      index.length = 2 ^ exponent ∧
      Indexed (compactEntries map.entries) index (compactEntries map.entries).length := by
  obtain ⟨index, ran, length, indexed⟩ := indexEntries_spec distinct
    (compactEntries map.entries).length 0
    { map with
      entries := compactEntries map.entries
      index := List.replicate (2 ^ exponent) none }
    rfl (Nat.zero_add _) (by rw [List.length_replicate]; exact room)
    (indexed_empty _ exponent)
  refine ⟨index, ran, ?_, indexed⟩
  rw [length, List.length_replicate]

theorem indexEntries_fields : ∀ {steps i : Nat} {map after : ObjMap},
    indexEntries bigints steps i map = some after →
      after = { map with index := after.index } ∧ after.index.length = map.index.length
  | 0, _, _, _, ran => by
      cases ran
      exact ⟨rfl, rfl⟩
  | steps + 1, i, map, after, ran => by
      obtain ⟨entry, _, ran⟩ := Option.bind_eq_some_iff.mp ran
      obtain ⟨slot, _, ran⟩ := Option.bind_eq_some_iff.mp ran
      obtain ⟨fields, length⟩ := indexEntries_fields ran
      exact ⟨fields, length.trans List.length_set⟩

theorem rehash_fields {map after : ObjMap} {indexCapacity : Nat}
    (ran : rehash bigints map indexCapacity = some after) :
    after = { map with entries := compactEntries map.entries, index := after.index } ∧
      after.index.length = indexCapacity := by
  obtain ⟨fields, length⟩ := indexEntries_fields ran
  exact ⟨fields, length.trans List.length_replicate⟩

theorem csMapReindexInPlace_eq_rehash (map : ObjMap) (some_ : map.indexCapacity ≠ 0) :
    csMapReindexInPlace bigints map = rehash bigints map map.indexCapacity := by
  unfold csMapReindexInPlace rehash
  rw [if_neg some_]

end

/-! ### What a map holds -/

def entryOf (item : Value × Value) : MapEntry :=
  { key := item.1
    value := item.2
    present := true }

/-- The map is the ordered list `items`: its entries in order, all present and
indexed, with a quarter of the index free. -/
structure MapHolds (bigints : BigIntCells) (map : ObjMap) (items : List (Value × Value)) :
    Prop where
  entries : map.entries = items.map entryOf
  live : map.liveCount = items.length
  distinct : OrderedMap.Distinct (csValuesSameValueZero bigints) items
  index : (map.index = [] ∧ items = []) ∨
    (Indexed map.entries map.index items.length ∧ 8 ≤ map.index.length ∧
      4 * items.length ≤ 3 * map.index.length)

theorem csMapNew_holds (bigints : BigIntCells) (isSet : Bool) :
    MapHolds bigints (csMapNew isSet) [] where
  entries := rfl
  live := rfl
  distinct := List.Pairwise.nil
  index := Or.inl ⟨rfl, rfl⟩

section

variable {bigints : BigIntCells} {map : ObjMap} {items : List (Value × Value)}

theorem compactEntries_map (items : List (Value × Value)) :
    compactEntries (items.map entryOf) = items.map entryOf := by
  unfold compactEntries
  rw [List.filter_eq_self]
  intro entry member
  obtain ⟨item, _, rfl⟩ := List.mem_map.mp member
  rfl

theorem compactEntries_set {entries : List MapEntry} (present : ∀ entry ∈ entries, entry.present) :
    ∀ place, place < entries.length →
      compactEntries (entries.set place
          { key := .undefined, value := .undefined, present := false }) =
        entries.eraseIdx place := by
  induction entries with
  | nil => intro place bound; cases bound
  | cons entry rest ih =>
      have restPresent : ∀ later ∈ rest, later.present :=
        fun later member => present later (List.mem_cons_of_mem _ member)
      intro place bound
      cases place with
      | zero => exact List.filter_eq_self.mpr restPresent
      | succ place =>
          have later := ih restPresent place (Nat.lt_of_succ_lt_succ bound)
          rw [List.set_cons_succ, List.eraseIdx_cons_succ, ← later]
          exact List.filter_cons_of_pos (present entry List.mem_cons_self)

theorem compactEntries_cleared (items : List (Value × Value)) (place : Nat)
    (bound : place < items.length) :
    compactEntries ((items.map entryOf).set place
        { key := .undefined, value := .undefined, present := false }) =
      (items.eraseIdx place).map entryOf := by
  rw [← List.eraseIdx_map]
  refine compactEntries_set ?_ place (by rw [List.length_map]; exact bound)
  intro entry member
  obtain ⟨item, _, rfl⟩ := List.mem_map.mp member
  rfl

theorem distinct_entries (distinct : OrderedMap.Distinct (csValuesSameValueZero bigints) items) :
    (items.map entryOf).Pairwise (fun left right =>
      csValuesSameValueZero bigints left.key right.key = false) := by
  rw [List.pairwise_map]
  exact distinct

theorem MapHolds.count (holds : MapHolds bigints map items) : map.count = items.length := by
  unfold ObjMap.count
  rw [holds.entries, List.length_map]

theorem MapHolds.entry_at (holds : MapHolds bigints map items) {place : Nat} {entry : MapEntry}
    (here : map.entries[place]? = some entry) :
    ∃ item, items[place]? = some item ∧ entry = entryOf item := by
  rw [holds.entries, List.getElem?_map] at here
  obtain ⟨item, itemHere, entryEq⟩ := Option.map_eq_some_iff.mp here
  exact ⟨item, itemHere, entryEq.symm⟩

def CoherentWith (bigints : BigIntCells) (items : List (Value × Value)) (key : Value) : Prop :=
  ∀ item ∈ items, csValuesSameValueZero bigints item.1 key = true →
    hashValue item.1 = hashValue key

theorem HashRespects.coherentWith (respects : HashRespects bigints)
    (items : List (Value × Value)) (key : Value) : CoherentWith bigints items key :=
  fun item _ => respects item.1 key

/-- With an index at all, a probe answers the place of the entry that the list
finds, or a free slot when the list has none. -/
theorem MapHolds.findSlot (holds : MapHolds bigints map items) {key : Value}
    (coherent : CoherentWith bigints items key)
    (indexed : Indexed map.entries map.index items.length)
    (room : items.length < map.index.length) :
    (∃ (slot place : Nat) (item : Value × Value), CScript.findSlot bigints map key = some slot ∧
        map.index[slot]? = some (some place) ∧ items[place]? = some item ∧
        csValuesSameValueZero bigints item.1 key = true) ∨
      (∃ slot : Nat, CScript.findSlot bigints map key = some slot ∧
        map.index[slot]? = some none ∧
        LinearProbe.Unobstructed map.index.length (freeSlot map.index)
          (homeOf map.index key) slot ∧
        OrderedMap.lookup (csValuesSameValueZero bigints) items key = none) := by
  have stored : items.length ≤ map.count := Nat.le_of_eq holds.count.symm
  cases found : OrderedMap.lookup (csValuesSameValueZero bigints) items key with
  | some value =>
      left
      obtain ⟨item, member, same⟩ : ∃ item ∈ items,
          csValuesSameValueZero bigints item.1 key = true := by
        by_contra missing
        push Not at missing
        rw [OrderedMap.lookup_eq_none_iff.mpr (fun item member =>
          Bool.eq_false_iff.mpr (missing item member))] at found
        cases found
      obtain ⟨place, here⟩ := List.mem_iff_getElem?.mp member
      have entryHere : map.entries[place]? = some (entryOf item) := by
        rw [holds.entries, List.getElem?_map, here, Option.map_some]
      obtain ⟨slot, ran, slotHere⟩ := findSlot_present indexed stored
        (by
          intro one other oneEntry otherEntry _ _ oneHere otherHere sameKeys
          have equiv := sameValueZero_equivalence bigints
          have pairwise := List.pairwise_iff_getElem.mp (distinct_entries holds.distinct)
          rw [holds.entries] at oneHere otherHere
          obtain ⟨oneBound, oneEq⟩ := List.getElem?_eq_some_iff.mp oneHere
          obtain ⟨otherBound, otherEq⟩ := List.getElem?_eq_some_iff.mp otherHere
          rcases Nat.lt_trichotomy one other with less | equal | greater
          · have apart := pairwise one other oneBound otherBound less
            rw [oneEq, otherEq, sameKeys] at apart
            cases apart
          · exact equal
          · have apart := pairwise other one otherBound oneBound greater
            rw [oneEq, otherEq, equiv.symm sameKeys] at apart
            cases apart)
        (List.getElem?_eq_some_iff.mp here).1 entryHere rfl same (coherent item member same)
      exact ⟨slot, place, item, ran, slotHere, here, same⟩
  | none =>
      right
      obtain ⟨slot, ran, free, clear⟩ := findSlot_absent map indexed stored room key
        (by
          intro place entry _ here
          obtain ⟨item, itemHere, rfl⟩ := holds.entry_at here
          exact OrderedMap.lookup_eq_none_iff.mp found item (List.mem_of_getElem? itemHere))
      exact ⟨slot, ran, free, clear, rfl⟩

/-! ### The operations -/

theorem csMapGet_coherent (holds : MapHolds bigints map items) {key : Value}
    (coherent : CoherentWith bigints items key) :
    csMapGet bigints map key =
      some (OrderedMap.lookup (csValuesSameValueZero bigints) items key) := by
  unfold csMapGet ObjMap.indexCapacity
  rcases holds.index with ⟨noIndex, noItems⟩ | ⟨indexed, wide, load⟩
  · rw [noIndex, noItems]
    rfl
  · rw [if_neg (by omega)]
    rcases holds.findSlot coherent indexed (by omega) with
      ⟨slot, place, item, ran, slotHere, here, same⟩ | ⟨slot, ran, free, _, absent⟩
    · have entryHere : map.entries[place]? = some (entryOf item) := by
        rw [holds.entries, List.getElem?_map, here, Option.map_some]
      rw [OrderedMap.lookup_of_index (sameValueZero_equivalence bigints) holds.distinct
        here same]
      simp only [ran, slotHere, entryHere, Option.bind_eq_bind, Option.bind_some,
        Option.pure_def, entryOf]
    · rw [absent]
      simp only [ran, free, Option.bind_eq_bind, Option.bind_some, Option.pure_def]

theorem csMapGet_eq (respects : HashRespects bigints) (holds : MapHolds bigints map items)
    (key : Value) :
    csMapGet bigints map key =
      some (OrderedMap.lookup (csValuesSameValueZero bigints) items key) :=
  csMapGet_coherent holds (respects.coherentWith items key)

theorem csMapHas_eq (respects : HashRespects bigints) (holds : MapHolds bigints map items)
    (key : Value) :
    csMapHas bigints map key =
      some (OrderedMap.lookup (csValuesSameValueZero bigints) items key).isSome := by
  unfold csMapHas
  rw [csMapGet_eq respects holds key]
  rfl

private theorem openIndex_spec (holds : MapHolds bigints map items) :
    ∃ opened, openIndex bigints map = some opened ∧
      opened.isSet = map.isSet ∧ opened.isWeak = map.isWeak ∧
      MapHolds bigints opened items ∧ Indexed opened.entries opened.index items.length ∧
      8 ≤ opened.index.length ∧ 4 * items.length ≤ 3 * opened.index.length := by
  unfold openIndex ObjMap.indexCapacity
  rcases holds.index with ⟨noIndex, noItems⟩ | ⟨indexed, wide, load⟩
  · subst noItems
    have noEntries : map.entries = [] := holds.entries
    obtain ⟨index, ran, length, indexed⟩ := rehash_spec map 3
      (by rw [noEntries]; exact List.Pairwise.nil)
      (by rw [noEntries]; decide)
    rw [noEntries] at ran indexed
    rw [noIndex, if_pos List.length_nil]
    refine ⟨_, ran, rfl, rfl, ⟨rfl, holds.live, holds.distinct, Or.inr ⟨indexed, ?_, ?_⟩⟩,
      indexed, ?_, ?_⟩ <;> simp only [length] <;> decide
  · rw [if_neg (by omega)]
    exact ⟨map, rfl, rfl, rfl, holds, indexed, wide, load⟩

theorem appendEntry_holds (holds : MapHolds bigints map items)
    (indexed : Indexed map.entries map.index items.length) (wide : 8 ≤ map.index.length)
    {slot : Nat} {key : Value} (free : map.index[slot]? = some none)
    (clear : LinearProbe.Unobstructed map.index.length (freeSlot map.index)
      (homeOf map.index key) slot)
    (absent : OrderedMap.lookup (csValuesSameValueZero bigints) items key = none)
    (room : 4 * (items.length + 1) ≤ 3 * map.index.length) (value : Value) :
    MapHolds bigints (appendEntry map slot key value)
      (OrderedMap.put (csValuesSameValueZero bigints) items key value) := by
  have putEq := OrderedMap.put_of_absent absent value
  have distinct := holds.distinct.put key value
  rw [putEq] at distinct ⊢
  have entriesEq : (appendEntry map slot key value).entries =
      (items ++ [(key, value)]).map entryOf := by
    rw [List.map_append, ← holds.entries]
    rfl
  have last : (appendEntry map slot key value).entries[items.length]? =
      some (entryOf (key, value)) := by
    rw [entriesEq, List.getElem?_map, List.getElem?_concat_length, Option.map_some]
  have kept : Indexed (appendEntry map slot key value).entries map.index items.length := by
    apply indexed.congr
    intro place bound entry here
    refine ⟨entry, ?_, rfl⟩
    have inside : place < map.entries.length := by rw [holds.entries, List.length_map]; exact bound
    rw [← here]
    exact (List.getElem?_append_left inside).symm
  have grown := kept.insert
    (fun entry here => by rw [last] at here; cases here; rfl) free clear
  refine ⟨entriesEq, ?_, distinct, Or.inr ⟨?_, ?_, ?_⟩⟩
  · rw [List.length_append]
    show map.liveCount + 1 = _
    rw [holds.live]
    rfl
  · rw [List.length_append]
    show Indexed _ (map.index.set slot (some map.count)) _
    rw [holds.count]
    exact grown
  · show 8 ≤ (map.index.set slot (some map.count)).length
    rw [List.length_set]
    exact wide
  · show _ ≤ 3 * (map.index.set slot (some map.count)).length
    rw [List.length_set, List.length_append]
    exact room

theorem overwrite_holds (holds : MapHolds bigints map items)
    (indexed : Indexed map.entries map.index items.length) (wide : 8 ≤ map.index.length)
    (load : 4 * items.length ≤ 3 * map.index.length) {place : Nat} {item : Value × Value}
    {key : Value} (here : items[place]? = some item)
    (same : csValuesSameValueZero bigints item.1 key = true) (value : Value) :
    MapHolds bigints
      { map with entries := map.entries.set place { entryOf item with value := value } }
      (OrderedMap.put (csValuesSameValueZero bigints) items key value) := by
  have entryHere : map.entries[place]? = some (entryOf item) := by
    rw [holds.entries, List.getElem?_map, here, Option.map_some]
  have putEq := OrderedMap.put_of_index (sameValueZero_equivalence bigints)
    holds.distinct here same value
  have putDistinct := holds.distinct.put key value
  have entriesEq : map.entries.set place { entryOf item with value := value } =
      (items.set place (item.1, value)).map entryOf := by
    rw [holds.entries, List.map_set]
    rfl
  rw [putEq] at putDistinct ⊢
  refine ⟨entriesEq, ?_, putDistinct, Or.inr ⟨?_, wide, ?_⟩⟩
  · rw [List.length_set]
    exact holds.live
  · rw [List.length_set]
    apply indexed.congr
    intro other _ entry otherHere
    rw [List.getElem?_set] at otherHere
    split at otherHere
    · rename_i atPlace
      subst atPlace
      split at otherHere
      · cases otherHere
        exact ⟨entryOf item, entryHere, rfl⟩
      · cases otherHere
    · exact ⟨entry, otherHere, rfl⟩
  · rw [List.length_set]
    exact load

theorem csMapSet_spec (respects : HashRespects bigints) (holds : MapHolds bigints map items)
    (key value : Value) :
    ∃ after, csMapSet bigints map key value = some after ∧
      after.isSet = map.isSet ∧ after.isWeak = map.isWeak ∧
      MapHolds bigints after
        (OrderedMap.put (csValuesSameValueZero bigints) items key value) := by
  obtain ⟨opened, ranOpen, isSet, isWeak, openHolds, indexed, wide, load⟩ := openIndex_spec holds
  unfold csMapSet
  simp only [ranOpen, Option.bind_eq_bind, Option.bind_some]
  rw [← isSet, ← isWeak]
  rcases openHolds.findSlot (respects.coherentWith items key) indexed (by omega) with
    ⟨slot, place, item, ran, slotHere, here, same⟩ | ⟨slot, ran, free, clear, absent⟩
  · have entryHere : opened.entries[place]? = some (entryOf item) := by
      rw [openHolds.entries, List.getElem?_map, here, Option.map_some]
    simp only [ran, slotHere, entryHere, Option.bind_some, Option.pure_def]
    exact ⟨_, rfl, rfl, rfl, overwrite_holds openHolds indexed wide load here same value⟩
  · simp only [ran, free, Option.bind_some, openHolds.count]
    by_cases full : 4 * (items.length + 1) > 3 * opened.indexCapacity
    · obtain ⟨exponent, capacity⟩ := indexed.power
      have doubled : opened.indexCapacity * 2 = 2 ^ (exponent + 1) := by
        unfold ObjMap.indexCapacity
        rw [capacity, Nat.pow_succ]
      have compacted : compactEntries opened.entries = opened.entries := by
        rw [openHolds.entries, compactEntries_map]
      have entryCount : opened.entries.length = items.length := openHolds.count
      obtain ⟨index, ranRehash, length, grownIndexed⟩ := rehash_spec
        opened (exponent + 1)
        (by rw [compacted, openHolds.entries]; exact distinct_entries openHolds.distinct)
        (by rw [compacted, entryCount, Nat.pow_succ]; omega)
      rw [compacted] at ranRehash grownIndexed
      rw [entryCount] at grownIndexed
      have length' : index.length = 2 * opened.index.length := by
        rw [length, capacity, Nat.pow_succ, Nat.mul_comm]
      have grownHolds : MapHolds bigints { opened with index := index } items :=
        ⟨openHolds.entries, openHolds.live, openHolds.distinct,
          Or.inr ⟨grownIndexed, by simp only; omega, by simp only; omega⟩⟩
      obtain ⟨newSlot, ranNew, newFree, newClear⟩ := findSlot_absent
        { opened with index := index } grownIndexed (Nat.le_of_eq grownHolds.count.symm)
        (by simp only; omega) key
        (by
          intro other entry _ otherHere
          obtain ⟨item, itemHere, rfl⟩ := grownHolds.entry_at otherHere
          exact OrderedMap.lookup_eq_none_iff.mp absent item (List.mem_of_getElem? itemHere))
      rw [if_pos full, doubled, ranRehash]
      simp only [Option.bind_some, ranNew, Option.pure_def]
      exact ⟨_, rfl, rfl, rfl, appendEntry_holds grownHolds grownIndexed
        (by simp only; omega) newFree newClear absent (by simp only; omega) value⟩
    · rw [if_neg full]
      exact ⟨_, rfl, rfl, rfl, appendEntry_holds openHolds indexed wide free clear absent
        (Nat.not_lt.mp full) value⟩

theorem csMapDelete_spec (respects : HashRespects bigints) (holds : MapHolds bigints map items)
    (key : Value) :
    ∃ after, csMapDelete bigints map key =
        some (after, (OrderedMap.lookup (csValuesSameValueZero bigints) items key).isSome) ∧
      after.isSet = map.isSet ∧ after.isWeak = map.isWeak ∧
      MapHolds bigints after
        (OrderedMap.erase (csValuesSameValueZero bigints) items key) := by
  unfold csMapDelete
  rcases holds.index with ⟨noIndex, noItems⟩ | ⟨indexed, wide, load⟩
  · unfold ObjMap.indexCapacity
    rw [noIndex, if_pos List.length_nil]
    rw [noItems] at holds ⊢
    exact ⟨map, rfl, rfl, rfl, holds⟩
  · have someIndex : map.indexCapacity ≠ 0 := by unfold ObjMap.indexCapacity; omega
    rw [if_neg someIndex]
    rcases holds.findSlot (respects.coherentWith items key) indexed (by omega) with
      ⟨slot, place, item, ran, slotHere, here, same⟩ | ⟨slot, ran, free, _, absent⟩
    · have equiv := sameValueZero_equivalence bigints
      have erased := OrderedMap.erase_of_index equiv holds.distinct
        here same
      have erasedDistinct := holds.distinct.erase key
      rw [OrderedMap.lookup_of_index equiv holds.distinct here same]
      rw [erased] at erasedDistinct ⊢
      have placeBound := (List.getElem?_eq_some_iff.mp here).1
      have compacted : compactEntries (map.entries.set place
          { key := .undefined, value := .undefined, present := false }) =
          (items.eraseIdx place).map entryOf := by
        rw [holds.entries]
        exact compactEntries_cleared items place placeBound
      obtain ⟨exponent, capacity⟩ := indexed.power
      have erasedLength : (items.eraseIdx place).length = items.length - 1 :=
        List.length_eraseIdx_of_lt placeBound
      obtain ⟨index, ranRehash, length, newIndexed⟩ := rehash_spec
        { map with
          entries := map.entries.set place
            { key := .undefined, value := .undefined, present := false }
          liveCount := map.liveCount - 1 }
        exponent
        (by rw [compacted]; exact distinct_entries erasedDistinct)
        (by rw [compacted, List.length_map, erasedLength, ← capacity]; omega)
      rw [compacted] at ranRehash newIndexed
      rw [List.length_map] at newIndexed
      have width : map.indexCapacity = 2 ^ exponent := capacity
      simp only [ran, slotHere, width, ranRehash, Option.bind_eq_bind, Option.bind_some,
        Option.pure_def, Option.isSome_some]
      refine ⟨_, rfl, rfl, rfl, ⟨rfl, ?_, erasedDistinct, Or.inr ⟨newIndexed, ?_, ?_⟩⟩⟩
      · simp only [holds.live, erasedLength]
        omega
      · simp only [length, ← capacity]
        exact wide
      · simp only [length, ← capacity, erasedLength]
        omega
    · rw [absent, OrderedMap.erase_of_absent absent]
      simp only [ran, free, Option.bind_eq_bind, Option.bind_some, Option.pure_def,
        Option.isSome_none]
      exact ⟨map, rfl, rfl, rfl, holds⟩

theorem csMapClear_holds (holds : MapHolds bigints map items) :
    MapHolds bigints (csMapClear map) [] := by
  refine ⟨rfl, rfl, List.Pairwise.nil, ?_⟩
  unfold csMapClear ObjMap.indexCapacity
  rcases holds.index with ⟨noIndex, _⟩ | ⟨indexed, wide, _⟩
  · left
    rw [noIndex]
    exact ⟨rfl, rfl⟩
  · right
    obtain ⟨exponent, capacity⟩ := indexed.power
    simp only [List.length_replicate, capacity, List.length_nil, Nat.mul_zero, Nat.zero_le,
      and_true]
    exact ⟨indexed_empty [] exponent, capacity ▸ wide⟩

end

/-! ### Runs -/

inductive MapOp where
  | set (key value : Value)
  | get (key : Value)
  | has (key : Value)
  | delete (key : Value)
  | clear
  | toArray
  | collect (want : Want)

inductive MapAnswer where
  | value (found : Option Value)
  | flag (answer : Bool)
  | elements (elements : List Element)
  | done

def stepMap (bigints : BigIntCells) (map : ObjMap) : MapOp → Option (ObjMap × MapAnswer)
  | .set key value => do
      let after ← csMapSet bigints map key value
      return (after, .done)
  | .get key => do
      let found ← csMapGet bigints map key
      return (map, .value found)
  | .has key => do
      let found ← csMapHas bigints map key
      return (map, .flag found)
  | .delete key => do
      let (after, removed) ← csMapDelete bigints map key
      return (after, .flag removed)
  | .clear => some (csMapClear map, .done)
  | .toArray => some (map, .elements (csMapToArray map))
  | .collect want => some (map, .elements (CScript.collect map want))

def wanted : Want → Value × Value → Element
  | .keys, item => .value item.1
  | .values, item => .value item.2
  | .entries, item => .pair item.1 item.2

def stepItems (bigints : BigIntCells) (isSet : Bool) (items : List (Value × Value)) :
    MapOp → List (Value × Value) × MapAnswer
  | .set key value => (OrderedMap.put (csValuesSameValueZero bigints) items key value, .done)
  | .get key => (items, .value (OrderedMap.lookup (csValuesSameValueZero bigints) items key))
  | .has key =>
      (items, .flag (OrderedMap.lookup (csValuesSameValueZero bigints) items key).isSome)
  | .delete key =>
      (OrderedMap.erase (csValuesSameValueZero bigints) items key,
        .flag (OrderedMap.lookup (csValuesSameValueZero bigints) items key).isSome)
  | .clear => ([], .done)
  | .toArray => (items, .elements (items.map (wanted (if isSet then .keys else .entries))))
  | .collect want => (items, .elements (items.map (wanted want)))

theorem csMapToArray_eq {bigints : BigIntCells} {map : ObjMap} {items : List (Value × Value)}
    (holds : MapHolds bigints map items) :
    csMapToArray map = items.map (wanted (if map.isSet then .keys else .entries)) := by
  unfold csMapToArray
  rw [holds.entries, compactEntries_map, List.map_map]
  cases map.isSet <;> rfl

theorem collect_eq {bigints : BigIntCells} {map : ObjMap} {items : List (Value × Value)}
    (holds : MapHolds bigints map items) (want : Want) :
    collect map want = items.map (wanted want) := by
  unfold collect
  rw [holds.entries, compactEntries_map, List.map_map]
  cases want <;> rfl

theorem stepMap_refines {bigints : BigIntCells} (respects : HashRespects bigints)
    (isSet : Bool) :
    Refinement.Refines (stepMap bigints) (stepItems bigints isSet)
      (fun map items => map.isSet = isSet ∧ MapHolds bigints map items) := by
  intro map items op related
  obtain ⟨kind, holds⟩ := related
  cases op with
  | set key value =>
      obtain ⟨after, ran, sameKind, _, afterHolds⟩ := csMapSet_spec respects holds key value
      exact ⟨after, by simp [stepMap, stepItems, ran], sameKind.trans kind, afterHolds⟩
  | get key =>
      exact ⟨map, by simp [stepMap, stepItems, csMapGet_eq respects holds], kind, holds⟩
  | has key =>
      exact ⟨map, by simp [stepMap, stepItems, csMapHas_eq respects holds], kind, holds⟩
  | delete key =>
      obtain ⟨after, ran, sameKind, _, afterHolds⟩ := csMapDelete_spec respects holds key
      exact ⟨after, by simp [stepMap, stepItems, ran], sameKind.trans kind, afterHolds⟩
  | clear => exact ⟨csMapClear map, rfl, kind, csMapClear_holds holds⟩
  | toArray =>
      refine ⟨map, ?_, kind, holds⟩
      rw [← kind]
      simp only [stepMap, stepItems, csMapToArray_eq holds]
  | collect want =>
      exact ⟨map, by simp only [stepMap, stepItems, collect_eq holds], kind, holds⟩

/-- Any sequence of operations on a new Map or Set answers as the same sequence
on the ordered list does, and no probe runs for ever.  The map reached counts
the list's items and walks them in order, and its index, once it has one, has a
free slot. -/
theorem runMap_refines {bigints : BigIntCells} (respects : HashRespects bigints)
    (isSet : Bool) (ops : List MapOp) :
    ∃ map,
      Refinement.run (stepMap bigints) (csMapNew isSet) ops =
        some (map, (Refinement.specify (stepItems bigints isSet) [] ops).2) ∧
      map.liveCount = (Refinement.specify (stepItems bigints isSet) [] ops).1.length ∧
      (∀ key, csMapGet bigints map key =
        some (OrderedMap.lookup (csValuesSameValueZero bigints)
          (Refinement.specify (stepItems bigints isSet) [] ops).1 key)) ∧
      (∀ want, collect map want =
        (Refinement.specify (stepItems bigints isSet) [] ops).1.map (wanted want)) ∧
      (map.indexCapacity = 0 ∨ ∃ slot : Nat, map.index[slot]? = some none) := by
  obtain ⟨map, ran, _, holds⟩ := (stepMap_refines respects isSet).run ops (csMapNew isSet) []
    ⟨rfl, csMapNew_holds bigints isSet⟩
  refine ⟨map, ran, holds.live, csMapGet_eq respects holds, collect_eq holds, ?_⟩
  rcases holds.index with ⟨noIndex, _⟩ | ⟨indexed, wide, load⟩
  · left
    unfold ObjMap.indexCapacity
    rw [noIndex]
    rfl
  · exact Or.inr (indexed.exists_free (by omega))

/-- Cells that all hold different numbers. -/
theorem runMap_refines_distinct_bigints :
    let bigints : BigIntCells := fun address => { limbs := List.replicate address 1, negative := false }
    HashRespects bigints ∧
      ∃ map, Refinement.run (stepMap bigints) (csMapNew false)
          [.set (.bool true) .null, .set .undefined (.bool false), .delete (.bool true),
            .set (.bool true) .undefined] = some (map, [.done, .done, .flag true, .done]) ∧
        map.liveCount = 2 := by
  intro bigints
  have respects : HashRespects bigints := by
    rw [hashRespects_iff]
    intro x y same
    have lengths := congrArg (fun value => value.limbs.length) same
    simp only [bigints, List.length_replicate] at lengths
    rw [lengths]
  obtain ⟨map, ran, live, _⟩ := runMap_refines respects false
    [.set (.bool true) .null, .set .undefined (.bool false), .delete (.bool true),
      .set (.bool true) .undefined]
  exact ⟨respects, map, ran, live⟩

end CScript
