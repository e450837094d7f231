/-
What the operations of a Map do to its entry array, whatever the hashes.

Over a heap in which equal BigInts hash apart the index may lose entries, but
no probe runs for ever and the array is still changed at one place at a time.
-/

import CScript.Native.MapRefinement

namespace CScript

open Foundation

/-! ### Probes that end -/

/-- An index of at most `filled` taken slots, each with a place below `count`. -/
structure Probing (count : Nat) (index : List (Option Nat)) (filled : Nat) : Prop where
  power : ∃ exponent, index.length = 2 ^ exponent
  bounded : ∀ slot place : Nat, index[slot]? = some (some place) → place < count
  counted : index.length ≤ index.count none + filled

theorem probing_empty (count exponent : Nat) :
    Probing count (List.replicate (2 ^ exponent) none) 0 where
  power := ⟨exponent, List.length_replicate⟩
  bounded slot place here := by
    have wrong := List.mem_of_getElem? here
    rw [List.mem_replicate] at wrong
    cases wrong.2
  counted := by rw [List.count_replicate_self, List.length_replicate, Nat.add_zero]

theorem Probing.set {count filled slot place : Nat} {index : List (Option Nat)}
    (probing : Probing count index filled) (bound : place < count) :
    Probing count (index.set slot (some place)) (filled + 1) where
  power := by simpa only [List.length_set] using probing.power
  bounded other held here := by
    rw [List.getElem?_set] at here
    split at here
    · split at here
      · cases here
        exact bound
      · cases here
    · exact probing.bounded other held here
  counted := by
    have counted := probing.counted
    rw [List.length_set]
    by_cases inside : slot < index.length
    · rw [List.count_set inside]
      split <;> simp only [reduceCtorEq, beq_iff_eq, if_false] <;> omega
    · rw [List.set_eq_of_length_le (Nat.not_lt.mp inside)]
      omega

theorem Probing.mono {count more filled : Nat} {index : List (Option Nat)}
    (probing : Probing count index filled) (fits : count ≤ more) :
    Probing more index filled where
  power := probing.power
  bounded slot place here := Nat.lt_of_lt_of_le (probing.bounded slot place here) fits
  counted := probing.counted

def ProbeEnds (bigints : BigIntCells) (map : ObjMap) (key : Value) (slot : Nat) : Prop :=
  map.index[slot]? = some none ∨
    ∃ (place : Nat) (entry : MapEntry), map.index[slot]? = some (some place) ∧
      map.entries[place]? = some entry ∧ csValuesSameValueZero bigints entry.key key = true

section

variable (bigints : BigIntCells)

theorem findSlot_ends {map : ObjMap} {filled : Nat}
    (probing : Probing map.count map.index filled) (room : filled < map.index.length)
    (key : Value) : ∃ slot, findSlot bigints map key = some slot ∧ ProbeEnds bigints map key slot := by
  have positive : 0 < map.index.count none := by
    have counted := probing.counted
    omega
  obtain ⟨free, freeHere⟩ := List.mem_iff_getElem?.mp (List.count_pos_iff.mp positive)
  have freeStops : freeSlot map.index free = true := decide_eq_true freeHere
  obtain ⟨slot, found, slotBound, stopped, _⟩ := LinearProbe.scan_stops
    (fun other => freeSlot map.index other || matchesAt bigints map key other)
    (homeOf_bound probing.power key) (List.getElem?_eq_some_iff.mp freeHere).1
    (by simp only [freeStops, Bool.true_or])
  refine ⟨slot, (findSlot_scans probing.power probing.bounded key).trans found, ?_⟩
  rcases Bool.or_eq_true_iff.mp stopped with isFree | matched
  · exact Or.inl (of_decide_eq_true isFree)
  · right
    unfold matchesAt at matched
    split at matched
    · rename_i place placeHere
      have entryHere := List.getElem?_eq_getElem (probing.bounded slot place placeHere)
      rw [entryHere, Option.any_some, Bool.and_eq_true] at matched
      exact ⟨place, _, placeHere, entryHere, matched.2⟩
    · cases matched

private theorem indexEntries_probing : ∀ (steps filled : Nat) (map : ObjMap),
    filled + steps = map.count → map.count < map.index.length →
      Probing map.count map.index filled →
      ∃ after, indexEntries bigints steps filled map = some after ∧
        Probing map.count after.index map.count
  | 0, filled, map, all, _, probing => by
      have done : filled = map.count := all
      exact ⟨map, rfl, done ▸ probing⟩
  | steps + 1, filled, map, all, room, probing => by
      have bound : filled < map.entries.length := by
        unfold ObjMap.count at all
        omega
      obtain ⟨slot, found, _⟩ := findSlot_ends bigints probing (by omega) map.entries[filled].key
      obtain ⟨after, ran, full⟩ := indexEntries_probing steps (filled + 1)
        { map with index := map.index.set slot (some filled) } ((Nat.succ_add filled steps).trans all)
        (by simpa only [ObjMap.count, List.length_set] using room) (probing.set bound)
      refine ⟨after, ?_, full⟩
      unfold indexEntries
      simp only [List.getElem?_eq_getElem bound, found, Option.bind_eq_bind, Option.bind_some]
      exact ran

theorem rehash_probing (map : ObjMap) (exponent : Nat)
    (room : (compactEntries map.entries).length < 2 ^ exponent) :
    ∃ after, rehash bigints map (2 ^ exponent) = some after ∧
      Probing after.count after.index after.count := by
  obtain ⟨after, ran, probing⟩ := indexEntries_probing bigints
    (compactEntries map.entries).length 0
    { map with
      entries := compactEntries map.entries
      index := List.replicate (2 ^ exponent) none }
    (Nat.zero_add _) (by rw [List.length_replicate]; exact room) (probing_empty _ exponent)
  have fields := rehash_fields ran
  have count : after.count = (compactEntries map.entries).length := by
    unfold ObjMap.count
    rw [fields.1]
  exact ⟨after, ran, by rw [count]; exact probing⟩

/-! ### The shape of a map -/

structure MapShape (map : ObjMap) : Prop where
  present : ∀ entry ∈ map.entries, entry.present = true
  index : (map.index = [] ∧ map.entries = []) ∨
    (Probing map.count map.index map.count ∧ 8 ≤ map.index.length ∧
      4 * map.count ≤ 3 * map.index.length)

theorem csMapNew_shape (isSet : Bool) : MapShape (csMapNew isSet) where
  present _ member := absurd member List.not_mem_nil
  index := Or.inl ⟨rfl, rfl⟩

theorem MapShape.compacted {map : ObjMap} (shape : MapShape map) :
    compactEntries map.entries = map.entries :=
  List.filter_eq_self.mpr shape.present

private theorem rehash_shape (map : ObjMap) (exponent : Nat) (wide : 8 ≤ 2 ^ exponent)
    (load : 4 * (compactEntries map.entries).length ≤ 3 * 2 ^ exponent) :
    ∃ after, rehash bigints map (2 ^ exponent) = some after ∧ MapShape after ∧
      after.entries = compactEntries map.entries ∧ after.index.length = 2 ^ exponent ∧
      Probing after.count after.index after.count := by
  obtain ⟨after, ran, probing⟩ := rehash_probing bigints map exponent (by omega)
  obtain ⟨fields, length⟩ := rehash_fields ran
  have entries : after.entries = compactEntries map.entries := by rw [fields]
  refine ⟨after, ran, ⟨?_, Or.inr ⟨probing, by omega, ?_⟩⟩, entries, length, probing⟩
  · intro entry member
    rw [entries] at member
    exact (List.mem_filter.mp member).2
  · unfold ObjMap.count
    rw [entries, length]
    exact load

private theorem openIndex_shape {map : ObjMap} (shape : MapShape map) :
    ∃ opened, openIndex bigints map = some opened ∧ opened.entries = map.entries ∧
      MapShape opened ∧ Probing opened.count opened.index opened.count ∧
      8 ≤ opened.index.length ∧ 4 * opened.count ≤ 3 * opened.index.length := by
  unfold openIndex ObjMap.indexCapacity
  rcases shape.index with ⟨noIndex, noEntries⟩ | ⟨probing, wide, load⟩
  · rw [noIndex, if_pos List.length_nil]
    have compacted := shape.compacted
    rw [noEntries] at compacted ⊢
    obtain ⟨opened, ran, openedShape, entries, length, probing⟩ :=
      rehash_shape bigints map 3 (by decide)
        (by rw [noEntries, compacted]; decide)
    rw [noEntries, compacted] at entries
    refine ⟨opened, ran, entries, openedShape, probing, by omega, ?_⟩
    unfold ObjMap.count
    rw [entries]
    exact Nat.zero_le _
  · rw [if_neg (by omega)]
    exact ⟨map, rfl, rfl, shape, probing, wide, load⟩

private theorem appendEntry_shape {map : ObjMap} (shape : MapShape map)
    (probing : Probing map.count map.index map.count) (wide : 8 ≤ map.index.length)
    (room : 4 * (map.count + 1) ≤ 3 * map.index.length) (slot : Nat) (key value : Value) :
    MapShape (appendEntry map slot key value) where
  present entry member := by
    rcases List.mem_append.mp member with old | new
    · exact shape.present entry old
    · rw [List.mem_singleton.mp new]
  index := by
    right
    have count : (appendEntry map slot key value).count = map.count + 1 := List.length_append
    have length : (appendEntry map slot key value).index.length = map.index.length :=
      List.length_set
    rw [count, length]
    exact ⟨(probing.mono (Nat.le_succ _)).set (Nat.lt_succ_self _), wide, room⟩

theorem csMapGet_answers {map : ObjMap} (shape : MapShape map) (key : Value) :
    ∃ found, csMapGet bigints map key = some found := by
  unfold csMapGet ObjMap.indexCapacity
  rcases shape.index with ⟨noIndex, _⟩ | ⟨probing, wide, load⟩
  · rw [noIndex, if_pos List.length_nil]
    exact ⟨none, rfl⟩
  · obtain ⟨slot, found, ended⟩ := findSlot_ends bigints probing (by omega) key
    rw [if_neg (by omega)]
    simp only [found, Option.bind_eq_bind, Option.bind_some]
    rcases ended with free | ⟨place, entry, placeHere, entryHere, _⟩
    · rw [free]
      exact ⟨none, rfl⟩
    · simp only [placeHere, entryHere, Option.bind_some]
      exact ⟨some entry.value, rfl⟩

theorem csMapSet_shape {map : ObjMap} (shape : MapShape map) (key value : Value) :
    ∃ after, csMapSet bigints map key value = some after ∧ MapShape after ∧
      ((∃ (place : Nat) (entry : MapEntry), map.entries[place]? = some entry ∧
          after.entries = map.entries.set place { entry with value := value }) ∨
        after.entries = map.entries ++ [{ key := key, value := value, present := true }]) := by
  obtain ⟨opened, ranOpen, openedEntries, openedShape, probing, wide, load⟩ :=
    openIndex_shape bigints shape
  obtain ⟨slot, found, ended⟩ := findSlot_ends bigints probing (by omega) key
  unfold csMapSet
  simp only [ranOpen, Option.bind_eq_bind, Option.bind_some, found]
  rw [← openedEntries]
  rcases ended with free | ⟨place, entry, placeHere, entryHere, _⟩
  · simp only [free, Option.bind_some]
    by_cases full : 4 * (opened.count + 1) > 3 * opened.indexCapacity
    · obtain ⟨exponent, capacity⟩ := probing.power
      have doubled : opened.indexCapacity * 2 = 2 ^ (exponent + 1) := by
        unfold ObjMap.indexCapacity
        rw [capacity, Nat.pow_succ]
      have count : opened.entries.length = opened.count := rfl
      obtain ⟨grown, ran, grownShape, entries, length, grownProbing⟩ :=
        rehash_shape bigints opened (exponent + 1)
          (by rw [Nat.pow_succ]; omega)
          (by rw [openedShape.compacted, Nat.pow_succ, count]; omega)
      rw [openedShape.compacted] at entries
      have grownCount : grown.count = opened.count := congrArg List.length entries
      rw [Nat.pow_succ] at length
      obtain ⟨newSlot, newFound, _⟩ := findSlot_ends bigints grownProbing
        (by omega) key
      rw [if_pos full, doubled, ran]
      simp only [Option.bind_some, newFound, Option.pure_def]
      refine ⟨_, rfl, appendEntry_shape grownShape grownProbing (by omega) (by omega) newSlot
        key value, Or.inr ?_⟩
      show grown.entries ++ _ = _
      rw [entries]
    · rw [if_neg full]
      exact ⟨_, rfl, appendEntry_shape openedShape probing wide (Nat.not_lt.mp full) slot
        key value, Or.inr rfl⟩
  · simp only [placeHere, entryHere, Option.bind_some, Option.pure_def]
    refine ⟨_, rfl, ⟨?_, Or.inr ?_⟩, Or.inl ⟨place, entry, entryHere, rfl⟩⟩
    · intro other member
      rcases List.mem_or_eq_of_mem_set member with old | rfl
      · exact openedShape.present other old
      · exact openedShape.present entry (List.mem_of_getElem? entryHere)
    · simp only [ObjMap.count, List.length_set]
      exact ⟨probing, wide, load⟩

def placeOf (bigints : BigIntCells) (map : ObjMap) (key : Value) : Option (Option Nat) :=
  if map.indexCapacity = 0 then some none
  else do
    let slot ← findSlot bigints map key
    map.index[slot]?

theorem csMapDelete_shape {map : ObjMap} (shape : MapShape map) (key : Value) :
    (placeOf bigints map key = some none ∧
        csMapDelete bigints map key = some (map, false)) ∨
      ∃ (place : Nat) (after : ObjMap), placeOf bigints map key = some (some place) ∧
        place < map.count ∧ csMapDelete bigints map key = some (after, true) ∧
        MapShape after ∧ after.entries = map.entries.eraseIdx place := by
  unfold csMapDelete placeOf
  rcases shape.index with ⟨noIndex, noEntries⟩ | ⟨probing, wide, load⟩
  · left
    unfold ObjMap.indexCapacity
    rw [noIndex, if_pos List.length_nil, if_pos List.length_nil]
    exact ⟨rfl, rfl⟩
  · have someIndex : map.indexCapacity ≠ 0 := by unfold ObjMap.indexCapacity; omega
    obtain ⟨slot, found, ended⟩ := findSlot_ends bigints probing (by omega) key
    rw [if_neg someIndex, if_neg someIndex]
    simp only [found, Option.bind_eq_bind, Option.bind_some]
    rcases ended with free | ⟨place, entry, placeHere, entryHere, _⟩
    · left
      simp only [free, Option.bind_some, Option.pure_def, and_self]
    · right
      have bound := (List.getElem?_eq_some_iff.mp entryHere).1
      have compacted : compactEntries (map.entries.set place
          { key := .undefined, value := .undefined, present := false }) =
          map.entries.eraseIdx place := compactEntries_set shape.present place bound
      obtain ⟨exponent, capacity⟩ := probing.power
      have width : map.indexCapacity = 2 ^ exponent := capacity
      have erased := List.length_eraseIdx_of_lt bound
      have count : map.entries.length = map.count := rfl
      obtain ⟨after, ran, afterShape, entries, length, _⟩ := rehash_shape bigints
        { map with
          entries := map.entries.set place
            { key := .undefined, value := .undefined, present := false }
          liveCount := map.liveCount - 1 }
        exponent (by omega) (by rw [compacted, erased]; omega)
      rw [compacted] at entries
      refine ⟨place, after, placeHere, bound, ?_, afterShape, entries⟩
      simp only [placeHere, Option.bind_some, width, ran, Option.pure_def]

theorem csMapClear_shape {map : ObjMap} (shape : MapShape map) : MapShape (csMapClear map) where
  present _ member := absurd member List.not_mem_nil
  index := by
    unfold csMapClear ObjMap.indexCapacity
    rcases shape.index with ⟨noIndex, _⟩ | ⟨probing, wide, _⟩
    · left
      rw [noIndex]
      exact ⟨rfl, rfl⟩
    · right
      obtain ⟨exponent, capacity⟩ := probing.power
      simp only [List.length_replicate, capacity, ObjMap.count, List.length_nil, Nat.mul_zero,
        Nat.zero_le, and_true]
      exact ⟨probing_empty 0 exponent, capacity ▸ wide⟩

end

end CScript
