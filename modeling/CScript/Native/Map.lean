/-
Map and Set: a dense array of entries and an open-addressing index over it.

A Set is a Map that only looks at its keys.  The entries keep insertion order;
the index holds places in the entry array, with `none` for a free slot.  As in
the hash table, a probe runs on fuel and `none` as an answer is a probe that
never ends.
-/

import CScript.Foundation.LinearProbe
import CScript.Runtime.ValueEquality

namespace CScript

open Foundation

structure MapEntry where
  key : Value
  value : Value
  present : Bool
  deriving DecidableEq, Repr

structure ObjMap where
  entries : List MapEntry
  liveCount : Int
  index : List (Option Nat)
  isSet : Bool
  isWeak : Bool
  deriving DecidableEq, Repr

def ObjMap.count (map : ObjMap) : Nat :=
  map.entries.length

def ObjMap.indexCapacity (map : ObjMap) : Nat :=
  map.index.length

def csMapNew (isSet : Bool) : ObjMap :=
  { entries := []
    liveCount := 0
    index := []
    isSet := isSet
    isWeak := false }

section

variable (bigints : BigIntCells)

def findSlotLoop (map : ObjMap) (key : Value) : Nat → Nat → Option Nat
  | 0, _ => none
  | fuel + 1, slot =>
      match map.index[slot]? with
      | none => none
      | some none => some slot
      | some (some place) =>
          match map.entries[place]? with
          | none => none
          | some entry =>
              if entry.present && csValuesSameValueZero bigints entry.key key then some slot
              else findSlotLoop map key fuel (LinearProbe.mask (slot + 1) map.indexCapacity)

def findSlot (map : ObjMap) (key : Value) : Option Nat :=
  findSlotLoop bigints map key map.indexCapacity
    (LinearProbe.mask (hashValue key).toNat map.indexCapacity)

def compactEntries (entries : List MapEntry) : List MapEntry :=
  entries.filter MapEntry.present

/-- `map->index[findSlot(map, map->entries[i].key)] = i`, for the given number
of entries from `i` on. -/
def indexEntries : Nat → Nat → ObjMap → Option ObjMap
  | 0, _, map => some map
  | steps + 1, i, map => do
      let entry ← map.entries[i]?
      let slot ← findSlot bigints map entry.key
      indexEntries steps (i + 1) { map with index := map.index.set slot (some i) }

def rehash (map : ObjMap) (indexCapacity : Nat) : Option ObjMap :=
  let live := compactEntries map.entries
  indexEntries bigints live.length 0
    { map with entries := live, index := List.replicate indexCapacity none }

/-- The same over the index that is there, for a collection may not allocate. -/
def csMapReindexInPlace (map : ObjMap) : Option ObjMap :=
  if map.indexCapacity = 0 then some map
  else
    let live := compactEntries map.entries
    indexEntries bigints live.length 0
      { map with entries := live, index := List.replicate map.indexCapacity none }

/-- The inner option is the value, or that there is none. -/
def csMapGet (map : ObjMap) (key : Value) : Option (Option Value) :=
  if map.indexCapacity = 0 then some none
  else do
    let slot ← findSlot bigints map key
    match ← map.index[slot]? with
    | none => return none
    | some place => do
        let entry ← map.entries[place]?
        return some entry.value

def csMapHas (map : ObjMap) (key : Value) : Option Bool := do
  let found ← csMapGet bigints map key
  return found.isSome

/-- The first `csMapSet` makes the index. -/
def openIndex (map : ObjMap) : Option ObjMap :=
  if map.indexCapacity = 0 then rehash bigints map 8 else some map

/-- The append half of `csMapSet`, at a free slot. -/
def appendEntry (map : ObjMap) (slot : Nat) (key value : Value) : ObjMap :=
  { map with
    entries := map.entries ++ [{ key := key, value := value, present := true }]
    index := map.index.set slot (some map.count)
    liveCount := map.liveCount + 1 }

def csMapSet (map : ObjMap) (key value : Value) : Option ObjMap := do
  let map ← openIndex bigints map
  let slot ← findSlot bigints map key
  match ← map.index[slot]? with
  | some place => do
      let entry ← map.entries[place]?
      return { map with entries := map.entries.set place { entry with value := value } }
  | none =>
      -- The load test compares `count + 1` with three quarters of the index.
      if 4 * (map.count + 1) > 3 * map.indexCapacity then
        let grown ← rehash bigints map (map.indexCapacity * 2)
        let slot ← findSlot bigints grown key
        return appendEntry grown slot key value
      else return appendEntry map slot key value

def csMapDelete (map : ObjMap) (key : Value) : Option (ObjMap × Bool) :=
  if map.indexCapacity = 0 then some (map, false)
  else do
    let slot ← findSlot bigints map key
    match ← map.index[slot]? with
    | none => return (map, false)
    | some place => do
        let cleared : MapEntry := { key := .undefined, value := .undefined, present := false }
        let after ← rehash bigints
          { map with
            entries := map.entries.set place cleared
            liveCount := map.liveCount - 1 }
          map.indexCapacity
        return (after, true)

def csMapClear (map : ObjMap) : ObjMap :=
  { map with
    entries := []
    liveCount := 0
    index := List.replicate map.indexCapacity none }

end

/-! ### Reading the whole collection -/

inductive Element where
  | value (element : Value)
  | pair (key value : Value)
  deriving DecidableEq, Repr

def csMapToArray (map : ObjMap) : List Element :=
  (compactEntries map.entries).map (fun entry =>
    if map.isSet then .value entry.key else .pair entry.key entry.value)

inductive Want where
  | keys
  | values
  | entries

def collect (map : ObjMap) (want : Want) : List Element :=
  (compactEntries map.entries).map (fun entry =>
    match want with
    | .keys => .value entry.key
    | .values => .value entry.value
    | .entries => .pair entry.key entry.value)

end CScript
