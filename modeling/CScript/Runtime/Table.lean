/-
The hash table the globals, the shapes and the property bags share.

Open addressing with linear probing.  A slot is live when it has a key; a slot
without one is truly empty when its value is null and a tombstone otherwise.
Every probe loop is written with fuel, and `none` is a probe that never ends:
the capacity is enough fuel for any probe that ends at all.
-/

import CScript.Foundation.LinearProbe
import CScript.Runtime.Value
import Mathlib.Logic.Function.Basic

namespace CScript

open Foundation

structure Entry where
  key : Option ObjString
  value : Value
  deriving DecidableEq, Repr

/-- `count` is live entries plus tombstones. -/
structure Table where
  count : Nat
  entries : List Entry
  version : UInt32
  deriving DecidableEq, Repr

def Table.capacity (table : Table) : Nat :=
  table.entries.length

def csTableInit : Table :=
  { count := 0
    entries := []
    version := 0 }

def Entry.empty : Entry :=
  { key := none
    value := .null }

def Entry.tombstone : Entry :=
  { key := none
    value := .bool true }

def Entry.isFree (entry : Entry) : Bool :=
  entry.key.isNone && decide (entry.value = .null)

def findEntryLoop (entries : List Entry) (key : ObjString) :
    Nat → Nat → Option Nat → Option Nat
  | 0, _, _ => none
  | fuel + 1, index, tombstone =>
      match entries[index]? with
      | none => none
      | some entry =>
          let next := LinearProbe.mask (index + 1) entries.length
          match entry.key with
          | none =>
              if entry.value = .null then some (tombstone.getD index)
              else findEntryLoop entries key fuel next (some (tombstone.getD index))
          | some held =>
              if held = key then some index
              else findEntryLoop entries key fuel next tombstone

def findEntry (entries : List Entry) (key : ObjString) : Option Nat :=
  findEntryLoop entries key entries.length
    (LinearProbe.mask key.hash.toNat entries.length) none

/-- The rehash loop of `adjustCapacity`: live entries only, recounted as they
go in. -/
def rehashEntries : List Entry → List Entry → Nat → Option (List Entry × Nat)
  | [], entries, count => some (entries, count)
  | entry :: rest, entries, count =>
      match entry.key with
      | none => rehashEntries rest entries count
      | some key => do
          let dest ← findEntry entries key
          rehashEntries rest (entries.set dest { key := some key, value := entry.value })
            (count + 1)

def adjustCapacity (table : Table) (capacity : Nat) : Option Table := do
  let (entries, count) ←
    rehashEntries table.entries (List.replicate capacity Entry.empty) 0
  return { count := count, entries := entries, version := table.version + 1 }

/-- `CS_GROW_CAPACITY`. -/
def growCapacity (capacity : Nat) : Nat :=
  if capacity < 8 then 8 else capacity * 2

/-- The inner option is the answer: the value, or that there was none. -/
def csTableGet (table : Table) (key : ObjString) : Option (Option Value) :=
  if table.count = 0 then some none
  else do
    let index ← findEntry table.entries key
    let entry ← table.entries[index]?
    match entry.key with
    | none => return none
    | some _ => return some entry.value

/-- The slot of the live entry for `key`, or that there is none. -/
def csTableFindEntry (table : Table) (key : ObjString) : Option (Option Nat) :=
  if table.count = 0 then some none
  else do
    let index ← findEntry table.entries key
    let entry ← table.entries[index]?
    match entry.key with
    | none => return none
    | some _ => return some index

/-- The store half of `csTableSet`, once there is room. -/
def storeEntry (table : Table) (key : ObjString) (value : Value) :
    Option (Table × Bool) := do
  let index ← findEntry table.entries key
  let entry ← table.entries[index]?
  let isNewKey := entry.key.isNone
  -- Reusing a tombstone does not add to the count: it was already counted.
  let count :=
    if isNewKey && decide (entry.value = .null) then table.count + 1 else table.count
  return ({ table with
            count := count
            entries := table.entries.set index { key := some key, value := value } },
          isNewKey)

/-- The load test compares `count + 1` with three quarters of the capacity. -/
def csTableSet (table : Table) (key : ObjString) (value : Value) :
    Option (Table × Bool) := do
  if 4 * (table.count + 1) > 3 * table.capacity then
    let grown ← adjustCapacity table (growCapacity table.capacity)
    storeEntry grown key value
  else storeEntry table key value

def csTableDelete (table : Table) (key : ObjString) : Option (Table × Bool) :=
  if table.count = 0 then some (table, false)
  else do
    let index ← findEntry table.entries key
    let entry ← table.entries[index]?
    match entry.key with
    | none => return (table, false)
    | some _ =>
        return ({ table with
                  entries := table.entries.set index Entry.tombstone
                  version := table.version + 1 }, true)

/-- The loop of `csTableAddAll` over the entries of `from`. -/
def addEntries : List Entry → Table → Option Table
  | [], target => some target
  | entry :: rest, target =>
      match entry.key with
      | none => addEntries rest target
      | some key => do
          let (grown, _) ← csTableSet target key entry.value
          addEntries rest grown

/-- `csTableAddAll` on two different tables. -/
def csTableAddAll (source target : Table) : Option Table :=
  addEntries source.entries target

/-- `csTableAddAll` with one table as both arguments: the loop reads the
entries and the capacity again after every write. -/
def addEntriesSelf : Nat → Nat → Table → Option Table
  | 0, _, _ => none
  | fuel + 1, i, table =>
      match table.entries[i]? with
      | none => some table
      | some entry =>
          match entry.key with
          | none => addEntriesSelf fuel (i + 1) table
          | some key => do
              let (table, _) ← csTableSet table key entry.value
              addEntriesSelf fuel (i + 1) table

/-- One growth doubles the capacity and a second never happens, so twice the
capacity bounds the loop. -/
def csTableAddAllSelf (table : Table) : Option Table :=
  addEntriesSelf (2 * table.capacity + 1) 0 table

end CScript
