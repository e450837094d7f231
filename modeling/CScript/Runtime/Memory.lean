/-
The collector: mark, resolve what is weak, sweep.

Marking is not one pass.  The roots come first, then all that they reach, and
then a weak map's values for the keys that turned out to be alive, which can
bring further keys to life.  Weak references are resolved when marking is
final, before anything is freed.
-/

import CScript.Runtime.Heap

namespace CScript

open Foundation

/-! ### Marking -/

def references (vm : VM) (object : Obj) : Option (List Obj) := do
  let body ← findBody vm.objects object
  csObjectBlacken vm.objects vm.symbolsByKey body

def markRoots (vm : VM) (marking : Marking Obj) : Marking Obj :=
  marking.markAll (rootReferences vm.roots vm.absentShape)

/-- No object is followed twice, so their number bounds the loop. -/
def traceReferences (vm : VM) (marking : Marking Obj) : Option (Marking Obj) :=
  Marking.trace (references vm) vm.objects.length marking

/-- `IS_OBJ(value) && !AS_OBJ(value)->isMarked`. -/
def isWhite (marking : Marking Obj) : Value → Bool
  | .obj object => !marking.isMarked object
  | _ => false

/-- The loop over the entries of one weak map. -/
def markEntries : List MapEntry → Marking Obj → Bool → Marking Obj × Bool
  | [], marking, grew => (marking, grew)
  | entry :: rest, marking, grew =>
      if !entry.present then markEntries rest marking grew
      -- not live, yet
      else if isWhite marking entry.key then markEntries rest marking grew
      else if !isWhite marking entry.value then markEntries rest marking grew
      else markEntries rest (marking.markAll (ofValue entry.value)) true

/-- One pass over `vm.objects`. -/
def markWeakMaps : List Cell → Marking Obj → Bool → Marking Obj × Bool
  | [], marking, grew => (marking, grew)
  | cell :: rest, marking, grew =>
      match cell.body with
      | .map map =>
          if marking.isMarked cell.object && map.isWeak then
            let after := markEntries map.entries marking grew
            markWeakMaps rest after.1 after.2
          else markWeakMaps rest marking grew
      | _ => markWeakMaps rest marking grew

def markEphemerons (vm : VM) : Nat → Marking Obj → Option (Marking Obj)
  | 0, _ => none
  | fuel + 1, marking =>
      let after := markWeakMaps vm.objects marking false
      if after.2 then do
        let traced ← traceReferences vm after.1
        markEphemerons vm fuel traced
      else some after.1

/-! ### Weak references -/

/-- `csTableDelete` for each slot's key that is doomed, slot by slot; the
entries are read again after every delete. -/
def removeEntries (doomed : Entry → Bool) : Nat → Nat → Table → Option Table
  | 0, _, table => some table
  | steps + 1, slot, table => do
      let entry ← table.entries[slot]?
      match entry.key with
      | none => removeEntries doomed steps (slot + 1) table
      | some key =>
          if doomed entry then
            let (table, _) ← csTableDelete table key
            removeEntries doomed steps (slot + 1) table
          else removeEntries doomed steps (slot + 1) table

def csTableRemoveWhite (marking : Marking Obj) (table : Table) : Option Table :=
  removeEntries (fun entry => entry.key.any (fun key => !marking.isMarked (.string key)))
    table.capacity 0 table

def csTableRemoveWhiteValues (marking : Marking Obj) (table : Table) : Option Table :=
  removeEntries (fun entry => isWhite marking entry.value) table.capacity 0 table

/-- Every transition holds a shape, so the value is not asked what it is. -/
def csShapePruneTransitions (marking : Marking Obj) (shape : Shape) : Option Shape := do
  let transitions ← removeEntries (fun entry => isWhite marking entry.value)
    shape.transitions.capacity 0 shape.transitions
  return { shape with transitions := transitions }

def pruneCache (marking : Marking Obj) (absentShape : Nat) (cache : PropertyCache) :
    PropertyCache :=
  let lost := !marking.isMarked (.cell .shape cache.shape) ||
    cache.added.any (fun added => !marking.isMarked (.cell .shape added))
  if lost then { cache with shape := absentShape, added := none } else cache

def csChunkPruneCaches (marking : Marking Obj) (absentShape : Nat)
    (function : ObjFunction) : ObjFunction :=
  { function with
    propertyCaches := function.propertyCaches.map (pruneCache marking absentShape) }

def clearEntry (marking : Marking Obj) (entry : MapEntry) : MapEntry :=
  if entry.present && isWhite marking entry.key then
    { key := .undefined, value := .undefined, present := false }
  else entry

def lostEntries (marking : Marking Obj) (entries : List MapEntry) : Nat :=
  entries.countP (fun entry => entry.present && isWhite marking entry.key)

def pruneWeakMap (bigints : BigIntCells) (marking : Marking Obj) (map : ObjMap) :
    Option ObjMap :=
  let lost := lostEntries marking map.entries
  let cleared := { map with
    entries := map.entries.map (clearEntry marking)
    liveCount := map.liveCount - lost }
  if lost = 0 then some map else csMapReindexInPlace bigints cleared

def pruneBody (bigints : BigIntCells) (marking : Marking Obj) (absentShape : Nat) :
    Body → Option Body
  | .shape shape => (csShapePruneTransitions marking shape).map Body.shape
  | .function function =>
      some (.function (csChunkPruneCaches marking absentShape function))
  | .map map =>
      if map.isWeak then (pruneWeakMap bigints marking map).map Body.map
      else some (.map map)
  | body => some body

def pruneCell (bigints : BigIntCells) (marking : Marking Obj) (absentShape : Nat)
    (cell : Cell) : Option Cell :=
  if marking.isMarked cell.object then do
    let body ← pruneBody bigints marking absentShape cell.body
    return { cell with body := body }
  else some cell

def pruneWeakReferences (vm : VM) (marking : Marking Obj) : Option (List Cell) :=
  vm.objects.mapM (pruneCell (bigintCells vm.objects) marking vm.absentShape)

/-! ### Sweeping -/

def sweep : List Cell → (Obj → Bool) → List Cell × (Obj → Bool)
  | [], isMarked => ([], isMarked)
  | cell :: rest, isMarked =>
      if isMarked cell.object then
        let after := sweep rest (Function.update isMarked cell.object false)
        (cell :: after.1, after.2)
      else sweep rest isMarked

/-- The rounds of `markEphemerons` that grow each mark an object, so one more
than their number bounds them. -/
def csCollectGarbage (vm : VM) : Option VM := do
  let rooted := markRoots vm vm.marking
  let traced ← traceReferences vm rooted
  let marking ← markEphemerons vm (vm.objects.length + 1) traced
  let strings ← csTableRemoveWhite marking vm.strings
  let symbolsByKey ← csTableRemoveWhiteValues marking vm.symbolsByKey
  let pruned ← pruneWeakReferences vm marking
  let swept := sweep pruned marking.isMarked
  return { vm with
    objects := swept.1
    marking := { isMarked := swept.2, gray := marking.gray }
    strings := strings
    symbolsByKey := symbolsByKey }

end CScript
