/-
When the version of a table vouches for the place of an entry.

A rehash moves every entry and a delete frees a slot for another key, and both
count the version up; any other write leaves every key where it is.  An entry
that was looked up is therefore still its key's while the version is the same,
unless so many rehashes and deletes lie between that the counter has come round.
-/

import CScript.Runtime.WeakReferences

namespace CScript

open Foundation

/-! ### Where entries stay -/

private theorem findEntryLoop_vacant (entries : List Entry) (key : ObjString) :
    ∀ (fuel index : Nat) (tombstone : Option Nat) (found : Nat),
      (∀ slot : Nat, tombstone = some slot → keyAt entries slot = none) →
      findEntryLoop entries key fuel index tombstone = some found →
      keyAt entries found = none ∨ keyAt entries found = some key := by
  intro fuel
  induction fuel with
  | zero =>
      intro index tombstone found _ ran
      cases ran
  | succ fuel ih =>
      intro index tombstone found vacant ran
      unfold findEntryLoop at ran
      cases here : entries[index]? with
      | none =>
          rw [here] at ran
          cases ran
      | some entry =>
          rw [here] at ran
          have keyHere : keyAt entries index = entry.key := by
            unfold keyAt
            rw [here]
            rfl
          cases held : entry.key with
          | some other =>
              simp only [held] at ran
              by_cases same : other = key
              · rw [if_pos same] at ran
                cases ran
                right
                rw [keyHere, held, same]
              · rw [if_neg same] at ran
                exact ih _ _ _ vacant ran
          | none =>
              simp only [held] at ran
              have nothing (slot : Nat) (chosen : slot = tombstone.getD index) :
                  keyAt entries slot = none := by
                cases buried : tombstone with
                | none =>
                    rw [buried] at chosen
                    rw [chosen]
                    exact keyHere.trans held
                | some grave =>
                    rw [buried] at chosen
                    rw [chosen]
                    exact vacant grave buried
              by_cases empty : entry.value = .null
              · rw [if_pos empty] at ran
                cases ran
                left
                exact nothing _ rfl
              · rw [if_neg empty] at ran
                apply ih _ _ _ _ ran
                intro slot chosen
                exact nothing slot (Option.some.inj chosen).symm

structure Stays (table after : Table) : Prop where
  version : after.version = table.version
  capacity : after.capacity = table.capacity
  keys : ∀ (slot : Nat) (key : ObjString), keyAt table.entries slot = some key →
    keyAt after.entries slot = some key

theorem storeEntry_stays {table after : Table} {key : ObjString} {value : Value} {isNew : Bool}
    (stored : storeEntry table key value = some (after, isNew)) : Stays table after := by
  unfold storeEntry at stored
  cases found : findEntry table.entries key with
  | none =>
      rw [found] at stored
      cases stored
  | some index =>
      rw [found, Option.bind_eq_bind, Option.bind_some] at stored
      cases here : table.entries[index]? with
      | none =>
          rw [here] at stored
          cases stored
      | some entry =>
          rw [here] at stored
          cases stored
          have bound := (List.getElem?_eq_some_iff.mp here).1
          constructor
          · rfl
          · exact List.length_set
          · intro slot held there
            rw [keyAt_set bound]
            by_cases same : slot = index
            · rw [if_pos same]
              subst slot
              have vacant := findEntryLoop_vacant table.entries key _ _ none index
                (fun _ absurd_ => by cases absurd_) found
              rcases vacant with nothing | own
              · rw [nothing] at there
                cases there
              · exact own.symm.trans there
            · rw [if_neg same]
              exact there

theorem rehashEntries_length :
    ∀ (entries into after : List Entry) (count total : Nat),
      rehashEntries entries into count = some (after, total) → after.length = into.length := by
  intro entries
  induction entries with
  | nil =>
      intro into after count total ran
      cases ran
      rfl
  | cons entry rest ih =>
      intro into after count total ran
      unfold rehashEntries at ran
      cases held : entry.key with
      | none =>
          simp only [held] at ran
          exact ih _ _ _ _ ran
      | some key =>
          simp only [held] at ran
          cases found : findEntry into key with
          | none =>
              rw [found] at ran
              cases ran
          | some dest =>
              rw [found] at ran
              have same := ih _ _ _ _ ran
              rw [List.length_set] at same
              exact same

theorem adjustCapacity_sized {table after : Table} {capacity : Nat}
    (grown : adjustCapacity table capacity = some after) :
    after.version = table.version + 1 ∧ after.capacity = capacity := by
  unfold adjustCapacity at grown
  cases ran : rehashEntries table.entries (List.replicate capacity Entry.empty) 0 with
  | none =>
      rw [ran] at grown
      cases grown
  | some result =>
      rw [ran] at grown
      cases grown
      constructor
      · rfl
      · unfold Table.capacity
        rw [rehashEntries_length _ _ _ _ _ ran, List.length_replicate]

theorem csTableSet_stays {table after : Table} {name : ObjString} {value : Value} {isNew : Bool}
    (stored : csTableSet table name value = some (after, isNew))
    (room : 4 * (table.count + 1) ≤ 3 * table.capacity) : Stays table after := by
  unfold csTableSet at stored
  rw [if_neg (Nat.not_lt.mpr room)] at stored
  exact storeEntry_stays stored

theorem entry_of_keyAt {entries : List Entry} {slot : Nat} {key : ObjString}
    (held : keyAt entries slot = some key) :
    ∃ entry : Entry, entries[slot]? = some entry ∧ entry.key = some key := by
  unfold keyAt at held
  cases here : entries[slot]? with
  | none =>
      rw [here] at held
      cases held
  | some entry =>
      rw [here] at held
      exact ⟨entry, rfl, held⟩

theorem lookup_of_keyAt {table : Table} (wf : table.WellFormed) {slot : Nat} {entry : Entry}
    {name : ObjString} (here : table.entries[slot]? = some entry)
    (held : entry.key = some name) : table.lookup name = some entry.value := by
  apply lookupEntries_eq_some _ here held
  rcases wf.shape with empty | ⟨-, probed⟩
  · rw [empty] at here
    cases here
  · exact probed.distinct

/-! ### The writes that calls are made of -/

/-- The store of `assignGlobal`, into the entry it has looked up. -/
def assignEntry (table : Table) (key : ObjString) (value : Value) : Option (Table × Bool) := do
  match ← csTableFindEntry table key with
  | none => return (table, false)
  | some slot => do
      let entry ← table.entries[slot]?
      return ({ table with entries := table.entries.set slot { entry with value := value } }, true)

inductive TableChange where
  | set (key : ObjString) (value : Value)
  | assign (key : ObjString) (value : Value)
  | delete (key : ObjString)
  deriving DecidableEq, Repr

def changeTable (table : Table) : TableChange → Option Table
  | .set key value => (csTableSet table key value).map Prod.fst
  | .assign key value => (assignEntry table key value).map Prod.fst
  | .delete key => (csTableDelete table key).map Prod.fst

/-- How often a change counts the version up: a store that finds the table full,
and a delete of a key that is there. -/
def TableChange.bumps (table : Table) : TableChange → Nat
  | .set _ _ => if 4 * (table.count + 1) > 3 * table.capacity then 1 else 0
  | .assign _ _ => 0
  | .delete key => if (csTableGet table key).any Option.isSome then 1 else 0

def runChanges : List TableChange → Table → Option Table
  | [], table => some table
  | change :: rest, table => (changeTable table change).bind (runChanges rest)

def changeBumps : List TableChange → Table → Nat
  | [], _ => 0
  | change :: rest, table =>
      change.bumps table + ((changeTable table change).map (changeBumps rest)).getD 0

inductive TableCall where
  | set (key : ObjString) (value : Value)
  | assign (key : ObjString) (value : Value)
  | delete (key : ObjString)
  | addAll (source : Table)
  | removeWhite (marking : Marking Obj)
  | removeWhiteValues (marking : Marking Obj)

def stepCall (table : Table) : TableCall → Option Table
  | .set key value => (csTableSet table key value).map Prod.fst
  | .assign key value => (assignEntry table key value).map Prod.fst
  | .delete key => (csTableDelete table key).map Prod.fst
  | .addAll source => csTableAddAll source table
  | .removeWhite marking => csTableRemoveWhite marking table
  | .removeWhiteValues marking => csTableRemoveWhiteValues marking table

def addChanges (entries : List Entry) : List TableChange :=
  entries.filterMap (fun entry => entry.key.map (fun key => .set key entry.value))

def removeChanges (doomed : Entry → Bool) (entries : List Entry) : List TableChange :=
  (entries.filter doomed).filterMap (fun entry => entry.key.map .delete)

/-- A copy is a store for each entry of the source, and a pruning is a delete
for each entry that goes. -/
def TableCall.changes (table : Table) : TableCall → List TableChange
  | .set key value => [.set key value]
  | .assign key value => [.assign key value]
  | .delete key => [.delete key]
  | .addAll source => addChanges source.entries
  | .removeWhite marking =>
      removeChanges (fun entry => entry.key.any (fun key => !marking.isMarked (.string key)))
        table.entries
  | .removeWhiteValues marking =>
      removeChanges (fun entry => isWhite marking entry.value) table.entries

def runCalls : List TableCall → Table → Option Table
  | [], table => some table
  | call :: rest, table => (stepCall table call).bind (runCalls rest)

def callBumps : List TableCall → Table → Nat
  | [], _ => 0
  | call :: rest, table =>
      changeBumps (call.changes table) table +
        ((stepCall table call).map (callBumps rest)).getD 0

/-! ### What a change does to the places -/

structure Counted (bumps : Nat) (table after : Table) : Prop where
  wellFormed : after.WellFormed
  version : after.version = table.version + UInt32.ofNat bumps
  stays : bumps = 0 → ∀ (slot : Nat) (key : ObjString), keyAt table.entries slot = some key →
    keyAt after.entries slot = some key

theorem Counted.refl {table : Table} (wf : table.WellFormed) : Counted 0 table table where
  wellFormed := wf
  version := (UInt32.add_zero table.version).symm
  stays := fun _ _ _ held => held

theorem Counted.trans {first second third : Table} {early late : Nat}
    (begun : Counted early first second) (ended : Counted late second third) :
    Counted (early + late) first third where
  wellFormed := ended.wellFormed
  version := by rw [ended.version, begun.version, UInt32.ofNat_add, UInt32.add_assoc]
  stays := by
    intro none_ slot key held
    exact ended.stays (by omega) slot key (begun.stays (by omega) slot key held)

theorem csTableSet_counted {table after : Table} (wf : table.WellFormed) {key : ObjString}
    {value : Value} {isNew : Bool} (ran : csTableSet table key value = some (after, isNew)) :
    Counted (TableChange.bumps table (.set key value)) table after := by
  obtain ⟨same, sameRan, afterWf, _⟩ := csTableSet_spec wf key value
  rw [ran] at sameRan
  cases sameRan
  unfold TableChange.bumps
  by_cases full : 4 * (table.count + 1) > 3 * table.capacity
  · rw [if_pos full]
    unfold csTableSet at ran
    rw [if_pos full] at ran
    obtain ⟨grown, grew, stored⟩ := Option.bind_eq_some_iff.mp ran
    refine ⟨afterWf, ?_, fun wrong => absurd wrong Nat.one_ne_zero⟩
    rw [(storeEntry_stays stored).version, (adjustCapacity_sized grew).1]
    rfl
  · rw [if_neg full]
    have stays := csTableSet_stays ran (Nat.not_lt.mp full)
    exact ⟨afterWf, by rw [stays.version]; exact (UInt32.add_zero _).symm, fun _ => stays.keys⟩

theorem csTableDelete_counted {table after : Table} (wf : table.WellFormed) {key : ObjString}
    {removed : Bool} (ran : csTableDelete table key = some (after, removed)) :
    Counted (TableChange.bumps table (.delete key)) table after := by
  obtain ⟨same, sameRan, afterWf, _⟩ := csTableDelete_spec wf key
  rw [ran] at sameRan
  cases sameRan
  simp only [TableChange.bumps, csTableGet_eq wf, Option.any_some]
  unfold csTableDelete at ran
  cases present : (table.lookup key).isSome with
  | false =>
      rw [present] at ran
      have same : after = table := by
        split at ran
        · cases ran
          rfl
        · obtain ⟨index, _, ran⟩ := Option.bind_eq_some_iff.mp ran
          obtain ⟨entry, _, ran⟩ := Option.bind_eq_some_iff.mp ran
          split at ran <;> cases ran
          rfl
      rw [same]
      exact Counted.refl wf
  | true =>
      rw [present] at ran
      refine ⟨afterWf, ?_, fun wrong => absurd wrong Nat.one_ne_zero⟩
      split at ran
      · cases ran
      · obtain ⟨index, _, ran⟩ := Option.bind_eq_some_iff.mp ran
        obtain ⟨entry, _, ran⟩ := Option.bind_eq_some_iff.mp ran
        split at ran <;> cases ran
        rfl

theorem csTableFindEntry_holds {table : Table} (wf : table.WellFormed) {key : ObjString}
    {slot : Nat} (found : csTableFindEntry table key = some (some slot)) :
    ∃ value, table.entries[slot]? = some { key := some key, value := value } ∧
      table.lookup key = some value := by
  obtain ⟨answer, ran, entries, absent⟩ := csTableFindEntry_spec wf key
  rw [found] at ran
  cases ran
  cases present : table.lookup key with
  | none =>
      have wrong := absent.mpr present
      cases wrong
  | some value =>
      rw [present, Option.bind_some] at entries
      exact ⟨value, entries, rfl⟩

theorem csTableFindEntry_at {table : Table} (wf : table.WellFormed) {key : ObjString}
    {slot : Nat} {entry : Entry} (here : table.entries[slot]? = some entry)
    (held : entry.key = some key) : csTableFindEntry table key = some (some slot) := by
  have keyHere : keyAt table.entries slot = some key := by
    unfold keyAt
    rw [here, Option.bind_some, held]
  have used : table.count ≠ 0 := by
    have positive : 0 < usedSlots table.entries :=
      List.countP_pos_iff.mpr ⟨entry, List.mem_of_getElem? here, by simp [Entry.isFree, held]⟩
    rw [wf.counted]
    omega
  unfold csTableFindEntry
  rw [if_neg used, findEntry_present (wf.probed used) keyHere]
  simp only [here, held, Option.bind_eq_bind, Option.bind_some]
  rfl

theorem assignEntry_at {table : Table} (wf : table.WellFormed) {key : ObjString} {slot : Nat}
    {old : Value} (here : table.entries[slot]? = some { key := some key, value := old })
    (value : Value) :
    assignEntry table key value = some
      ({ table with entries := table.entries.set slot { key := some key, value := value } },
        true) := by
  unfold assignEntry
  simp only [csTableFindEntry_at wf here rfl, here, Option.bind_eq_bind, Option.bind_some]
  rfl

theorem assignEntry_counted {table after : Table} (wf : table.WellFormed) {key : ObjString}
    {value : Value} {found : Bool} (ran : assignEntry table key value = some (after, found)) :
    Counted 0 table after := by
  obtain ⟨answer, findRan, _, _⟩ := csTableFindEntry_spec wf key
  cases answer with
  | none =>
      unfold assignEntry at ran
      simp only [findRan, Option.bind_eq_bind, Option.bind_some] at ran
      cases ran
      exact Counted.refl wf
  | some slot =>
      obtain ⟨old, here, _⟩ := csTableFindEntry_holds wf findRan
      rw [assignEntry_at wf here value] at ran
      cases ran
      have bound := (List.getElem?_eq_some_iff.mp here).1
      have keyHere : keyAt table.entries slot = some key := by
        unfold keyAt
        rw [here]
        rfl
      refine ⟨⟨?_, ?_, ?_⟩, (UInt32.add_zero _).symm, ?_⟩
      · rcases wf.shape with empty | ⟨long, probed⟩
        · rw [empty] at here
          cases here
        · right
          exact ⟨by simpa only [List.length_set] using long, probed.store bound
            (fun other there => probed.distinct other slot key there keyHere)
            (probed.reachable slot key keyHere) value⟩
      · simp only [usedSlots_set here ⟨some key, value⟩ (by simp [Entry.isFree])]
        simp only [Entry.isFree, Option.isNone_some, Bool.false_and]
        exact wf.counted
      · simpa only [List.length_set] using wf.load
      · intro _ other name there
        rw [keyAt_set bound]
        by_cases same : other = slot
        · rw [if_pos same]
          subst other
          exact keyHere.symm.trans there
        · rw [if_neg same]
          exact there

theorem changeTable_counted {table after : Table} (wf : table.WellFormed) {change : TableChange}
    (ran : changeTable table change = some after) :
    Counted (change.bumps table) table after := by
  cases change with
  | set key value =>
      obtain ⟨⟨reached, isNew⟩, stored, rfl⟩ := Option.map_eq_some_iff.mp ran
      exact csTableSet_counted wf stored
  | assign key value =>
      obtain ⟨⟨reached, found⟩, stored, rfl⟩ := Option.map_eq_some_iff.mp ran
      exact assignEntry_counted wf stored
  | delete key =>
      obtain ⟨⟨reached, removed⟩, deleted, rfl⟩ := Option.map_eq_some_iff.mp ran
      exact csTableDelete_counted wf deleted

theorem runChanges_counted {changes : List TableChange} {table after : Table}
    (wf : table.WellFormed) (ran : runChanges changes table = some after) :
    Counted (changeBumps changes table) table after := by
  induction changes generalizing table with
  | nil =>
      cases ran
      exact Counted.refl wf
  | cons change rest ih =>
      obtain ⟨middle, stepped, ran⟩ := Option.bind_eq_some_iff.mp ran
      have first := changeTable_counted wf stepped
      unfold changeBumps
      rw [stepped]
      exact first.trans (ih first.wellFormed ran)

/-! ### Calls as changes -/

theorem addEntries_eq (entries : List Entry) (table : Table) :
    addEntries entries table = runChanges (addChanges entries) table := by
  induction entries generalizing table with
  | nil => rfl
  | cons entry rest ih =>
      unfold addEntries addChanges
      rw [List.filterMap_cons]
      cases entry.key with
      | none => exact ih table
      | some key =>
          simp only [Option.map_some]
          show _ = ((csTableSet table key entry.value).map Prod.fst).bind _
          cases csTableSet table key entry.value with
          | none => rfl
          | some stored => exact ih stored.1

/-- The loop deletes the doomed keys from its slot on, and no delete moves the
entries that are still to come. -/
theorem removeEntries_eq (doomed : Entry → Bool) :
    ∀ (steps slot : Nat) (table : Table), table.WellFormed →
      slot + steps = table.entries.length →
      removeEntries doomed steps slot table =
        runChanges (removeChanges doomed (table.entries.drop slot)) table
  | 0, slot, table, wf, all => by
      rw [List.drop_of_length_le (by omega)]
      rfl
  | steps + 1, slot, table, wf, all => by
      have bound : slot < table.entries.length := by omega
      have here := List.getElem?_eq_getElem bound
      rw [List.drop_eq_getElem_cons bound]
      generalize table.entries[slot] = entry at here
      rw [removeEntries]
      simp only [here, Option.bind_eq_bind, Option.bind_some]
      unfold removeChanges
      cases dead : doomed entry with
      | false =>
          rw [List.filter_cons_of_neg (by rw [dead]; exact Bool.false_ne_true)]
          have goesOn := removeEntries_eq doomed steps (slot + 1) table wf (by omega)
          cases entry.key <;> exact goesOn
      | true =>
          rw [List.filter_cons_of_pos dead, List.filterMap_cons]
          cases held : entry.key with
          | none => exact removeEntries_eq doomed steps (slot + 1) table wf (by omega)
          | some key =>
              obtain ⟨smaller, flag, deleted, smallerWf, entries⟩ := csTableDelete_at wf here held
              have later := removeEntries_eq doomed steps (slot + 1) smaller smallerWf
                (by rw [entries, List.length_set]; omega)
              rw [entries, List.drop_set_of_lt (Nat.lt_succ_self slot)] at later
              simp only [deleted, if_true, Option.bind_some, Option.map_some]
              rw [later]
              show _ = ((csTableDelete table key).map Prod.fst).bind _
              rw [deleted]
              rfl

theorem stepCall_eq {table : Table} (wf : table.WellFormed) (call : TableCall) :
    stepCall table call = runChanges (call.changes table) table := by
  have single (change : TableChange) :
      changeTable table change = runChanges [change] table := by
    show _ = (changeTable table change).bind some
    exact (Option.bind_fun_some _).symm
  have removed (doomed : Entry → Bool) : removeEntries doomed table.capacity 0 table =
      runChanges (removeChanges doomed table.entries) table :=
    removeEntries_eq doomed table.capacity 0 table wf (Nat.zero_add _)
  cases call with
  | set key value => exact single (.set key value)
  | assign key value => exact single (.assign key value)
  | delete key => exact single (.delete key)
  | addAll source => exact addEntries_eq source.entries table
  | removeWhite marking => exact removed _
  | removeWhiteValues marking => exact removed _

theorem runCalls_counted {calls : List TableCall} {table after : Table} (wf : table.WellFormed)
    (ran : runCalls calls table = some after) :
    Counted (callBumps calls table) table after := by
  induction calls generalizing table with
  | nil =>
      cases ran
      exact Counted.refl wf
  | cons call rest ih =>
      obtain ⟨middle, stepped, ran⟩ := Option.bind_eq_some_iff.mp ran
      have first := runChanges_counted wf ((stepCall_eq wf call).symm.trans stepped)
      unfold callBumps
      rw [stepped]
      exact first.trans (ih first.wellFormed ran)

/-! ### A cached entry -/

/-- At every moment at which the table has the version the entry was looked up
at, and at which the rehashes and deletes in between are not a multiple of 2^32
other than none, the entry is still the key's: it is read and written as the
table reads and writes the key. -/
theorem cachedEntry_stays {early late : List TableCall} {table after : Table} {key : ObjString}
    {slot : Nat} (began : runCalls early csTableInit = some table)
    (found : csTableFindEntry table key = some (some slot))
    (ran : runCalls late table = some after)
    (once : callBumps late table = 0 ∨ callBumps late table % 2 ^ 32 ≠ 0)
    (same : after.version = table.version) :
    ∃ value, after.entries[slot]? = some { key := some key, value := value } ∧
      csTableGet after key = some (some value) ∧
      ∀ stored, assignEntry after key stored = some
        ({ after with entries := after.entries.set slot { key := some key, value := stored } },
          true) := by
  have wf := (runCalls_counted csTableInit_wellFormed began).wellFormed
  have counted := runCalls_counted wf ran
  have unmoved : callBumps late table = 0 := by
    rcases once with none_ | around
    · exact none_
    · have version := counted.version
      rw [same] at version
      have zero : UInt32.ofNat (callBumps late table) = 0 := by
        have cancelled := congrArg (fun number => number - table.version) version
        simp only [UInt32.sub_self, UInt32.add_comm table.version, UInt32.add_sub_cancel]
          at cancelled
        exact cancelled.symm
      have residue := congrArg UInt32.toNat zero
      rw [UInt32.toNat_ofNat'] at residue
      exact absurd residue around
  obtain ⟨old, here, _⟩ := csTableFindEntry_holds wf found
  have held : keyAt table.entries slot = some key := by
    unfold keyAt
    rw [here]
    rfl
  obtain ⟨entry, stillHere, keyEq⟩ := entry_of_keyAt (counted.stays unmoved slot key held)
  have entryEq : entry = { key := some key, value := entry.value } := by
    rw [← keyEq]
  rw [entryEq] at stillHere
  refine ⟨entry.value, stillHere, ?_, fun stored =>
    assignEntry_at counted.wellFormed stillHere stored⟩
  rw [csTableGet_eq counted.wellFormed, lookup_of_keyAt counted.wellFormed stillHere rfl]

private def nameA : ObjString := { chars := ascii "a" }

private def nameB : ObjString := { chars := ascii "b" }

private def defineNames : List TableCall :=
  [.set nameA .null, .set nameB .null]

private def twoNames : Table :=
  (runCalls defineNames csTableInit).getD csTableInit

private def slotOfA : Nat :=
  ((csTableFindEntry twoNames nameA).getD none).getD 0

private theorem twoNames_reached :
    runCalls defineNames csTableInit = some twoNames ∧
      csTableFindEntry twoNames nameA = some (some slotOfA) := by
  decide +kernel

theorem cachedEntry_stays_assigned :
    ∃ after, runCalls [.assign nameA .undefined, .delete { chars := ascii "c" }] twoNames =
        some after ∧
      ∃ value, after.entries[slotOfA]? = some { key := some nameA, value := value } ∧
        csTableGet after nameA = some (some value) ∧
        ∀ stored, assignEntry after nameA stored = some
          ({ after with
              entries := after.entries.set slotOfA { key := some nameA, value := stored } },
            true) := by
  obtain ⟨began, found⟩ := twoNames_reached
  have ends : (runCalls [.assign nameA .undefined, .delete { chars := ascii "c" }] twoNames).any
      (fun after => decide (after.version = twoNames.version)) = true := by decide +kernel
  obtain ⟨after, ran, same⟩ := (Option.any_eq_true _ _).mp ends
  exact ⟨after, ran,
    cachedEntry_stays began found ran (Or.inl (by decide +kernel)) (of_decide_eq_true same)⟩

def Table.atVersion (table : Table) (version : UInt32) : Table :=
  { table with version := version }

theorem csTableDelete_atVersion (table : Table) (version : UInt32) (key : ObjString) :
    csTableDelete (table.atVersion version) key = (csTableDelete table key).map
      (fun deleted =>
        (deleted.1.atVersion (if deleted.2 then version + 1 else version), deleted.2)) := by
  unfold csTableDelete Table.atVersion
  dsimp only
  split
  · rfl
  · cases findEntry table.entries key with
    | none => rfl
    | some index =>
        simp only [Option.bind_eq_bind, Option.bind_some]
        cases table.entries[index]? with
        | none => rfl
        | some entry =>
            simp only [Option.bind_some]
            cases entry.key <;> rfl

theorem storeEntry_atVersion (table : Table) (version : UInt32) (key : ObjString)
    (value : Value) :
    storeEntry (table.atVersion version) key value = (storeEntry table key value).map
      (fun stored => (stored.1.atVersion version, stored.2)) := by
  unfold storeEntry Table.atVersion
  dsimp only
  cases findEntry table.entries key with
  | none => rfl
  | some index =>
      simp only [Option.bind_eq_bind, Option.bind_some]
      cases table.entries[index]? <;> rfl

theorem runCalls_append (first second : List TableCall) (table : Table) :
    runCalls (first ++ second) table = (runCalls first table).bind (runCalls second) := by
  induction first generalizing table with
  | nil => rfl
  | cons call rest ih =>
      simp only [List.cons_append, runCalls, Option.bind_assoc]
      exact Option.bind_congr fun after _ => ih after

private def again : List TableCall :=
  [.delete nameB, .set nameB .null]

private def withoutB : Table :=
  ((csTableDelete twoNames nameB).map Prod.fst).getD csTableInit

private theorem again_counts (version : UInt32) :
    runCalls again (twoNames.atVersion version) = some (twoNames.atVersion (version + 1)) := by
  have deletes : csTableDelete twoNames nameB = some (withoutB, true) := by decide +kernel
  have room : ¬4 * (withoutB.count + 1) > 3 * withoutB.capacity := by decide +kernel
  have stores : (storeEntry withoutB nameB .null).map
      (fun stored => stored.1.atVersion twoNames.version) = some twoNames := by
    decide +kernel
  obtain ⟨⟨stored, isNew⟩, storedRan, storedEq⟩ := Option.map_eq_some_iff.mp stores
  have deleted := csTableDelete_atVersion twoNames version nameB
  rw [deletes] at deleted
  have refilled := storeEntry_atVersion withoutB (version + 1) nameB .null
  rw [storedRan] at refilled
  have set : csTableSet (withoutB.atVersion (version + 1)) nameB .null =
      some (twoNames.atVersion (version + 1), isNew) := by
    unfold csTableSet
    rw [if_neg (show ¬4 * ((withoutB.atVersion (version + 1)).count + 1) >
      3 * (withoutB.atVersion (version + 1)).capacity from room), refilled, ← storedEq]
    rfl
  simp only [again, runCalls, stepCall, deleted, Option.map_some, Option.bind_some, if_true, set]

private theorem rounds_count (rounds : Nat) (version : UInt32) :
    runCalls (List.replicate rounds again).flatten (twoNames.atVersion version) =
      some (twoNames.atVersion (version + UInt32.ofNat rounds)) := by
  induction rounds generalizing version with
  | zero => exact congrArg (fun next => some (twoNames.atVersion next)) (UInt32.add_zero version).symm
  | succ rounds ih =>
      rw [List.replicate_succ, List.flatten_cons, runCalls_append, again_counts, Option.bind_some,
        ih, Nat.add_comm rounds 1, UInt32.ofNat_add, UInt32.add_assoc]
      rfl

/-- After 2^32 deletes the version is what it was, and the name is gone. -/
theorem version_comes_round :
    ¬∀ (early late : List TableCall) (table after : Table) (key : ObjString) (slot : Nat),
      runCalls early csTableInit = some table →
      csTableFindEntry table key = some (some slot) →
      runCalls late table = some after → after.version = table.version →
      ∃ value, after.entries[slot]? = some { key := some key, value := value } := by
  intro claim
  obtain ⟨began, found⟩ := twoNames_reached
  have rounds := rounds_count (2 ^ 32 - 1) twoNames.version
  have last := csTableDelete_atVersion twoNames
    (twoNames.version + UInt32.ofNat (2 ^ 32 - 1)) nameA
  have deletes : (csTableDelete twoNames nameA).map (fun deleted =>
      (deleted.1.entries[slotOfA]?, deleted.2)) = some (some Entry.tombstone, true) := by
    decide +kernel
  obtain ⟨⟨gone, flag⟩, goneRan, goneEq⟩ := Option.map_eq_some_iff.mp deletes
  obtain ⟨buried, rfl⟩ := Prod.mk.inj goneEq
  rw [goneRan] at last
  have ran : runCalls ((List.replicate (2 ^ 32 - 1) again).flatten ++ [.delete nameA]) twoNames =
      some (gone.atVersion (twoNames.version + UInt32.ofNat (2 ^ 32 - 1) + 1)) := by
    have started : twoNames.atVersion twoNames.version = twoNames := rfl
    rw [started] at rounds
    rw [runCalls_append, rounds]
    simp only [Option.bind_some, runCalls, stepCall, last, Option.map_some, if_true]
  have same : (gone.atVersion (twoNames.version + UInt32.ofNat (2 ^ 32 - 1) + 1)).version =
      twoNames.version := by
    show twoNames.version + UInt32.ofNat (2 ^ 32 - 1) + 1 = twoNames.version
    rw [UInt32.add_assoc]
    exact UInt32.add_zero twoNames.version
  obtain ⟨value, here⟩ := claim _ _ _ _ nameA slotOfA began found ran same
  have wrong := here.symm.trans buried
  cases wrong

end CScript
