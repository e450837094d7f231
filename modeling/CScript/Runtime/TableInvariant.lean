/-
The load and probe invariant of the hash table.

A table is well formed when no key is in two slots, no truly empty slot lies
between a key and its home, and the count of used slots leaves a quarter of the
capacity free.  Each operation is given one specification here: it ends, it
keeps the invariant, and it acts on the table's contents as a finite map.
-/

import CScript.Runtime.Table

namespace CScript

open Foundation

/-! ### Reading slots -/

def keyAt (entries : List Entry) (slot : Nat) : Option ObjString :=
  entries[slot]?.bind Entry.key

def freeAt (entries : List Entry) (slot : Nat) : Bool :=
  entries[slot]?.any Entry.isFree

def homeSlot (entries : List Entry) (key : ObjString) : Nat :=
  LinearProbe.mask key.hash.toNat entries.length

theorem Entry.eq_empty_of_isFree {entry : Entry} (free : entry.isFree = true) :
    entry = Entry.empty := by
  cases entry with
  | mk key value =>
      simp only [Entry.isFree, Bool.and_eq_true, Option.isNone_iff_eq_none,
        decide_eq_true_eq] at free
      rw [free.1, free.2]
      rfl

theorem keyAt_bound {entries : List Entry} {slot : Nat} {key : ObjString}
    (held : keyAt entries slot = some key) : slot < entries.length := by
  unfold keyAt at held
  cases found : entries[slot]? with
  | none => rw [found] at held; cases held
  | some entry => exact (List.getElem?_eq_some_iff.mp found).1

theorem freeAt_keyAt {entries : List Entry} {slot : Nat}
    (free : freeAt entries slot = true) : keyAt entries slot = none := by
  unfold freeAt at free
  unfold keyAt
  cases found : entries[slot]? with
  | none => rfl
  | some entry =>
      simp only [found, Option.any_some, Entry.isFree, Bool.and_eq_true,
        Option.isNone_iff_eq_none] at free
      exact free.1

theorem keyAt_set {entries : List Entry} {dest : Nat} (bound : dest < entries.length)
    (entry : Entry) (slot : Nat) :
    keyAt (entries.set dest entry) slot =
      if slot = dest then entry.key else keyAt entries slot := by
  unfold keyAt
  rw [List.getElem?_set]
  by_cases same : slot = dest
  · subst slot
    simp only [if_true, if_pos bound, Option.bind_some]
  · rw [if_neg (fun equal => same equal.symm), if_neg same]

theorem freeAt_set {entries : List Entry} {dest : Nat} (bound : dest < entries.length)
    (entry : Entry) (slot : Nat) :
    freeAt (entries.set dest entry) slot =
      if slot = dest then entry.isFree else freeAt entries slot := by
  unfold freeAt
  rw [List.getElem?_set]
  by_cases same : slot = dest
  · subst slot
    simp only [if_true, if_pos bound, Option.any_some]
  · rw [if_neg (fun equal => same equal.symm), if_neg same]

/-! ### The probe invariant -/

structure Probed (entries : List Entry) : Prop where
  power : ∃ exponent, entries.length = 2 ^ exponent
  distinct : ∀ left right key, keyAt entries left = some key →
    keyAt entries right = some key → left = right
  reachable : ∀ slot key, keyAt entries slot = some key →
    LinearProbe.Unobstructed entries.length (freeAt entries) (homeSlot entries key) slot

theorem Probed.positive {entries : List Entry} (probed : Probed entries) :
    0 < entries.length := by
  obtain ⟨exponent, equal⟩ := probed.power
  rw [equal]
  exact Nat.two_pow_pos exponent

theorem Probed.home_bound {entries : List Entry} (probed : Probed entries)
    (key : ObjString) : homeSlot entries key < entries.length := by
  unfold homeSlot
  rw [LinearProbe.mask_eq_mod probed.power]
  exact Nat.mod_lt _ probed.positive

/-- A probe is a scan for the key or a truly empty slot; when the key is not
met it answers the first slot without a key, be it a tombstone or empty. -/
private theorem findEntryLoop_eq_scan {entries : List Entry}
    (power : ∃ exponent, entries.length = 2 ^ exponent) (key : ObjString) :
    ∀ (fuel index : Nat) (tombstone : Option Nat), index < entries.length →
      findEntryLoop entries key fuel index tombstone =
        (LinearProbe.scan entries.length
          (fun slot => freeAt entries slot || decide (keyAt entries slot = some key))
          fuel index).bind (fun found =>
            if keyAt entries found = some key then some found
            else match tombstone with
              | some earlier => some earlier
              | none => LinearProbe.scan entries.length
                  (fun slot => (keyAt entries slot).isNone) fuel index)
  | 0, _, _, _ => rfl
  | fuel + 1, index, tombstone, bound => by
      obtain ⟨entry, found⟩ : ∃ entry, entries[index]? = some entry :=
        ⟨entries[index], List.getElem?_eq_getElem bound⟩
      have nextBound : (index + 1) % entries.length < entries.length :=
        Nat.mod_lt _ (Nat.lt_of_le_of_lt (Nat.zero_le index) bound)
      have ih := findEntryLoop_eq_scan power key fuel ((index + 1) % entries.length)
      unfold findEntryLoop LinearProbe.scan
      rw [found]
      simp only [LinearProbe.mask_eq_mod power]
      have keyEq : keyAt entries index = entry.key := by
        unfold keyAt; rw [found]; rfl
      have freeEq : freeAt entries index = entry.isFree := by
        unfold freeAt; rw [found]; rfl
      cases held : entry.key with
      | none =>
          rw [held] at keyEq
          by_cases empty : entry.value = .null
          · have free : freeAt entries index = true := by
              simp [freeEq, Entry.isFree, held, empty]
            simp only [if_pos empty, free, Bool.true_or, if_true, Option.bind_some, keyEq,
              reduceCtorEq, if_false, Option.isNone_none]
            cases tombstone <;> rfl
          · have notFree : freeAt entries index = false := by
              simp [freeEq, Entry.isFree, held, empty]
            simp only [if_neg empty, notFree, keyEq, reduceCtorEq, decide_false, Bool.or_false,
              Bool.false_eq_true, if_false, Option.isNone_none, if_true]
            rw [ih _ nextBound]
            cases tombstone <;> rfl
      | some other =>
          rw [held] at keyEq
          have notFree : freeAt entries index = false := by
            simp [freeEq, Entry.isFree, held]
          by_cases same : other = key
          · subst other
            simp [keyEq]
          · simp only [notFree, keyEq, Option.some.injEq, same, decide_false,
              Bool.or_false, Bool.false_eq_true, if_false, Option.isNone_some]
            exact ih tombstone nextBound

private theorem findEntry_eq_scan {entries : List Entry} (probed : Probed entries)
    (key : ObjString) :
    findEntry entries key =
      (LinearProbe.scan entries.length
        (fun slot => freeAt entries slot || decide (keyAt entries slot = some key))
        entries.length (homeSlot entries key)).bind (fun found =>
          if keyAt entries found = some key then some found
          else LinearProbe.scan entries.length
            (fun slot => (keyAt entries slot).isNone) entries.length
            (homeSlot entries key)) :=
  findEntryLoop_eq_scan probed.power key _ _ none (probed.home_bound key)

theorem findEntry_present {entries : List Entry} (probed : Probed entries)
    {slot : Nat} {key : ObjString} (held : keyAt entries slot = some key) :
    findEntry entries key = some slot := by
  have found := LinearProbe.scan_finds_match (freeAt entries)
    (fun slot => decide (keyAt entries slot = some key))
    (probed.home_bound key) (keyAt_bound held) (decide_eq_true held)
    (fun other _ matched => probed.distinct other slot key (of_decide_eq_true matched) held)
    (probed.reachable slot key held)
  rw [findEntry_eq_scan probed, found, Option.bind_some, if_pos held]

/-- For a key that is not in the table the probe ends at a slot without a key,
and no truly empty slot comes before it. -/
theorem findEntry_absent {entries : List Entry} (probed : Probed entries)
    {key : ObjString} (absent : ∀ slot, keyAt entries slot ≠ some key)
    {empty : Nat} (free : freeAt entries empty = true) (bound : empty < entries.length) :
    ∃ dest, findEntry entries key = some dest ∧ dest < entries.length ∧
      keyAt entries dest = none ∧
      LinearProbe.Unobstructed entries.length (freeAt entries) (homeSlot entries key) dest := by
  obtain ⟨stop, stopEq, _, _, _⟩ := LinearProbe.scan_stops
    (fun slot => freeAt entries slot || decide (keyAt entries slot = some key))
    (probed.home_bound key) bound (by simp only [free, Bool.true_or])
  obtain ⟨dest, destEq, destBound, keyless, clear⟩ := LinearProbe.scan_stops
    (fun slot => (keyAt entries slot).isNone)
    (probed.home_bound key) bound (by simp only [freeAt_keyAt free, Option.isNone_none])
  refine ⟨dest, ?_, destBound, Option.isNone_iff_eq_none.mp keyless, clear.mono ?_⟩
  · rw [findEntry_eq_scan probed, stopEq, Option.bind_some, if_neg (absent stop)]
    exact destEq
  · intro index emptyThere
    simp only [freeAt_keyAt emptyThere, Option.isNone_none]

theorem Probed.store {entries : List Entry} (probed : Probed entries) {dest : Nat}
    {key : ObjString} (bound : dest < entries.length)
    (elsewhere : ∀ slot, keyAt entries slot = some key → slot = dest)
    (clear : LinearProbe.Unobstructed entries.length (freeAt entries)
      (homeSlot entries key) dest) (value : Value) :
    Probed (entries.set dest { key := some key, value := value }) := by
  have fewer : ∀ index, freeAt (entries.set dest ⟨some key, value⟩) index = true →
      freeAt entries index = true := by
    intro index free
    rw [freeAt_set bound] at free
    split at free
    · simp [Entry.isFree] at free
    · exact free
  constructor
  · simpa only [List.length_set] using probed.power
  · intro left right other leftHeld rightHeld
    rw [keyAt_set bound] at leftHeld rightHeld
    by_cases atLeft : left = dest <;> by_cases atRight : right = dest
    · rw [atLeft, atRight]
    · rw [if_pos atLeft] at leftHeld
      rw [if_neg atRight] at rightHeld
      cases leftHeld
      exact absurd (elsewhere right rightHeld) atRight
    · rw [if_neg atLeft] at leftHeld
      rw [if_pos atRight] at rightHeld
      cases rightHeld
      exact absurd (elsewhere left leftHeld) atLeft
    · rw [if_neg atLeft] at leftHeld
      rw [if_neg atRight] at rightHeld
      exact probed.distinct left right other leftHeld rightHeld
  · intro slot other held
    simp only [homeSlot, List.length_set]
    rw [keyAt_set bound] at held
    by_cases here : slot = dest
    · rw [if_pos here] at held
      cases held
      subst here
      exact clear.mono fewer
    · rw [if_neg here] at held
      exact (probed.reachable slot other held).mono fewer

theorem Probed.bury {entries : List Entry} (probed : Probed entries) {dest : Nat}
    (bound : dest < entries.length) : Probed (entries.set dest Entry.tombstone) := by
  have fewer : ∀ index, freeAt (entries.set dest Entry.tombstone) index = true →
      freeAt entries index = true := by
    intro index free
    rw [freeAt_set bound] at free
    split at free
    · simp [Entry.isFree, Entry.tombstone] at free
    · exact free
  have kept : ∀ slot key, keyAt (entries.set dest Entry.tombstone) slot = some key →
      keyAt entries slot = some key := by
    intro slot key held
    rw [keyAt_set bound] at held
    split at held
    · simp [Entry.tombstone] at held
    · exact held
  constructor
  · simpa only [List.length_set] using probed.power
  · intro left right key leftHeld rightHeld
    exact probed.distinct left right key (kept left key leftHeld) (kept right key rightHeld)
  · intro slot key held
    simp only [homeSlot, List.length_set]
    exact (probed.reachable slot key (kept slot key held)).mono fewer

/-! ### The contents as a finite map -/

def lookupEntries (entries : List Entry) (key : ObjString) : Option Value :=
  (entries.find? (fun entry => decide (entry.key = some key))).map Entry.value

def Table.lookup (table : Table) (key : ObjString) : Option Value :=
  lookupEntries table.entries key

theorem lookupEntries_eq_none {entries : List Entry} {key : ObjString} :
    lookupEntries entries key = none ↔ ∀ slot, keyAt entries slot ≠ some key := by
  unfold lookupEntries
  rw [Option.map_eq_none_iff, List.find?_eq_none]
  constructor
  · intro missing slot held
    unfold keyAt at held
    cases found : entries[slot]? with
    | none => rw [found] at held; cases held
    | some entry =>
        rw [found, Option.bind_some] at held
        exact missing entry (List.mem_of_getElem? found) (decide_eq_true held)
  · intro absent entry member
    obtain ⟨slot, found⟩ := List.mem_iff_getElem?.mp member
    intro matched
    apply absent slot
    unfold keyAt
    rw [found, Option.bind_some]
    exact of_decide_eq_true matched

theorem lookupEntries_eq_some {entries : List Entry}
    (distinct : ∀ left right key, keyAt entries left = some key →
      keyAt entries right = some key → left = right)
    {slot : Nat} {entry : Entry} {key : ObjString}
    (here : entries[slot]? = some entry) (held : entry.key = some key) :
    lookupEntries entries key = some entry.value := by
  have keyHere : keyAt entries slot = some key := by
    unfold keyAt; rw [here, Option.bind_some, held]
  unfold lookupEntries
  cases found : entries.find? (fun entry => decide (entry.key = some key)) with
  | none =>
      have missing := List.find?_eq_none.mp found entry (List.mem_of_getElem? here)
      exact absurd (decide_eq_true held) missing
  | some other =>
      have otherKey : other.key = some key := by
        simpa using List.find?_some found
      obtain ⟨index, otherHere⟩ := List.mem_iff_getElem?.mp (List.mem_of_find?_eq_some found)
      have keyThere : keyAt entries index = some key := by
        unfold keyAt; rw [otherHere, Option.bind_some, otherKey]
      have same := distinct index slot key keyThere keyHere
      subst same
      rw [here] at otherHere
      cases otherHere
      rfl

theorem lookupEntries_slot {entries : List Entry} {key : ObjString} {value : Value}
    (found : lookupEntries entries key = some value) :
    ∃ slot : Nat, entries[slot]? = some { key := some key, value := value } := by
  unfold lookupEntries at found
  obtain ⟨entry, at_, valueEq⟩ := Option.map_eq_some_iff.mp found
  obtain ⟨slot, here⟩ := List.mem_iff_getElem?.mp (List.mem_of_find?_eq_some at_)
  have keyEq : entry.key = some key := by simpa using List.find?_some at_
  refine ⟨slot, ?_⟩
  rw [here, ← keyEq, ← valueEq]

private theorem lookupEntries_set_other {entries : List Entry}
    {dest : Nat} (bound : dest < entries.length) (entry : Entry)
    (after : Probed (entries.set dest entry)) {key : ObjString}
    (notNew : entry.key ≠ some key) (notOld : keyAt entries dest ≠ some key) :
    lookupEntries (entries.set dest entry) key = lookupEntries entries key := by
  cases was : lookupEntries entries key with
  | none =>
      have absent := lookupEntries_eq_none.mp was
      apply lookupEntries_eq_none.mpr
      intro slot held
      rw [keyAt_set bound] at held
      split at held
      · exact notNew held
      · exact absent slot held
  | some value =>
      obtain ⟨slot, here⟩ := lookupEntries_slot was
      have elsewhere : dest ≠ slot := by
        intro same
        subst same
        apply notOld
        unfold keyAt
        rw [here, Option.bind_some]
      have kept : (entries.set dest entry)[slot]? =
          some { key := some key, value := value } := by
        rw [List.getElem?_set_ne elsewhere]
        exact here
      exact lookupEntries_eq_some after.distinct kept rfl

theorem lookupEntries_store {entries : List Entry} {dest : Nat}
    {key : ObjString} {value : Value} (bound : dest < entries.length)
    (after : Probed (entries.set dest { key := some key, value := value }))
    (vacant : keyAt entries dest = none ∨ keyAt entries dest = some key) :
    lookupEntries (entries.set dest { key := some key, value := value }) =
      Function.update (lookupEntries entries) key (some value) := by
  funext other
  by_cases same : other = key
  · subst other
    rw [Function.update_self]
    exact lookupEntries_eq_some after.distinct (List.getElem?_set_self bound) rfl
  · rw [Function.update_of_ne same]
    apply lookupEntries_set_other bound _ after
    · intro equal
      exact same (Option.some.inj equal).symm
    · intro held
      rcases vacant with empty | mine
      · rw [empty] at held; cases held
      · rw [mine] at held
        exact same (Option.some.inj held).symm

theorem lookupEntries_bury {entries : List Entry} (probed : Probed entries) {dest : Nat}
    {key : ObjString} (held : keyAt entries dest = some key) :
    lookupEntries (entries.set dest Entry.tombstone) =
      Function.update (lookupEntries entries) key none := by
  have bound := keyAt_bound held
  funext other
  by_cases same : other = key
  · subst other
    rw [Function.update_self]
    apply lookupEntries_eq_none.mpr
    intro slot found
    rw [keyAt_set bound] at found
    split at found
    · cases found
    · rename_i elsewhere
      exact elsewhere (probed.distinct slot dest key found held)
  · rw [Function.update_of_ne same]
    apply lookupEntries_set_other bound _ (probed.bury bound)
    · intro equal; cases equal
    · intro found
      rw [held] at found
      exact same (Option.some.inj found).symm

/-! ### Counting used slots -/

def usedSlots (entries : List Entry) : Nat :=
  entries.countP (fun entry => !entry.isFree)

def liveSlots (entries : List Entry) : Nat :=
  entries.countP (fun entry => entry.key.isSome)

theorem liveSlots_le_usedSlots (entries : List Entry) :
    liveSlots entries ≤ usedSlots entries := by
  apply List.countP_mono_left
  intro entry _ live
  cases held : entry.key with
  | none => rw [held] at live; cases live
  | some key => simp [Entry.isFree, held]

theorem exists_free (entries : List Entry) (room : usedSlots entries < entries.length) :
    ∃ slot, freeAt entries slot = true ∧ slot < entries.length := by
  by_contra none
  have allUsed : ∀ entry ∈ entries, (!entry.isFree) = true := by
    intro entry member
    obtain ⟨slot, here⟩ := List.mem_iff_getElem?.mp member
    cases free : entry.isFree with
    | false => rfl
    | true =>
        refine absurd ⟨slot, ?_, (List.getElem?_eq_some_iff.mp here).1⟩ none
        unfold freeAt
        rw [here, Option.any_some, free]
  have full : usedSlots entries = entries.length := List.countP_eq_length.mpr allUsed
  omega

theorem usedSlots_set {entries : List Entry} {dest : Nat} {old : Entry}
    (here : entries[dest]? = some old) (new : Entry) (used : new.isFree = false) :
    usedSlots (entries.set dest new) =
      if old.isFree then usedSlots entries + 1 else usedSlots entries := by
  obtain ⟨bound, oldEq⟩ := List.getElem?_eq_some_iff.mp here
  unfold usedSlots
  rw [List.countP_set bound, oldEq, used]
  cases free : old.isFree with
  | true => simp
  | false =>
      have positive : 0 < entries.countP (fun entry => !entry.isFree) :=
        List.countP_pos_iff.mpr ⟨old, List.mem_of_getElem? here, by simp [free]⟩
      simp only [Bool.not_false, if_true, Bool.false_eq_true, if_false]
      omega

/-! ### Well-formed tables -/

structure Table.WellFormed (table : Table) : Prop where
  shape : table.entries = [] ∨ 8 ≤ table.entries.length ∧ Probed table.entries
  counted : table.count = usedSlots table.entries
  load : 4 * table.count ≤ 3 * table.entries.length

theorem csTableInit_wellFormed : csTableInit.WellFormed where
  shape := Or.inl rfl
  counted := rfl
  load := Nat.le_refl 0

theorem csTableInit_lookup (key : ObjString) : csTableInit.lookup key = none := rfl

theorem Table.WellFormed.probed {table : Table} (wf : table.WellFormed)
    (used : table.count ≠ 0) : Probed table.entries := by
  rcases wf.shape with empty | ⟨_, probed⟩
  · have zero := wf.counted
    rw [empty] at zero
    exact absurd zero used
  · exact probed

theorem Table.WellFormed.exists_free {table : Table} (wf : table.WellFormed)
    (room : table.entries ≠ []) :
    ∃ slot, freeAt table.entries slot = true ∧ slot < table.entries.length := by
  have positive : 0 < table.entries.length := List.length_pos_iff.mpr room
  apply CScript.exists_free
  have load := wf.load
  rw [wf.counted] at load
  omega

private theorem entry_at_key {entries : List Entry} {slot : Nat} {key : ObjString}
    (held : keyAt entries slot = some key) :
    ∃ entry, entries[slot]? = some entry ∧ entry.key = some key := by
  unfold keyAt at held
  exact Option.bind_eq_some_iff.mp held

private theorem entry_at_bound {entries : List Entry} {slot : Nat}
    (bound : slot < entries.length) : ∃ entry, entries[slot]? = some entry :=
  ⟨entries[slot], List.getElem?_eq_getElem bound⟩

private theorem keyAt_entry {entries : List Entry} {slot : Nat} {entry : Entry}
    (here : entries[slot]? = some entry) : keyAt entries slot = entry.key := by
  unfold keyAt
  rw [here, Option.bind_some]

private theorem find_then_read {table : Table} (wf : table.WellFormed)
    (used : table.count ≠ 0) (key : ObjString) :
    ∃ (slot : Nat) (entry : Entry), findEntry table.entries key = some slot ∧
      table.entries[slot]? = some entry ∧
      ((entry.key = some key ∧ table.lookup key = some entry.value) ∨
        (entry.key = none ∧ table.lookup key = none)) := by
  have probed := wf.probed used
  have room : table.entries ≠ [] := by
    intro empty
    have zero := wf.counted
    rw [empty] at zero
    exact used zero
  by_cases present : ∃ slot, keyAt table.entries slot = some key
  · obtain ⟨slot, held⟩ := present
    obtain ⟨entry, here, keyEq⟩ := entry_at_key held
    exact ⟨slot, entry, findEntry_present probed held, here,
      Or.inl ⟨keyEq, lookupEntries_eq_some probed.distinct here keyEq⟩⟩
  · have absent : ∀ slot, keyAt table.entries slot ≠ some key :=
      fun slot held => present ⟨slot, held⟩
    obtain ⟨empty, free, bound⟩ := wf.exists_free room
    obtain ⟨dest, found, destBound, keyless, _⟩ := findEntry_absent probed absent free bound
    obtain ⟨entry, here⟩ := entry_at_bound destBound
    rw [keyAt_entry here] at keyless
    exact ⟨dest, entry, found, here, Or.inr ⟨keyless, lookupEntries_eq_none.mpr absent⟩⟩

private theorem lookup_of_empty {table : Table} (wf : table.WellFormed)
    (unused : table.count = 0) (key : ObjString) : table.lookup key = none := by
  apply lookupEntries_eq_none.mpr
  intro slot held
  obtain ⟨entry, here, keyEq⟩ := entry_at_key held
  have positive : 0 < usedSlots table.entries :=
    List.countP_pos_iff.mpr ⟨entry, List.mem_of_getElem? here, by simp [Entry.isFree, keyEq]⟩
  have counted := wf.counted
  omega

theorem csTableGet_eq {table : Table} (wf : table.WellFormed) (key : ObjString) :
    csTableGet table key = some (table.lookup key) := by
  unfold csTableGet
  by_cases unused : table.count = 0
  · rw [if_pos unused, lookup_of_empty wf unused key]
  · rw [if_neg unused]
    obtain ⟨slot, entry, found, here, present | absent⟩ := find_then_read wf unused key
    · simp [found, here, present.1, present.2]
    · simp [found, here, absent.1, absent.2]

/-- `csTableFindEntry` answers a live slot of the key exactly when the map
holds the key, and that slot holds the value the map holds. -/
theorem csTableFindEntry_spec {table : Table} (wf : table.WellFormed) (key : ObjString) :
    ∃ answer, csTableFindEntry table key = some answer ∧
      answer.bind (fun slot => table.entries[slot]?) =
        (table.lookup key).map (fun value => { key := some key, value := value }) ∧
      (answer = none ↔ table.lookup key = none) := by
  unfold csTableFindEntry
  by_cases unused : table.count = 0
  · rw [if_pos unused, lookup_of_empty wf unused key]
    exact ⟨none, rfl, rfl, by simp⟩
  · rw [if_neg unused]
    obtain ⟨slot, entry, found, here, present | absent⟩ := find_then_read wf unused key
    · refine ⟨some slot, by simp [found, here, present.1], ?_, by simp [present.2]⟩
      rw [present.2, Option.bind_some, here, Option.map_some, ← present.1]
    · exact ⟨none, by simp [found, here, absent.1], by simp [absent.2], by simp [absent.2]⟩

theorem csTableDelete_spec {table : Table} (wf : table.WellFormed) (key : ObjString) :
    ∃ after, csTableDelete table key = some (after, (table.lookup key).isSome) ∧
      after.WellFormed ∧ after.lookup = Function.update table.lookup key none := by
  unfold csTableDelete
  by_cases unused : table.count = 0
  · rw [if_pos unused, lookup_of_empty wf unused key]
    refine ⟨table, rfl, wf, ?_⟩
    rw [← lookup_of_empty wf unused key, Function.update_eq_self]
  · rw [if_neg unused]
    obtain ⟨slot, entry, found, here, present | absent⟩ := find_then_read wf unused key
    · have held : keyAt table.entries slot = some key := by
        rw [keyAt_entry here, present.1]
      have probed := wf.probed unused
      have notFree : entry.isFree = false := by simp [Entry.isFree, present.1]
      refine ⟨{ table with
          entries := table.entries.set slot Entry.tombstone
          version := table.version + 1 },
        by simp [found, here, present.1, present.2], ?_,
        lookupEntries_bury probed held⟩
      have long : 8 ≤ table.entries.length := by
        rcases wf.shape with empty | ⟨long, _⟩
        · rw [empty] at here; cases here
        · exact long
      constructor
      · right
        exact ⟨by simpa only [List.length_set] using long, probed.bury (keyAt_bound held)⟩
      · simp only [usedSlots_set here Entry.tombstone rfl, notFree]
        exact wf.counted
      · simpa only [List.length_set] using wf.load
    · refine ⟨table, by simp [found, here, absent.1, absent.2], wf, ?_⟩
      rw [← absent.2, Function.update_eq_self]

private theorem storeEntry_spec {table : Table} (probed : Probed table.entries)
    (long : 8 ≤ table.entries.length) (counted : table.count = usedSlots table.entries)
    (load : 4 * (table.count + 1) ≤ 3 * table.entries.length)
    (key : ObjString) (value : Value) :
    ∃ after, storeEntry table key value = some (after, (table.lookup key).isNone) ∧
      after.WellFormed ∧ after.lookup = Function.update table.lookup key (some value) ∧
      after.entries.length = table.entries.length ∧ table.count ≤ after.count ∧
      after.count ≤ table.count + (if (table.lookup key).isSome then 0 else 1) := by
  obtain ⟨empty, free, emptyBound⟩ :=
    CScript.exists_free table.entries (by omega)
  by_cases present : ∃ slot, keyAt table.entries slot = some key
  · obtain ⟨slot, held⟩ := present
    obtain ⟨entry, here, keyEq⟩ := entry_at_key held
    have found := findEntry_present probed held
    have holds : table.lookup key = some entry.value :=
      lookupEntries_eq_some probed.distinct here keyEq
    have notFree : entry.isFree = false := by simp [Entry.isFree, keyEq]
    have stored := probed.store (keyAt_bound held)
      (fun other there => probed.distinct other slot key there held)
      (probed.reachable slot key held) value
    refine ⟨{ table with
        entries := table.entries.set slot { key := some key, value := value } },
      by simp [storeEntry, found, here, keyEq, holds], ?_,
      lookupEntries_store (keyAt_bound held) stored (Or.inr held),
      List.length_set, Nat.le_refl _, Nat.le_add_right _ _⟩
    constructor
    · right
      exact ⟨by simpa only [List.length_set] using long, stored⟩
    · simp only [usedSlots_set here ⟨some key, value⟩ (by simp [Entry.isFree]), notFree]
      exact counted
    · simp only [List.length_set]; omega
  · have absent : ∀ slot, keyAt table.entries slot ≠ some key :=
      fun slot held => present ⟨slot, held⟩
    obtain ⟨dest, found, destBound, keyless, clear⟩ :=
      findEntry_absent probed absent free emptyBound
    obtain ⟨entry, here⟩ := entry_at_bound destBound
    have keyNone : entry.key = none := by rw [← keyAt_entry here]; exact keyless
    have holds : table.lookup key = none := lookupEntries_eq_none.mpr absent
    have stored := probed.store destBound
      (fun other there => absurd there (absent other)) clear value
    have freeIff : entry.isFree = decide (entry.value = .null) := by
      simp [Entry.isFree, keyNone]
    refine ⟨{ table with
        count := if decide (entry.value = .null) then table.count + 1 else table.count
        entries := table.entries.set dest { key := some key, value := value } },
      by simp [storeEntry, found, here, keyNone, holds], ?_,
      lookupEntries_store destBound stored (Or.inl keyless),
      List.length_set, ?_, ?_⟩
    · constructor
      · right
        exact ⟨by simpa only [List.length_set] using long, stored⟩
      · simp only [usedSlots_set here ⟨some key, value⟩ (by simp [Entry.isFree]), freeIff,
          counted]
      · simp only [List.length_set]
        split <;> omega
    · simp only []
      split <;> omega
    · simp only [holds, Option.isSome_none, Bool.false_eq_true, if_false]
      split <;> omega

/-! ### Growing -/

private structure Rehashed (entries : List Entry) (count : Nat) : Prop where
  probed : Probed entries
  fresh : ∀ slot, slot < entries.length → keyAt entries slot = none →
    freeAt entries slot = true
  counted : count = usedSlots entries

private theorem rehashed_replicate {capacity : Nat}
    (power : ∃ exponent, capacity = 2 ^ exponent) :
    Rehashed (List.replicate capacity Entry.empty) 0 := by
  have keyless : ∀ slot, keyAt (List.replicate capacity Entry.empty) slot = none := by
    intro slot
    unfold keyAt
    rw [List.getElem?_replicate]
    split <;> rfl
  constructor
  · constructor
    · simpa only [List.length_replicate] using power
    · intro left _ key held
      rw [keyless left] at held; cases held
    · intro slot key held
      rw [keyless slot] at held; cases held
  · intro slot bound _
    rw [List.length_replicate] at bound
    unfold freeAt
    rw [List.getElem?_replicate, if_pos bound]
    rfl
  · unfold usedSlots
    rw [List.countP_replicate]
    rfl

private theorem rehashEntries_step {entries : List Entry} {count : Nat}
    (state : Rehashed entries count) (room : count < entries.length) {key : ObjString}
    (absent : lookupEntries entries key = none) (value : Value) :
    ∃ dest, findEntry entries key = some dest ∧
      Rehashed (entries.set dest { key := some key, value := value }) (count + 1) ∧
      lookupEntries (entries.set dest { key := some key, value := value }) =
        Function.update (lookupEntries entries) key (some value) := by
  have noSlot := lookupEntries_eq_none.mp absent
  obtain ⟨empty, free, emptyBound⟩ :=
    CScript.exists_free entries (by rw [← state.counted]; exact room)
  obtain ⟨dest, found, bound, keyless, clear⟩ :=
    findEntry_absent state.probed noSlot free emptyBound
  have stored := state.probed.store bound
    (fun slot held => absurd held (noSlot slot)) clear value
  refine ⟨dest, found, ⟨stored, ?_, ?_⟩,
    lookupEntries_store bound stored (Or.inl keyless)⟩
  · intro slot slotBound none
    rw [List.length_set] at slotBound
    rw [keyAt_set bound] at none
    rw [freeAt_set bound]
    split at none
    · cases none
    · rename_i elsewhere
      rw [if_neg elsewhere]
      exact state.fresh slot slotBound none
  · obtain ⟨entry, here⟩ := entry_at_bound bound
    have destFree : entry.isFree = true := by
      have free := state.fresh dest bound keyless
      unfold freeAt at free
      rw [here, Option.any_some] at free
      exact free
    rw [usedSlots_set here _ (by simp [Entry.isFree]), destFree, if_pos rfl, state.counted]

private theorem lookupEntries_cons (entry : Entry) (rest : List Entry) (key : ObjString) :
    lookupEntries (entry :: rest) key =
      if entry.key = some key then some entry.value else lookupEntries rest key := by
  unfold lookupEntries
  rw [List.find?_cons]
  by_cases same : entry.key = some key
  · simp [same]
  · simp [same]

private theorem distinct_tail {entry : Entry} {rest : List Entry}
    (distinct : ∀ left right key, keyAt (entry :: rest) left = some key →
      keyAt (entry :: rest) right = some key → left = right) :
    (∀ left right key, keyAt rest left = some key →
      keyAt rest right = some key → left = right) ∧
    (∀ key, entry.key = some key → lookupEntries rest key = none) := by
  constructor
  · intro left right key leftHeld rightHeld
    have same := distinct (left + 1) (right + 1) key leftHeld rightHeld
    omega
  · intro key held
    apply lookupEntries_eq_none.mpr
    intro slot there
    have same := distinct 0 (slot + 1) key held there
    omega

private theorem rehashEntries_spec :
    ∀ (old entries : List Entry) (count : Nat),
      (∀ left right key, keyAt old left = some key →
        keyAt old right = some key → left = right) →
      (∀ key, lookupEntries old key ≠ none → lookupEntries entries key = none) →
      Rehashed entries count → count + liveSlots old ≤ entries.length →
      ∃ after, rehashEntries old entries count = some (after, count + liveSlots old) ∧
        Rehashed after (count + liveSlots old) ∧ after.length = entries.length ∧
        ∀ key, lookupEntries after key =
          (lookupEntries old key).or (lookupEntries entries key)
  | [], entries, count, _, _, state, _ =>
      ⟨entries, rfl, state, rfl, fun _ => rfl⟩
  | entry :: rest, entries, count, distinct, disjoint, state, room => by
      obtain ⟨restDistinct, headOnly⟩ := distinct_tail distinct
      unfold rehashEntries
      cases held : entry.key with
      | none =>
          have skipped : ∀ key, lookupEntries (entry :: rest) key = lookupEntries rest key := by
            intro key
            rw [lookupEntries_cons, held, if_neg (by simp)]
          have live : liveSlots (entry :: rest) = liveSlots rest := by
            simp [liveSlots, held]
          rw [live] at room ⊢
          simp only [skipped] at disjoint ⊢
          exact rehashEntries_spec rest entries count restDistinct disjoint state room
      | some key =>
          have live : liveSlots (entry :: rest) = liveSlots rest + 1 := by
            simp [liveSlots, held]
          have absent : lookupEntries entries key = none := by
            apply disjoint
            rw [lookupEntries_cons, held, if_pos rfl]
            exact Option.some_ne_none _
          obtain ⟨dest, found, stored, storedMap⟩ :=
            rehashEntries_step state (by omega) absent entry.value
          obtain ⟨after, ran, final, lengthEq, contents⟩ := rehashEntries_spec rest
            (entries.set dest { key := some key, value := entry.value }) (count + 1)
            restDistinct
            (by
              intro other present
              rw [storedMap]
              have different : other ≠ key := by
                intro same
                subst same
                exact present (headOnly other held)
              rw [Function.update_of_ne different]
              apply disjoint
              rw [lookupEntries_cons, held,
                if_neg (fun equal => different (Option.some.inj equal).symm)]
              exact present)
            stored (by rw [List.length_set]; omega)
          refine ⟨after, ?_, ?_, by rw [lengthEq, List.length_set], ?_⟩
          · simp only [found, Option.bind_eq_bind, Option.bind_some, live, ran]
            congr 2
            omega
          · rw [live]
            have same : count + (liveSlots rest + 1) = count + 1 + liveSlots rest := by omega
            rw [same]
            exact final
          · intro other
            rw [contents, storedMap, lookupEntries_cons, held]
            by_cases same : other = key
            · subst same
              rw [headOnly other held, Function.update_self, if_pos rfl]
              rfl
            · rw [Function.update_of_ne same,
                if_neg (fun equal => same (Option.some.inj equal).symm)]

private theorem adjustCapacity_spec {table : Table} (wf : table.WellFormed) :
    ∃ grown, adjustCapacity table (growCapacity table.capacity) = some grown ∧
      Probed grown.entries ∧ 8 ≤ grown.entries.length ∧
      grown.entries.length = growCapacity table.capacity ∧
      grown.count = usedSlots grown.entries ∧ grown.count ≤ table.count ∧
      4 * (table.count + 1) ≤ 3 * grown.entries.length ∧
      grown.lookup = table.lookup := by
  have live : liveSlots table.entries ≤ table.count := by
    rw [wf.counted]; exact liveSlots_le_usedSlots table.entries
  have load := wf.load
  have grows : 8 ≤ growCapacity table.capacity ∧
      4 * (table.count + 1) ≤ 3 * growCapacity table.capacity ∧
      (∃ exponent, growCapacity table.capacity = 2 ^ exponent) := by
    unfold growCapacity Table.capacity
    rcases wf.shape with empty | ⟨long, probed⟩
    · rw [empty] at load ⊢
      simp only [List.length_nil] at load ⊢
      exact ⟨by decide, by simp only [Nat.zero_lt_succ, if_true]; omega, 3, rfl⟩
    · obtain ⟨exponent, power⟩ := probed.power
      rw [if_neg (Nat.not_lt.mpr long)]
      exact ⟨by omega, by omega, exponent + 1, by rw [power, Nat.pow_succ]⟩
  obtain ⟨long, room, power⟩ := grows
  have distinct : ∀ left right key, keyAt table.entries left = some key →
      keyAt table.entries right = some key → left = right := by
    rcases wf.shape with empty | ⟨_, probed⟩
    · intro left _ _ held
      rw [empty] at held
      cases held
    · exact probed.distinct
  obtain ⟨after, ran, final, lengthEq, contents⟩ := rehashEntries_spec table.entries
    (List.replicate (growCapacity table.capacity) Entry.empty) 0 distinct
    (by
      intro key _
      apply lookupEntries_eq_none.mpr
      intro slot held
      unfold keyAt at held
      rw [List.getElem?_replicate] at held
      split at held <;> cases held)
    (rehashed_replicate power) (by rw [List.length_replicate]; omega)
  rw [List.length_replicate] at lengthEq
  rw [Nat.zero_add] at ran final
  refine ⟨{ count := liveSlots table.entries, entries := after, version := table.version + 1 },
    by simp [adjustCapacity, ran], final.probed, by simp only [lengthEq]; exact long,
    lengthEq, final.counted, live, by simp only [lengthEq]; exact room, ?_⟩
  funext key
  unfold Table.lookup
  rw [contents]
  have nothing : lookupEntries
      (List.replicate (growCapacity table.capacity) Entry.empty) key = none := by
    apply lookupEntries_eq_none.mpr
    intro slot held
    unfold keyAt at held
    rw [List.getElem?_replicate] at held
    split at held <;> cases held
  rw [nothing, Option.or_none]

/-- The capacity `csTableSet` leaves behind. -/
def Table.roomyCapacity (table : Table) : Nat :=
  if 4 * (table.count + 1) > 3 * table.capacity then growCapacity table.capacity
  else table.capacity

private theorem csTableSet_sized {table : Table} (wf : table.WellFormed) (key : ObjString)
    (value : Value) :
    ∃ after, csTableSet table key value = some (after, (table.lookup key).isNone) ∧
      after.WellFormed ∧ after.lookup = Function.update table.lookup key (some value) ∧
      after.capacity = table.roomyCapacity ∧
      4 * (table.count + 1) ≤ 3 * after.capacity ∧
      after.count ≤ table.count + (if (table.lookup key).isSome then 0 else 1) := by
  unfold csTableSet Table.roomyCapacity
  by_cases full : 4 * (table.count + 1) > 3 * table.capacity
  · rw [if_pos full, if_pos full]
    obtain ⟨grown, ran, probed, long, lengthEq, counted, fewer, grew, contents⟩ :=
      adjustCapacity_spec wf
    obtain ⟨after, stored, afterWf, afterMap, sameLength, _, bounded⟩ :=
      storeEntry_spec probed long counted (by omega) key value
    refine ⟨after, ?_, afterWf, by rw [afterMap, contents], ?_, ?_, ?_⟩
    · rw [ran, Option.bind_eq_bind, Option.bind_some, stored, contents]
    · unfold Table.capacity; rw [sameLength, lengthEq]; rfl
    · unfold Table.capacity; rw [sameLength]; exact grew
    · rw [contents] at bounded; omega
  · rw [if_neg full, if_neg full]
    have room : 4 * (table.count + 1) ≤ 3 * table.entries.length := Nat.not_lt.mp full
    rcases wf.shape with empty | ⟨long, probed⟩
    · rw [empty] at room
      simp only [List.length_nil] at room
      omega
    · obtain ⟨after, stored, afterWf, afterMap, sameLength, _, bounded⟩ :=
        storeEntry_spec probed long wf.counted room key value
      refine ⟨after, stored, afterWf, afterMap, sameLength, ?_, bounded⟩
      unfold Table.capacity; rw [sameLength]; exact room

theorem csTableSet_spec {table : Table} (wf : table.WellFormed) (key : ObjString)
    (value : Value) :
    ∃ after, csTableSet table key value = some (after, (table.lookup key).isNone) ∧
      after.WellFormed ∧ after.lookup = Function.update table.lookup key (some value) := by
  obtain ⟨after, ran, afterWf, afterMap, _⟩ := csTableSet_sized wf key value
  exact ⟨after, ran, afterWf, afterMap⟩

/-! ### Adding every entry of one table to another -/

private theorem addEntries_spec :
    ∀ (entries : List Entry) (target : Table),
      (∀ left right key, keyAt entries left = some key →
        keyAt entries right = some key → left = right) →
      target.WellFormed →
      ∃ after, addEntries entries target = some after ∧ after.WellFormed ∧
        ∀ key, after.lookup key = (lookupEntries entries key).or (target.lookup key)
  | [], target, _, wf => ⟨target, rfl, wf, fun _ => rfl⟩
  | entry :: rest, target, distinct, wf => by
      obtain ⟨restDistinct, headOnly⟩ := distinct_tail distinct
      unfold addEntries
      cases held : entry.key with
      | none =>
          obtain ⟨after, ran, afterWf, contents⟩ :=
            addEntries_spec rest target restDistinct wf
          refine ⟨after, ran, afterWf, ?_⟩
          intro key
          rw [contents, lookupEntries_cons, held, if_neg (by simp)]
      | some key =>
          obtain ⟨stored, ran, storedWf, storedMap⟩ := csTableSet_spec wf key entry.value
          obtain ⟨after, ranRest, afterWf, contents⟩ :=
            addEntries_spec rest stored restDistinct storedWf
          refine ⟨after, ?_, afterWf, ?_⟩
          · simp only [ran, Option.bind_eq_bind, Option.bind_some]
            exact ranRest
          · intro other
            rw [contents, storedMap, lookupEntries_cons, held]
            by_cases same : other = key
            · subst same
              rw [headOnly other held, Function.update_self, if_pos rfl]
              rfl
            · rw [Function.update_of_ne same,
                if_neg (fun equal => same (Option.some.inj equal).symm)]

private theorem Table.WellFormed.distinct {table : Table} (wf : table.WellFormed) :
    ∀ left right key, keyAt table.entries left = some key →
      keyAt table.entries right = some key → left = right := by
  rcases wf.shape with empty | ⟨_, probed⟩
  · intro left _ _ held
    rw [empty] at held
    cases held
  · exact probed.distinct

theorem csTableAddAll_spec {source target : Table} (sourceWf : source.WellFormed)
    (targetWf : target.WellFormed) :
    ∃ after, csTableAddAll source target = some after ∧ after.WellFormed ∧
      ∀ key, after.lookup key = (source.lookup key).or (target.lookup key) :=
  addEntries_spec source.entries target sourceWf.distinct targetWf

private theorem csTableSet_same {table : Table} (wf : table.WellFormed) {slot : Nat}
    {entry : Entry} {key : ObjString} (here : table.entries[slot]? = some entry)
    (held : entry.key = some key) :
    ∃ after, csTableSet table key entry.value = some (after, false) ∧ after.WellFormed ∧
      after.lookup = table.lookup ∧ after.roomyCapacity = table.roomyCapacity := by
  have holds : table.lookup key = some entry.value :=
    lookupEntries_eq_some wf.distinct here held
  obtain ⟨after, ran, afterWf, afterMap, sized, room, fewer⟩ :=
    csTableSet_sized wf key entry.value
  rw [holds] at ran fewer
  refine ⟨after, ran, afterWf, ?_, ?_⟩
  · rw [afterMap, ← holds, Function.update_eq_self]
  · simp only [Option.isSome_some, if_true, Nat.add_zero] at fewer
    rw [← sized]
    unfold Table.roomyCapacity
    rw [if_neg (by omega)]

private theorem addEntriesSelf_spec :
    ∀ (fuel i : Nat) (table : Table), table.WellFormed → i ≤ table.roomyCapacity →
      table.capacity ≤ table.roomyCapacity → table.roomyCapacity < i + fuel →
      ∃ after, addEntriesSelf fuel i table = some after ∧ after.WellFormed ∧
        after.lookup = table.lookup := by
  intro fuel
  induction fuel with
  | zero =>
      intro i table _ inside _ room
      omega
  | succ fuel ih =>
      intro i table wf inside larger room
      unfold addEntriesSelf
      cases here : table.entries[i]? with
      | none => exact ⟨table, rfl, wf, rfl⟩
      | some entry =>
          have bound : i < table.capacity := (List.getElem?_eq_some_iff.mp here).1
          cases held : entry.key with
          | none =>
              simp only [held]
              exact ih (i + 1) table wf (by omega) larger (by omega)
          | some key =>
              obtain ⟨stored, ran, storedWf, storedMap, sized⟩ := csTableSet_same wf here held
              have storedLarger : stored.capacity ≤ stored.roomyCapacity := by
                unfold Table.roomyCapacity growCapacity
                split
                · split <;> omega
                · exact Nat.le_refl _
              obtain ⟨after, ranRest, afterWf, afterMap⟩ := ih (i + 1) stored storedWf
                (by rw [sized]; omega) storedLarger (by rw [sized]; omega)
              refine ⟨after, ?_, afterWf, by rw [afterMap, storedMap]⟩
              simp only [held, ran, Option.bind_eq_bind, Option.bind_some]
              exact ranRest

theorem csTableAddAllSelf_spec {table : Table} (wf : table.WellFormed) :
    ∃ after, csTableAddAllSelf table = some after ∧ after.WellFormed ∧
      after.lookup = table.lookup := by
  unfold csTableAddAllSelf
  rcases wf.shape with empty | ⟨long, _⟩
  · refine ⟨table, ?_, wf, rfl⟩
    unfold addEntriesSelf
    rw [empty]
    rfl
  · have size : table.capacity = table.entries.length := rfl
    have roomy : table.capacity ≤ table.roomyCapacity ∧
        table.roomyCapacity ≤ 2 * table.capacity := by
      unfold Table.roomyCapacity growCapacity
      split
      · rw [if_neg (by omega)]
        omega
      · omega
    exact addEntriesSelf_spec _ 0 table wf (Nat.zero_le _) roomy.1 (by omega)

end CScript
