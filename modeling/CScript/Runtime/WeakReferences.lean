/-
What resolving weak references leaves.

A table keeps exactly the entries that are not doomed, a weak map keeps exactly
the entries whose key is alive, in order and indexed again, and no inline cache
keeps half of its pair.
-/

import CScript.Native.MapRefinement
import CScript.Runtime.Memory

namespace CScript

open Foundation

theorem isWhite_eq_true {marking : Marking Obj} {value : Value} :
    isWhite marking value = true ↔ ∃ object ∈ ofValue value, marking.isMarked object = false := by
  cases value <;> simp [isWhite, ofValue]

theorem isWhite_eq_false {marking : Marking Obj} {value : Value} :
    isWhite marking value = false ↔ ∀ object ∈ ofValue value, marking.isMarked object = true := by
  cases value <;> simp [isWhite, ofValue]

/-! ### Tables -/

def bury (doomed : Entry → Bool) (entry : Entry) : Entry :=
  if entry.key.isSome && doomed entry then Entry.tombstone else entry

theorem csTableDelete_at {table : Table} (wf : table.WellFormed) {slot : Nat}
    {entry : Entry} {key : ObjString} (here : table.entries[slot]? = some entry)
    (held : entry.key = some key) :
    ∃ after flag, csTableDelete table key = some (after, flag) ∧ after.WellFormed ∧
      after.entries = table.entries.set slot Entry.tombstone := by
  have keyHere : keyAt table.entries slot = some key := by
    unfold keyAt
    rw [here, Option.bind_some, held]
  have used : table.count ≠ 0 := by
    have positive : 0 < usedSlots table.entries :=
      List.countP_pos_iff.mpr ⟨entry, List.mem_of_getElem? here, by simp [Entry.isFree, held]⟩
    rw [wf.counted]
    omega
  have found := findEntry_present (wf.probed used) keyHere
  obtain ⟨after, ran, afterWf, _⟩ := csTableDelete_spec wf key
  refine ⟨after, _, ran, afterWf, ?_⟩
  unfold csTableDelete at ran
  rw [if_neg used] at ran
  simp only [found, here, held, Option.bind_eq_bind, Option.bind_some] at ran
  rw [← (Prod.mk.inj (Option.some.inj ran)).1]

private theorem removeEntries_slots (doomed : Entry → Bool) :
    ∀ (steps slot : Nat) (table : Table), table.WellFormed →
      slot + steps = table.entries.length →
      ∃ after, removeEntries doomed steps slot table = some after ∧ after.WellFormed ∧
        ∀ index : Nat, after.entries[index]? =
          if slot ≤ index then table.entries[index]?.map (bury doomed)
          else table.entries[index]?
  | 0, slot, table, wf, all => by
      refine ⟨table, rfl, wf, fun index => ?_⟩
      by_cases later : slot ≤ index
      · rw [if_pos later, List.getElem?_eq_none (by omega)]
        rfl
      · rw [if_neg later]
  | steps + 1, slot, table, wf, all => by
      have bound : slot < table.entries.length := by omega
      have here := List.getElem?_eq_getElem bound
      generalize table.entries[slot] = entry at here
      -- The entry stays as it is, and the loop goes on with the same table.
      have kept : bury doomed entry = entry →
          removeEntries doomed (steps + 1) slot table =
            removeEntries doomed steps (slot + 1) table →
          ∃ after, removeEntries doomed (steps + 1) slot table = some after ∧
            after.WellFormed ∧ ∀ index : Nat, after.entries[index]? =
              if slot ≤ index then table.entries[index]?.map (bury doomed)
              else table.entries[index]? := by
        intro stays goesOn
        obtain ⟨after, ran, afterWf, slots⟩ :=
          removeEntries_slots doomed steps (slot + 1) table wf (by omega)
        refine ⟨after, goesOn.trans ran, afterWf, fun index => ?_⟩
        rw [slots index]
        rcases Nat.lt_trichotomy slot index with less | equal | greater
        · rw [if_pos (by omega), if_pos (by omega)]
        · subst equal
          rw [if_neg (by omega), if_pos (Nat.le_refl slot), here, Option.map_some, stays]
        · rw [if_neg (by omega), if_neg (by omega)]
      cases held : entry.key with
      | none =>
          apply kept
          · unfold bury
            rw [held]
            rfl
          · rw [removeEntries]
            simp only [here, held, Option.bind_eq_bind, Option.bind_some]
      | some key =>
          by_cases dead : doomed entry = true
          · obtain ⟨smaller, flag, deleted, smallerWf, smallerEntries⟩ :=
              csTableDelete_at wf here held
            obtain ⟨after, ran, afterWf, slots⟩ :=
              removeEntries_slots doomed steps (slot + 1) smaller smallerWf
                (by rw [smallerEntries, List.length_set]; omega)
            refine ⟨after, ?_, afterWf, fun index => ?_⟩
            · rw [removeEntries]
              simp only [here, held, dead, deleted, if_true, Option.bind_eq_bind,
                Option.bind_some]
              exact ran
            · rw [slots index, smallerEntries, List.getElem?_set]
              rcases Nat.lt_trichotomy slot index with less | equal | greater
              · rw [if_pos (by omega), if_neg (by omega), if_pos (by omega)]
              · subst equal
                rw [if_neg (by omega), if_pos rfl, if_pos bound, if_pos (Nat.le_refl slot),
                  here, Option.map_some, bury, held, dead]
                rfl
              · rw [if_neg (by omega), if_neg (by omega), if_neg (by omega)]
          · apply kept
            · unfold bury
              rw [Bool.eq_false_iff.mpr dead, Bool.and_false]
              rfl
            · rw [removeEntries]
              simp only [here, held, Option.bind_eq_bind, Option.bind_some, if_neg dead]

theorem removeEntries_spec (doomed : Entry → Bool) {table : Table} (wf : table.WellFormed) :
    ∃ after, removeEntries doomed table.capacity 0 table = some after ∧ after.WellFormed ∧
      ∀ key, after.lookup key =
        (table.lookup key).filter
          (fun value => !doomed { key := some key, value := value }) := by
  obtain ⟨after, ran, afterWf, slots⟩ :=
    removeEntries_slots doomed table.capacity 0 table wf (Nat.zero_add _)
  simp only [Nat.zero_le, if_true] at slots
  refine ⟨after, ran, afterWf, fun key => ?_⟩
  have keyAfter : ∀ slot : Nat, keyAt after.entries slot = some key →
      ∃ entry, table.entries[slot]? = some entry ∧ entry.key = some key ∧
        doomed entry = false := by
    intro slot held
    unfold keyAt at held
    rw [slots slot] at held
    cases here : table.entries[slot]? with
    | none => rw [here] at held; cases held
    | some entry =>
        rw [here, Option.map_some, Option.bind_some] at held
        unfold bury at held
        split at held
        · cases held
        · rename_i stays
          refine ⟨entry, rfl, held, ?_⟩
          rw [held, Option.isSome_some, Bool.true_and] at stays
          exact Bool.eq_false_iff.mpr stays
  cases was : table.lookup key with
  | none =>
      rw [Option.filter_none]
      apply lookupEntries_eq_none.mpr
      intro slot held
      obtain ⟨entry, here, keyEq, _⟩ := keyAfter slot held
      apply lookupEntries_eq_none.mp was slot
      unfold keyAt
      rw [here, Option.bind_some, keyEq]
  | some value =>
      obtain ⟨slot, here⟩ := lookupEntries_slot was
      have distinct : ∀ left right other, keyAt table.entries left = some other →
          keyAt table.entries right = some other → left = right := by
        rcases wf.shape with empty | ⟨_, probed⟩
        · rw [empty] at here
          cases here
        · exact probed.distinct
      by_cases dead : doomed { key := some key, value := value } = true
      · rw [Option.filter_some_neg (by simp [dead])]
        apply lookupEntries_eq_none.mpr
        intro other held
        obtain ⟨entry, there, keyEq, alive⟩ := keyAfter other held
        have same : other = slot := by
          apply distinct other slot key
          · unfold keyAt
            rw [there, Option.bind_some, keyEq]
          · unfold keyAt
            rw [here, Option.bind_some]
        subst same
        rw [here] at there
        cases there
        rw [dead] at alive
        cases alive
      · rw [Option.filter_some_pos (by simp [dead])]
        have hereAfter : after.entries[slot]? =
            some { key := some key, value := value } := by
          rw [slots slot, here, Option.map_some, bury, Bool.eq_false_iff.mpr dead,
            Bool.and_false]
          rfl
        apply lookupEntries_eq_some _ hereAfter rfl
        rcases afterWf.shape with empty | ⟨_, probed⟩
        · rw [empty] at hereAfter
          cases hereAfter
        · exact probed.distinct

/-! ### Weak maps -/

section

variable (marking : Marking Obj)

def keyAlive (item : Value × Value) : Bool :=
  !isWhite marking item.1

private theorem clearEntry_entryOf (item : Value × Value) :
    clearEntry marking (entryOf item) =
      if keyAlive marking item then entryOf item
      else { key := .undefined, value := .undefined, present := false } := by
  unfold clearEntry keyAlive entryOf
  cases isWhite marking item.1 <;> rfl

private theorem compactEntries_clear (items : List (Value × Value)) :
    compactEntries ((items.map entryOf).map (clearEntry marking)) =
      (items.filter (keyAlive marking)).map entryOf := by
  induction items with
  | nil => rfl
  | cons item rest ih =>
      rw [List.map_cons, List.map_cons, clearEntry_entryOf]
      by_cases alive : keyAlive marking item = true
      · rw [if_pos alive, List.filter_cons_of_pos alive, List.map_cons, ← ih]
        rfl
      · rw [if_neg alive, List.filter_cons_of_neg alive, ← ih]
        rfl

private theorem lostEntries_eq (items : List (Value × Value)) :
    lostEntries marking (items.map entryOf) + (items.filter (keyAlive marking)).length =
      items.length := by
  unfold lostEntries
  rw [List.countP_map, ← List.countP_eq_length_filter]
  have split : items.length = _ := List.length_eq_countP_add_countP (keyAlive marking)
  rw [split, Nat.add_comm]
  congr 1
  apply List.countP_congr
  intro item _
  simp [keyAlive, entryOf]

/-- A prune keeps exactly the entries whose key is alive, in their order.  If
there was one to remove, the index is built again, so it need not have been
right before. -/
theorem pruneWeakMap_entries {bigints : BigIntCells} {map : ObjMap} {items : List (Value × Value)}
    (entries : map.entries = items.map entryOf) (live : map.liveCount = items.length)
    (distinct : OrderedMap.Distinct (csValuesSameValueZero bigints) items)
    (room : items = [] ∨ ∃ exponent, map.index.length = 2 ^ exponent ∧
      items.length < 2 ^ exponent) :
    ∃ after, pruneWeakMap bigints marking map = some after ∧
      after.entries = (items.filter (keyAlive marking)).map entryOf ∧
      after.liveCount = (items.filter (keyAlive marking)).length ∧
      after.index.length = map.index.length ∧
      after.isSet = map.isSet ∧ after.isWeak = map.isWeak ∧
      ((after = map ∧ items.filter (keyAlive marking) = items) ∨
        Indexed after.entries after.index (items.filter (keyAlive marking)).length) := by
  have split := lostEntries_eq marking items
  rw [← entries] at split
  unfold pruneWeakMap
  by_cases none_ : lostEntries marking map.entries = 0
  · rw [if_pos none_]
    have all : items.filter (keyAlive marking) = items :=
      List.filter_eq_self.mpr (List.length_filter_eq_length_iff.mp (by omega))
    exact ⟨map, rfl, by rw [all]; exact entries, by rw [all]; exact live, rfl, rfl, rfl,
      Or.inl ⟨rfl, all⟩⟩
  · rw [if_neg none_]
    obtain ⟨exponent, power, fits⟩ : ∃ exponent, map.index.length = 2 ^ exponent ∧
        items.length < 2 ^ exponent := by
      rcases room with empty | large
      · subst empty
        rw [List.length_nil] at split
        omega
      · exact large
    generalize clearedEq : ({ map with
      entries := map.entries.map (clearEntry marking)
      liveCount := map.liveCount - (lostEntries marking map.entries : Nat) } : ObjMap) = cleared
    have entriesEq : compactEntries cleared.entries =
        (items.filter (keyAlive marking)).map entryOf := by
      rw [← clearedEq, ← compactEntries_clear, entries]
    have indexEq : cleared.index = map.index := by rw [← clearedEq]
    have kept := distinct.filter (keyAlive marking)
    obtain ⟨index, ran, length, full⟩ := rehash_spec cleared exponent
      (by rw [entriesEq]; exact distinct_entries kept)
      (by rw [entriesEq, List.length_map]; omega)
    have capacity : cleared.indexCapacity = 2 ^ exponent := by
      unfold ObjMap.indexCapacity
      rw [indexEq, power]
    rw [entriesEq, List.length_map] at full
    refine ⟨{ cleared with entries := compactEntries cleared.entries, index := index },
      ?_, entriesEq, ?_, by rw [length, power], by rw [← clearedEq], by rw [← clearedEq],
      Or.inr (by rw [entriesEq]; exact full)⟩
    · rw [csMapReindexInPlace_eq_rehash cleared (by rw [capacity]; omega), capacity]
      exact ran
    · rw [← clearedEq]
      simp only [live]
      omega

theorem pruneWeakMap_spec {bigints : BigIntCells} {map : ObjMap} {items : List (Value × Value)}
    (holds : MapHolds bigints map items) :
    ∃ after, pruneWeakMap bigints marking map = some after ∧
      MapHolds bigints after (items.filter (keyAlive marking)) ∧
      after.isSet = map.isSet ∧ after.isWeak = map.isWeak := by
  have room : items = [] ∨ ∃ exponent, map.index.length = 2 ^ exponent ∧
      items.length < 2 ^ exponent := by
    rcases holds.index with ⟨_, empty⟩ | ⟨indexed, wide, load⟩
    · exact Or.inl empty
    · obtain ⟨exponent, power⟩ := indexed.power
      exact Or.inr ⟨exponent, power, by omega⟩
  obtain ⟨after, ran, entries, live, length, isSet, isWeak, unchanged | indexed⟩ :=
    pruneWeakMap_entries marking holds.entries holds.live holds.distinct room
  · obtain ⟨rfl, all⟩ := unchanged
    exact ⟨after, ran, by rw [all]; exact holds, rfl, rfl⟩
  · refine ⟨after, ran, ⟨entries, live, holds.distinct.filter _, ?_⟩, isSet, isWeak⟩
    have fewer := List.length_filter_le (keyAlive marking) items
    rcases holds.index with ⟨noIndex, empty⟩ | ⟨_, wide, load⟩
    · left
      rw [empty]
      exact ⟨List.length_eq_zero_iff.mp (by rw [length, noIndex]; rfl), rfl⟩
    · exact Or.inr ⟨indexed, by omega, by omega⟩

end

/-! ### Shapes and caches -/

section

variable (marking : Marking Obj)

theorem csShapePruneTransitions_spec {shape : Shape} (wf : shape.transitions.WellFormed) :
    ∃ transitions, csShapePruneTransitions marking shape =
        some { shape with transitions := transitions } ∧ transitions.WellFormed ∧
      ∀ key, transitions.lookup key =
        (shape.transitions.lookup key).filter (fun value => !isWhite marking value) := by
  obtain ⟨transitions, ran, after, kept⟩ :=
    removeEntries_spec (fun entry => isWhite marking entry.value) wf
  refine ⟨transitions, ?_, after, kept⟩
  unfold csShapePruneTransitions
  rw [ran]
  rfl

theorem pruneCache_alive {absentShape : Nat}
    (rooted : marking.isMarked (.cell .shape absentShape) = true) (cache : PropertyCache) :
    marking.isMarked (.cell .shape (pruneCache marking absentShape cache).shape) = true ∧
      ∀ added, (pruneCache marking absentShape cache).added = some added →
        marking.isMarked (.cell .shape added) = true := by
  unfold pruneCache
  dsimp only
  split
  · exact ⟨rooted, fun added missing => by cases missing⟩
  · rename_i whole
    rw [Bool.or_eq_true, not_or] at whole
    refine ⟨Bool.not_eq_false _ ▸ fun white => whole.1 (by rw [white]; rfl), ?_⟩
    intro added here
    have alive := whole.2
    rw [here, Option.any_some] at alive
    cases marked : marking.isMarked (.cell .shape added) with
    | true => rfl
    | false => rw [marked] at alive; exact absurd rfl alive

end

end CScript
