/-
A property bag refines an insertion-ordered map, in both representations.

Each bag operation is specified by what it does to the ordered map the bag
holds; runs over any number of objects that share one tree of shapes then follow
the same runs over maps, across the conversion to a dictionary as well.
-/

import CScript.Foundation.Refinement
import CScript.Runtime.ObjectBag

namespace CScript

open Foundation

/-! ### Storage -/

private theorem doubleCapacity_enough (needed : Nat) :
    ∀ (fuel capacity : Nat), 0 < capacity → needed ≤ capacity + fuel →
      needed ≤ doubleCapacity needed fuel capacity
  | 0, capacity, _, enough => enough
  | fuel + 1, capacity, positive, enough => by
      unfold doubleCapacity
      by_cases small : capacity < needed
      · rw [if_pos small]
        exact doubleCapacity_enough needed fuel (capacity * 2) (by omega) (by omega)
      · rw [if_neg small]
        exact Nat.le_of_not_lt small

theorem ensureSlots_length (values : List (Option Value)) (needed : Nat) :
    needed ≤ (ensureSlots values needed).length := by
  unfold ensureSlots
  by_cases room : values.length ≥ needed
  · rw [if_pos room]; exact room
  · rw [if_neg room]
    have enough := doubleCapacity_enough needed needed
      (if values.length < 4 then 4 else values.length) (by split <;> omega)
      (Nat.le_add_left _ _)
    simp only [List.length_append, List.length_replicate]
    omega

theorem ensureSlots_written {values : List (Option Value)} {index : Nat} {value : Option Value}
    (here : values[index]? = some value) (needed : Nat) :
    (ensureSlots values needed)[index]? = some value := by
  have bound := (List.getElem?_eq_some_iff.mp here).1
  unfold ensureSlots
  split
  · exact here
  · simp only [List.getElem?_append_left bound, here]

private theorem items_key_at {items : List (ObjString × Value)} {keys : List ObjString}
    (keysEq : keys = items.map Prod.fst) {index : Nat} {key : ObjString}
    (here : keys[index]? = some key) : ∃ value, items[index]? = some (key, value) := by
  rw [keysEq, List.getElem?_map] at here
  obtain ⟨item, itemHere, keyEq⟩ := Option.map_eq_some_iff.mp here
  exact ⟨item.2, by rw [itemHere, ← keyEq]⟩

private theorem set_same {Item : Type} {list : List Item} {index : Nat} {item : Item}
    (here : list[index]? = some item) : list.set index item = list := by
  obtain ⟨bound, itemEq⟩ := List.getElem?_eq_some_iff.mp here
  rw [← itemEq, List.set_getElem_self]

private theorem key_place {items : List (ObjString × Value)} {key : ObjString} {value : Value}
    (found : OrderedMap.lookup OrderedMap.equal items key = some value) :
    key ∈ items.map Prod.fst := by
  by_contra missing
  have none : OrderedMap.lookup OrderedMap.equal items key = none :=
    OrderedMap.lookup_eq_none_iff.mpr (by
      intro item member
      apply decide_eq_false
      intro same
      exact missing (same ▸ List.mem_map_of_mem member))
  rw [none] at found
  cases found

private theorem lookup_missing {items : List (ObjString × Value)} {key : ObjString}
    (missing : key ∉ items.map Prod.fst) :
    OrderedMap.lookup OrderedMap.equal items key = none := by
  cases found : OrderedMap.lookup OrderedMap.equal items key with
  | none => rfl
  | some value => exact absurd (key_place found) missing

/-! ### Reading -/

theorem csObjectGet_eq {shapes : List Shape} (tree : ShapeTree shapes) {object : ObjObject}
    {items : List (ObjString × Value)} (holds : BagHolds shapes object items)
    (key : ObjString) :
    csObjectGet shapes object key =
      some (OrderedMap.lookup OrderedMap.equal items key) := by
  have distinct := holds.distinct tree
  unfold BagHolds at holds
  unfold csObjectGet
  cases layoutEq : object.layout with
  | dictionary table keys =>
      rw [layoutEq] at holds
      simp only [csTableGet_eq holds.1, holds.2.2.2]
  | slots shape values =>
      rw [layoutEq] at holds
      obtain ⟨layout, here, keysEq, written⟩ := holds
      have wf := tree.each shape layout here
      simp only [here, Option.bind_eq_bind, Option.bind_some]
      by_cases member : key ∈ layout.keys
      · obtain ⟨slot, slotHere⟩ := List.mem_iff_getElem?.mp member
        obtain ⟨value, itemHere⟩ := items_key_at keysEq slotHere
        have slotWritten := written slot (key, value) itemHere
        rw [csShapeLookup_present wf slotHere, OrderedMap.lookup_of_index
          OrderedMap.equal_equivalence distinct itemHere (decide_eq_true rfl)]
        simp only [Option.bind_some, slotWritten, Option.pure_def]
      · rw [csShapeLookup_absent wf member, lookup_missing (keysEq ▸ member)]
        rfl

theorem csObject_walk {shapes : List Shape} (tree : ShapeTree shapes) {object : ObjObject}
    {items : List (ObjString × Value)} (holds : BagHolds shapes object items) :
    csObjectCount shapes object = some items.length ∧
      ∀ (index : Nat) (item : ObjString × Value), items[index]? = some item →
        csObjectKeyAt shapes object index = some item.1 ∧
          csObjectValueAt object index = some item.2 := by
  have distinct := holds.distinct tree
  unfold BagHolds at holds
  unfold csObjectCount csObjectKeyAt csObjectValueAt
  cases layoutEq : object.layout with
  | dictionary table keys =>
      rw [layoutEq] at holds
      obtain ⟨wf, keysEq, _, contents⟩ := holds
      refine ⟨by simp only [keysEq, List.length_map], ?_⟩
      intro index item here
      have keyHere : keys[index]? = some item.1 := by
        rw [keysEq, List.getElem?_map, here, Option.map_some]
      have found := OrderedMap.lookup_of_index OrderedMap.equal_equivalence distinct
        here (OrderedMap.equal_self item.1)
      refine ⟨keyHere, ?_⟩
      simp only [keyHere, Option.bind_eq_bind, Option.bind_some, csTableGet_eq wf, contents,
        found, Option.pure_def, Option.getD_some]
  | slots shape values =>
      rw [layoutEq] at holds
      obtain ⟨layout, layoutHere, keysEq, written⟩ := holds
      have wf := tree.each shape layout layoutHere
      refine ⟨?_, ?_⟩
      · simp only [layoutHere, Option.bind_eq_bind, Option.bind_some, Option.pure_def,
          ← wf.counted, keysEq, List.length_map]
      · intro index item here
        refine ⟨?_, ?_⟩
        · simp only [layoutHere, Option.bind_eq_bind, Option.bind_some, keysEq,
            List.getElem?_map, here, Option.map_some]
        · simp only [written index item here, Option.bind_eq_bind, Option.bind_some]

/-! ### Leaving shape mode -/

private theorem fillTable_spec :
    ∀ (items : List (ObjString × Value)) (values : List (Option Value)) (table : Table),
      (items.map Prod.fst).Nodup → table.WellFormed →
      (∀ (index : Nat) (item : ObjString × Value), items[index]? = some item →
        values[index]? = some (some item.2)) →
      ∃ after, fillTable (items.map Prod.fst) values table = some after ∧ after.WellFormed ∧
        ∀ key, after.lookup key =
          (OrderedMap.lookup OrderedMap.equal items key).or (table.lookup key)
  | [], _, table, _, wf, _ => ⟨table, rfl, wf, fun _ => rfl⟩
  | (key, value) :: rest, values, table, nodup, wf, written => by
      obtain ⟨headMissing, restNodup⟩ := List.nodup_cons.mp nodup
      cases values with
      | nil =>
          have impossible := written 0 (key, value) rfl
          cases impossible
      | cons first others =>
          have firstEq := written 0 (key, value) rfl
          cases firstEq
          obtain ⟨stored, ran, storedWf, storedMap⟩ := csTableSet_spec wf key value
          obtain ⟨after, ranRest, afterWf, contents⟩ := fillTable_spec rest others stored
            restNodup storedWf (fun index item here => written (index + 1) item here)
          refine ⟨after, ?_, afterWf, ?_⟩
          · simp only [List.map_cons, fillTable, ran, Option.bind_eq_bind, Option.bind_some]
            exact ranRest
          · intro other
            rw [contents, storedMap]
            conv_rhs => rw [OrderedMap.lookup]
            by_cases same : key = other
            · subst same
              rw [lookup_missing headMissing, Function.update_self,
                if_pos (OrderedMap.equal_self key)]
              rfl
            · simp only [Function.update_of_ne (Ne.symm same), OrderedMap.equal_of_ne same,
                Bool.false_eq_true, if_false]

theorem convertToDictionary_spec {shapes : List Shape} (tree : ShapeTree shapes)
    {object : ObjObject} {items : List (ObjString × Value)} {shape : Nat}
    {values : List (Option Value)} (mode : object.layout = .slots shape values)
    (holds : BagHolds shapes object items) :
    ∃ table, convertToDictionary shapes object =
        some { object with layout := .dictionary table (items.map Prod.fst) } ∧
      table.WellFormed ∧ table.lookup = OrderedMap.lookup OrderedMap.equal items := by
  have nodup := holds.nodup tree
  unfold BagHolds at holds
  rw [mode] at holds
  obtain ⟨layout, here, keysEq, written⟩ := holds
  have wf := tree.each shape layout here
  obtain ⟨table, ran, tableWf, contents⟩ :=
    fillTable_spec items values csTableInit nodup csTableInit_wellFormed written
  have taken : layout.keys.take layout.slotCount = items.map Prod.fst := by
    rw [← wf.counted, List.take_length, keysEq]
  refine ⟨table, ?_, tableWf, ?_⟩
  · unfold convertToDictionary
    simp only [mode, here, Option.bind_eq_bind, Option.bind_some, taken, ran, Option.pure_def]
  · funext key
    rw [contents, csTableInit_lookup, Option.or_none]

theorem csObjectLeaveShapeMode_spec {shapes : List Shape} (tree : ShapeTree shapes)
    {object : ObjObject} {items : List (ObjString × Value)}
    (holds : BagHolds shapes object items) :
    ∃ layout, csObjectLeaveShapeMode shapes object = some { object with layout := layout } ∧
      BagHolds shapes { object with layout := layout } items ∧
      ∃ table keys, layout = .dictionary table keys := by
  unfold csObjectLeaveShapeMode
  cases mode : object.layout with
  | dictionary table keys =>
      refine ⟨.dictionary table keys, by simp only [← mode], ?_, table, keys, rfl⟩
      unfold BagHolds at holds ⊢
      rw [mode] at holds
      exact holds
  | slots shape values =>
      obtain ⟨table, ran, wf, contents⟩ := convertToDictionary_spec tree mode holds
      exact ⟨.dictionary table (items.map Prod.fst), ran,
        ⟨wf, rfl, holds.nodup tree, contents⟩, table, _, rfl⟩

theorem csObjectReserveSlots_spec {shapes : List Shape} {object : ObjObject}
    {items : List (ObjString × Value)} (holds : BagHolds shapes object items) (slots : Nat) :
    ∃ layout, csObjectReserveSlots object slots = { object with layout := layout } ∧
      BagHolds shapes { object with layout := layout } items := by
  unfold csObjectReserveSlots
  unfold BagHolds at holds ⊢
  cases mode : object.layout with
  | dictionary table keys =>
      rw [mode] at holds
      exact ⟨.dictionary table keys, by simp only [← mode], holds⟩
  | slots shape values =>
      rw [mode] at holds
      obtain ⟨layout, here, keysEq, written⟩ := holds
      exact ⟨.slots shape (ensureSlots values slots), rfl, layout, here, keysEq,
        fun index item itemHere => ensureSlots_written (written index item itemHere) slots⟩

/-! ### Writing -/

private theorem dictionaryPut_spec {table : Table} {items : List (ObjString × Value)}
    (wf : table.WellFormed) (nodup : (items.map Prod.fst).Nodup)
    (contents : table.lookup = OrderedMap.lookup OrderedMap.equal items)
    (key : ObjString) (value : Value) :
    ∃ after, dictionaryPut table (items.map Prod.fst) key value =
        some (.dictionary after
          ((OrderedMap.put OrderedMap.equal items key value).map Prod.fst)) ∧
      after.WellFormed ∧ after.lookup =
        OrderedMap.lookup OrderedMap.equal (OrderedMap.put OrderedMap.equal items key value) := by
  obtain ⟨after, ran, afterWf, afterMap⟩ := csTableSet_spec wf key value
  refine ⟨after, ?_, afterWf, ?_⟩
  · unfold dictionaryPut
    rw [contents] at ran
    simp only [ran, Option.bind_eq_bind, Option.bind_some]
    cases found : OrderedMap.lookup OrderedMap.equal items key with
    | none =>
        rw [OrderedMap.put_of_absent found, List.map_append]
        rfl
    | some old =>
        obtain ⟨index, keyHere⟩ := List.mem_iff_getElem?.mp (key_place found)
        obtain ⟨stored, itemHere⟩ := items_key_at rfl keyHere
        rw [OrderedMap.put_of_index OrderedMap.equal_equivalence
          (OrderedMap.distinct_equal_iff.mpr nodup) itemHere (decide_eq_true rfl)]
        have keysSame : (items.set index (key, value)).map Prod.fst = items.map Prod.fst := by
          rw [List.map_set]
          exact set_same keyHere
        rw [keysSame]
        rfl
  · rw [afterMap, contents, OrderedMap.lookup_put_equal]

theorem BagHolds.overwrite {shapes : List Shape} (object : ObjObject)
    {items : List (ObjString × Value)} {shape slot : Nat} {values : List (Option Value)}
    {current : Shape} {key : ObjString}
    (distinct : OrderedMap.Distinct OrderedMap.equal items) (here : shapes[shape]? = some current)
    (keysEq : current.keys = items.map Prod.fst)
    (written : ∀ (index : Nat) (item : ObjString × Value), items[index]? = some item →
      values[index]? = some (some item.2))
    (slotHere : current.keys[slot]? = some key) (value : Value) :
    BagHolds shapes { object with layout := .slots shape (values.set slot (some value)) }
      (OrderedMap.put OrderedMap.equal items key value) := by
  obtain ⟨old, itemHere⟩ := items_key_at keysEq slotHere
  rw [OrderedMap.put_of_index OrderedMap.equal_equivalence distinct itemHere (decide_eq_true rfl)]
  refine ⟨current, here, ?_, ?_⟩
  · rw [List.map_set, ← keysEq]
    exact (set_same slotHere).symm
  · intro index item found
    by_cases same : slot = index
    · subst same
      have itemBound := (List.getElem?_eq_some_iff.mp itemHere).1
      rw [List.getElem?_set_self itemBound] at found
      cases found
      have slotBound := (List.getElem?_eq_some_iff.mp (written slot _ itemHere)).1
      exact List.getElem?_set_self slotBound
    · rw [List.getElem?_set_ne same] at found ⊢
      exact written index item found

theorem BagHolds.append {shapes : List Shape} (object : ObjObject)
    {items : List (ObjString × Value)} {next : Nat} {values : List (Option Value)}
    {nextShape : Shape} {key : ObjString}
    (absent : OrderedMap.lookup OrderedMap.equal items key = none)
    (nextHere : shapes[next]? = some nextShape)
    (nextKeys : nextShape.keys = items.map Prod.fst ++ [key])
    (written : ∀ (index : Nat) (item : ObjString × Value), items[index]? = some item →
      values[index]? = some (some item.2))
    (room : items.length < values.length) (value : Value) :
    BagHolds shapes { object with layout := .slots next (values.set items.length (some value)) }
      (OrderedMap.put OrderedMap.equal items key value) := by
  rw [OrderedMap.put_of_absent absent]
  refine ⟨nextShape, nextHere, ?_, ?_⟩
  · rw [nextKeys, List.map_append]
    rfl
  · intro index item found
    by_cases old : index < items.length
    · rw [List.getElem?_append_left old] at found
      rw [List.getElem?_set_ne (by omega)]
      exact written index item found
    · rw [List.getElem?_append_right (Nat.not_lt.mp old)] at found
      obtain ⟨bound, itemEq⟩ := List.getElem?_eq_some_iff.mp found
      rw [List.length_singleton] at bound
      simp only [List.getElem_singleton] at itemEq
      have last : items.length = index := by omega
      rw [last, List.getElem?_set_self (by omega), ← itemEq]

/-- A put is the put of the ordered map; it changes the object's storage and
nothing else of it, and no shape another object has. -/
theorem csObjectPut_spec {shapes : List Shape} (tree : ShapeTree shapes) {object : ObjObject}
    {items : List (ObjString × Value)} (holds : BagHolds shapes object items)
    (key : ObjString) (value : Value) :
    ∃ after layout, csObjectPut shapes object key value =
        some (after, { object with layout := layout }) ∧
      ShapeTree after ∧ ShapesExtend shapes after ∧
      BagHolds after { object with layout := layout }
        (OrderedMap.put OrderedMap.equal items key value) := by
  have nodup := holds.nodup tree
  have distinct := holds.distinct tree
  have putNodup := OrderedMap.distinct_equal_iff.mp (distinct.put key value)
  unfold csObjectPut
  cases mode : object.layout with
  | dictionary table keys =>
      unfold BagHolds at holds
      rw [mode] at holds
      obtain ⟨wf, keysEq, _, contents⟩ := holds
      obtain ⟨afterTable, ran, afterWf, afterMap⟩ :=
        dictionaryPut_spec wf nodup contents key value
      refine ⟨shapes, .dictionary afterTable
        ((OrderedMap.put OrderedMap.equal items key value).map Prod.fst), ?_, tree,
        ShapesExtend.refl shapes, ⟨afterWf, rfl, putNodup, afterMap⟩⟩
      simp only [keysEq, ran, Option.bind_eq_bind, Option.bind_some, Option.pure_def]
  | slots shape values =>
      have holdsBefore := holds
      unfold BagHolds at holds
      rw [mode] at holds
      obtain ⟨current, here, keysEq, written⟩ := holds
      have wf := tree.each shape current here
      simp only [here, Option.bind_eq_bind, Option.bind_some]
      by_cases member : key ∈ current.keys
      · obtain ⟨slot, slotHere⟩ := List.mem_iff_getElem?.mp member
        refine ⟨shapes, .slots shape (values.set slot (some value)), ?_, tree,
          ShapesExtend.refl shapes,
          BagHolds.overwrite object distinct here keysEq written slotHere value⟩
        simp only [csShapeLookup_present wf slotHere, Option.bind_some, Option.pure_def]
      · have absent := lookup_missing (keysEq ▸ member)
        obtain ⟨after, answer, stepped, afterTree, extend, outcome⟩ :=
          csShapeTransition_spec tree here member
        simp only [csShapeLookup_absent wf member, Option.bind_some, stepped]
        rcases outcome with ⟨refused, _⟩ | ⟨next, nextShape, answerEq, nextHere, nextKeys⟩
        · subst refused
          obtain ⟨table, converted, tableWf, contents⟩ :=
            convertToDictionary_spec afterTree mode (holdsBefore.extend extend)
          obtain ⟨afterTable, ran, afterWf, afterMap⟩ :=
            dictionaryPut_spec tableWf nodup contents key value
          refine ⟨after, .dictionary afterTable
            ((OrderedMap.put OrderedMap.equal items key value).map Prod.fst), ?_, afterTree,
            extend, ⟨afterWf, rfl, putNodup, afterMap⟩⟩
          simp only [converted, Option.bind_some, ran, Option.pure_def]
        · subst answerEq
          have nextWf := afterTree.each next nextShape nextHere
          have count : nextShape.slotCount = items.length + 1 := by
            rw [← nextWf.counted, nextKeys, List.length_append, keysEq, List.length_map,
              List.length_singleton]
          have last : nextShape.slotCount - 1 = items.length := by omega
          have room := ensureSlots_length values nextShape.slotCount
          refine ⟨after, .slots next ((ensureSlots values nextShape.slotCount).set
            (nextShape.slotCount - 1) (some value)), ?_, afterTree, extend, ?_⟩
          · simp only [nextHere, Option.bind_some, Option.pure_def]
          · rw [last]
            exact BagHolds.append object absent nextHere (by rw [nextKeys, keysEq])
              (fun index item found => ensureSlots_written (written index item found) _)
              (by omega) value

/-! ### Deleting -/

private theorem removeKey_eq (items : List (ObjString × Value)) (key : ObjString) :
    removeKey (items.map Prod.fst) key =
      (OrderedMap.erase OrderedMap.equal items key).map Prod.fst := by
  induction items with
  | nil => rfl
  | cons head rest ih =>
      obtain ⟨held, value⟩ := head
      simp only [List.map_cons, removeKey, OrderedMap.erase, OrderedMap.equal]
      by_cases same : held = key
      · simp [same]
      · simp only [if_neg same, decide_eq_false same, Bool.false_eq_true, if_false,
          List.map_cons]
        exact congrArg (held :: ·) ih

private theorem dictionaryDelete_spec {shapes : List Shape} {object : ObjObject}
    {items : List (ObjString × Value)} {table : Table}
    (mode : object.layout = .dictionary table (items.map Prod.fst)) (wf : table.WellFormed)
    (nodup : (items.map Prod.fst).Nodup)
    (contents : table.lookup = OrderedMap.lookup OrderedMap.equal items) (key : ObjString) :
    ∃ layout, dictionaryDelete object key =
        some ({ object with layout := layout },
          (OrderedMap.lookup OrderedMap.equal items key).isSome) ∧
      BagHolds shapes { object with layout := layout }
        (OrderedMap.erase OrderedMap.equal items key) := by
  have distinct := OrderedMap.distinct_equal_iff.mpr nodup
  obtain ⟨after, ran, afterWf, afterMap⟩ := csTableDelete_spec wf key
  rw [contents] at ran afterMap
  unfold dictionaryDelete
  simp only [mode, ran, Option.bind_eq_bind, Option.bind_some]
  cases found : OrderedMap.lookup OrderedMap.equal items key with
  | none =>
      refine ⟨object.layout, rfl, ?_⟩
      rw [OrderedMap.erase_of_absent found]
      unfold BagHolds
      simp only [mode]
      exact ⟨wf, trivial, nodup, contents⟩
  | some old =>
      refine ⟨.dictionary after (removeKey (items.map Prod.fst) key), rfl, afterWf,
        removeKey_eq items key,
        OrderedMap.distinct_equal_iff.mp (distinct.erase key), ?_⟩
      rw [afterMap, OrderedMap.lookup_erase_equal distinct]

theorem csObjectDelete_spec {shapes : List Shape} (tree : ShapeTree shapes)
    {object : ObjObject} {items : List (ObjString × Value)}
    (holds : BagHolds shapes object items) (key : ObjString) :
    ∃ layout, csObjectDelete shapes object key =
        some ({ object with layout := layout },
          (OrderedMap.lookup OrderedMap.equal items key).isSome) ∧
      BagHolds shapes { object with layout := layout }
        (OrderedMap.erase OrderedMap.equal items key) := by
  have nodup := holds.nodup tree
  unfold csObjectDelete
  cases mode : object.layout with
  | dictionary table keys =>
      unfold BagHolds at holds
      rw [mode] at holds
      obtain ⟨wf, keysEq, _, contents⟩ := holds
      exact dictionaryDelete_spec (by rw [mode, keysEq]) wf nodup contents key
  | slots shape values =>
      have holdsBefore := holds
      unfold BagHolds at holds
      rw [mode] at holds
      obtain ⟨current, here, keysEq, _⟩ := holds
      have wf := tree.each shape current here
      simp only [here, Option.bind_eq_bind, Option.bind_some]
      by_cases member : key ∈ current.keys
      · obtain ⟨slot, slotHere⟩ := List.mem_iff_getElem?.mp member
        obtain ⟨table, converted, tableWf, contents⟩ :=
          convertToDictionary_spec tree mode holdsBefore
        simp only [csShapeLookup_present wf slotHere, Option.bind_some, converted]
        exact dictionaryDelete_spec rfl tableWf nodup contents key
      · have absent := lookup_missing (keysEq ▸ member)
        refine ⟨object.layout, ?_, ?_⟩
        · simp only [csShapeLookup_absent wf member, Option.bind_some, absent,
            Option.isSome_none]
          rfl
        · rw [OrderedMap.erase_of_absent absent]
          exact holdsBefore

/-! ### Runs -/

structure BagHeap where
  shapes : List Shape
  objects : Nat → ObjObject

inductive BagOp where
  | put (object : Nat) (key : ObjString) (value : Value)
  | get (object : Nat) (key : ObjString)
  | delete (object : Nat) (key : ObjString)
  | reserveSlots (object : Nat) (slots : Nat)
  | leaveShapeMode (object : Nat)
  | walk (object : Nat)

inductive BagAnswer where
  | value (found : Option Value)
  | flag (answer : Bool)
  | items (items : List (ObjString × Value))
  | done

/-- `csObjectKeyAt` and `csObjectValueAt` for every index below
`csObjectCount`. -/
def walkBag (shapes : List Shape) (object : ObjObject) :
    Option (List (ObjString × Value)) := do
  let count ← csObjectCount shapes object
  (List.range count).mapM (fun index => do
    let key ← csObjectKeyAt shapes object index
    let value ← csObjectValueAt object index
    return (key, value))

def stepBags (heap : BagHeap) : BagOp → Option (BagHeap × BagAnswer)
  | .put object key value => do
      let (shapes, after) ← csObjectPut heap.shapes (heap.objects object) key value
      return ({ shapes := shapes, objects := Function.update heap.objects object after }, .done)
  | .get object key => do
      let found ← csObjectGet heap.shapes (heap.objects object) key
      return (heap, .value found)
  | .delete object key => do
      let (after, removed) ← csObjectDelete heap.shapes (heap.objects object) key
      return ({ heap with objects := Function.update heap.objects object after }, .flag removed)
  | .reserveSlots object slots =>
      let after := csObjectReserveSlots (heap.objects object) slots
      some ({ heap with objects := Function.update heap.objects object after }, .done)
  | .leaveShapeMode object => do
      let after ← csObjectLeaveShapeMode heap.shapes (heap.objects object)
      return ({ heap with objects := Function.update heap.objects object after }, .done)
  | .walk object => do
      let items ← walkBag heap.shapes (heap.objects object)
      return (heap, .items items)

def stepOrderedMaps (maps : Nat → List (ObjString × Value)) :
    BagOp → (Nat → List (ObjString × Value)) × BagAnswer
  | .put object key value =>
      (Function.update maps object (OrderedMap.put OrderedMap.equal (maps object) key value),
        .done)
  | .get object key => (maps, .value (OrderedMap.lookup OrderedMap.equal (maps object) key))
  | .delete object key =>
      (Function.update maps object (OrderedMap.erase OrderedMap.equal (maps object) key),
        .flag (OrderedMap.lookup OrderedMap.equal (maps object) key).isSome)
  | .reserveSlots _ _ => (maps, .done)
  | .leaveShapeMode _ => (maps, .done)
  | .walk object => (maps, .items (maps object))

def BagsRefine (heap : BagHeap) (maps : Nat → List (ObjString × Value)) : Prop :=
  ShapeTree heap.shapes ∧ ∀ object, BagHolds heap.shapes (heap.objects object) (maps object)

private theorem bagsRefine_update {heap : BagHeap} {maps : Nat → List (ObjString × Value)}
    (related : BagsRefine heap maps) {shapes : List Shape} (tree : ShapeTree shapes)
    (extend : ShapesExtend heap.shapes shapes) (object : Nat) {after : ObjObject}
    {items : List (ObjString × Value)} (holds : BagHolds shapes after items) :
    BagsRefine { shapes := shapes, objects := Function.update heap.objects object after }
      (Function.update maps object items) := by
  refine ⟨tree, ?_⟩
  intro other
  by_cases same : other = object
  · subst same
    simp only [Function.update_self]
    exact holds
  · simp only [Function.update_of_ne same]
    exact (related.2 other).extend extend

theorem walkBag_eq {shapes : List Shape} (tree : ShapeTree shapes) {object : ObjObject}
    {items : List (ObjString × Value)} (holds : BagHolds shapes object items) :
    walkBag shapes object = some items := by
  obtain ⟨count, each⟩ := csObject_walk tree holds
  unfold walkBag
  rw [count, Option.bind_eq_bind, Option.bind_some]
  have readAll : ∀ suffix before, items = before ++ suffix →
      (List.range' before.length suffix.length).mapM (fun index => do
        let key ← csObjectKeyAt shapes object index
        let value ← csObjectValueAt object index
        return (key, value)) = some suffix := by
    intro suffix
    induction suffix with
    | nil => intro before _; rfl
    | cons item rest ih =>
        intro before split
        have here : items[before.length]? = some item := by
          rw [split, List.getElem?_append_right (Nat.le_refl _), Nat.sub_self]; rfl
        obtain ⟨keyEq, valueEq⟩ := each before.length item here
        have later := ih (before ++ [item]) (by rw [split, List.append_assoc]; rfl)
        rw [List.length_append, List.length_singleton] at later
        rw [List.length_cons, List.range'_succ, List.mapM_cons]
        simp only [keyEq, valueEq, Option.bind_eq_bind, Option.bind_some, Option.pure_def]
          at later ⊢
        rw [later]
        rfl
  have whole := readAll items [] rfl
  rw [List.length_nil] at whole
  rw [List.range_eq_range']
  exact whole

theorem stepBags_refines : Refinement.Refines stepBags stepOrderedMaps BagsRefine := by
  intro heap maps op related
  cases op with
  | put object key value =>
      obtain ⟨shapes, layout, ran, tree, extend, holds⟩ :=
        csObjectPut_spec related.1 (related.2 object) key value
      exact ⟨_, by simp [stepBags, stepOrderedMaps, ran],
        bagsRefine_update related tree extend object holds⟩
  | get object key =>
      exact ⟨heap, by simp [stepBags, stepOrderedMaps,
        csObjectGet_eq related.1 (related.2 object)], related⟩
  | delete object key =>
      obtain ⟨layout, ran, holds⟩ := csObjectDelete_spec related.1 (related.2 object) key
      exact ⟨_, by simp [stepBags, stepOrderedMaps, ran],
        bagsRefine_update related related.1 (ShapesExtend.refl heap.shapes) object holds⟩
  | reserveSlots object slots =>
      obtain ⟨layout, ran, holds⟩ := csObjectReserveSlots_spec (related.2 object) slots
      refine ⟨_, by simp [stepBags, stepOrderedMaps]; rfl, ?_⟩
      have kept := bagsRefine_update related related.1 (ShapesExtend.refl heap.shapes)
        object holds
      rw [Function.update_eq_self] at kept
      rw [ran]
      exact kept
  | leaveShapeMode object =>
      obtain ⟨layout, ran, holds, _⟩ := csObjectLeaveShapeMode_spec related.1 (related.2 object)
      refine ⟨_, by simp [stepBags, stepOrderedMaps, ran]; rfl, ?_⟩
      have kept := bagsRefine_update related related.1 (ShapesExtend.refl heap.shapes)
        object holds
      rw [Function.update_eq_self] at kept
      exact kept
  | walk object =>
      exact ⟨heap, by simp [stepBags, stepOrderedMaps,
        walkBag_eq related.1 (related.2 object)], related⟩

/-- Any sequence of property operations on any objects made by `csObjectNew`
answers as the same sequence on insertion-ordered maps, one for each object; at
the end every object reads back, by index and by key, as its own map. -/
theorem runBags_refines (names : Nat → ObjString) (ops : List BagOp) :
    ∃ heap,
      Refinement.run stepBags
          { shapes := [csShapeNewRoot], objects := fun object => csObjectNew (names object) }
          ops =
        some (heap, (Refinement.specify stepOrderedMaps (fun _ => []) ops).2) ∧
      (∀ object, walkBag heap.shapes (heap.objects object) =
        some ((Refinement.specify stepOrderedMaps (fun _ => []) ops).1 object)) ∧
      (∀ object key, csObjectGet heap.shapes (heap.objects object) key =
        some (OrderedMap.lookup OrderedMap.equal
          ((Refinement.specify stepOrderedMaps (fun _ => []) ops).1 object) key)) := by
  obtain ⟨heap, ran, related⟩ := stepBags_refines.run ops
    { shapes := [csShapeNewRoot], objects := fun object => csObjectNew (names object) }
    (fun _ => [])
    ⟨shapeTree_root, fun object => csObjectNew_holds shapeTree_root (names object)⟩
  exact ⟨heap, ran, fun object => walkBag_eq related.1 (related.2 object),
    fun object key => csObjectGet_eq related.1 (related.2 object) key⟩

end CScript
