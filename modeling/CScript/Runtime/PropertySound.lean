/-
What holds of every object between two property operations.

The bag of an object is an ordered map, its tables are intact, and an object
with a read-only property has left shape mode, which is what keeps the inline
caches away from it.  A filled cache names a slot of the shape it expects, or
the shape with one key more.
-/

import CScript.Runtime.PropertyOps
import Mathlib.Data.List.Nodup

namespace CScript

open Foundation

/-! ### Attributes -/

def attributesOf (object : ObjObject) (key : ObjString) : Nat :=
  match object.attributes with
  | none => CS_PROP_DEFAULT
  | some table =>
      match table.lookup key with
      | some (.number attributes) => attributes.toNat
      | _ => CS_PROP_DEFAULT

def AttributesWf (object : ObjObject) : Prop :=
  ∀ table, object.attributes = some table → table.WellFormed ∧
    ∀ key value, table.lookup key = some value → ∃ attributes, value = .number attributes

theorem csObjectAttributes_eq {object : ObjObject} (wf : AttributesWf object) (key : ObjString) :
    csObjectAttributes object key = some (attributesOf object key) := by
  unfold csObjectAttributes attributesOf
  cases here : object.attributes with
  | none => rfl
  | some table =>
      obtain ⟨tableWf, numbers⟩ := wf table here
      simp only [csTableGet_eq tableWf, Option.bind_eq_bind, Option.bind_some]
      cases found : table.lookup key with
      | none => rfl
      | some value =>
          obtain ⟨attributes, rfl⟩ := numbers key value found
          rfl

theorem csObjectSetAttributes_spec {object : ObjObject} (wf : AttributesWf object)
    (key : ObjString) {attributes : Nat} (small : attributes < 2 ^ 53) :
    ∃ table, csObjectSetAttributes object key attributes =
        some { object with attributes := table } ∧
      AttributesWf { object with attributes := table } ∧
      attributesOf { object with attributes := table } =
        Function.update (attributesOf object) key attributes := by
  -- A table that holds the new attributes besides what it held.
  have filled : ∀ old after : Table, after.WellFormed →
      after.lookup = Function.update old.lookup key (some (.number (Double.ofNat attributes))) →
      (∀ other value, old.lookup other = some value → ∃ number, value = .number number) →
      AttributesWf { object with attributes := some after } ∧
        attributesOf { object with attributes := some after } =
          Function.update (attributesOf { object with attributes := some old }) key attributes := by
    intro old after afterWf contents numbers
    constructor
    · intro table equal
      cases equal
      refine ⟨afterWf, fun other value found => ?_⟩
      rw [contents] at found
      by_cases same : other = key
      · subst same
        rw [Function.update_self] at found
        exact ⟨_, (Option.some.inj found).symm⟩
      · rw [Function.update_of_ne same] at found
        exact numbers other value found
    · funext other
      by_cases same : other = key
      · subst same
        simp only [attributesOf, contents, Function.update_self]
        exact Double.toNat_ofNat small
      · simp only [attributesOf, contents, Function.update_of_ne same]
  unfold csObjectSetAttributes
  cases here : object.attributes with
  | none =>
      by_cases plain : attributes = CS_PROP_DEFAULT
      · refine ⟨none, ?_, ?_, ?_⟩
        · exact (if_pos plain).trans (by rw [← here])
        · intro table equal
          cases equal
        · funext other
          have default_ : ∀ one, attributesOf object one = CS_PROP_DEFAULT := by
            intro one
            unfold attributesOf
            rw [here]
          by_cases same : other = key
          · subst same
            rw [Function.update_self, plain]
            rfl
          · rw [Function.update_of_ne same, default_ other]
            rfl
      · obtain ⟨after, ran, afterWf, contents⟩ := csTableSet_spec csTableInit_wellFormed key
          (.number (Double.ofNat attributes))
        obtain ⟨fullWf, full⟩ := filled csTableInit after afterWf contents
          (fun other value found => by cases found)
        refine ⟨some after, ?_, fullWf, ?_⟩
        · simp only [if_neg plain, ran, Option.bind_eq_bind, Option.bind_some]
          rfl
        · rw [full]
          congr 1
          funext other
          unfold attributesOf
          rw [here]
          rfl
  | some table =>
      obtain ⟨tableWf, numbers⟩ := wf table here
      obtain ⟨after, ran, afterWf, contents⟩ := csTableSet_spec tableWf key
        (.number (Double.ofNat attributes))
      obtain ⟨fullWf, full⟩ := filled table after afterWf contents numbers
      refine ⟨some after, ?_, fullWf, ?_⟩
      · simp only [ran, Option.bind_eq_bind, Option.bind_some]
        rfl
      · rw [full]
        congr 1
        funext other
        unfold attributesOf
        rw [here]

/-! ### Objects -/

structure ObjectSound (shapes : List Shape) (object : ObjObject) : Prop where
  bag : ∃ items, BagHolds shapes object items
  living : ∀ shape values, object.layout = .slots shape values → shape ≠ absentShape
  attributes : AttributesWf object
  privates : ∀ table, object.privates = some table → table.WellFormed
  writable : ∀ shape values, object.layout = .slots shape values →
    ∀ key, attributesOf object key &&& CS_PROP_WRITABLE ≠ 0

theorem ObjectSound.extend {old new : List Shape} {object : ObjObject}
    (sound : ObjectSound old object) (extend : ShapesExtend old new) : ObjectSound new object where
  bag := sound.bag.imp (fun _ holds => holds.extend extend)
  living := sound.living
  attributes := sound.attributes
  privates := sound.privates
  writable := sound.writable

def ownOf (shapes : List Shape) (object : ObjObject) (key : ObjString) : Option Value :=
  (csObjectGet shapes object key).join

def ownPrivateOf (object : ObjObject) (key : ObjString) : Option Value :=
  (csObjectGetPrivate object key).join

theorem ownOf_eq {shapes : List Shape} (tree : ShapeTree shapes) {object : ObjObject}
    {items : List (ObjString × Value)} (holds : BagHolds shapes object items) :
    ownOf shapes object = OrderedMap.lookup OrderedMap.equal items := by
  funext key
  unfold ownOf
  rw [csObjectGet_eq tree holds]
  rfl

theorem ownOf_extend {old new : List Shape} (oldTree : ShapeTree old) (newTree : ShapeTree new)
    {object : ObjObject} (sound : ObjectSound old object) (extend : ShapesExtend old new) :
    ownOf new object = ownOf old object := by
  obtain ⟨items, holds⟩ := sound.bag
  rw [ownOf_eq oldTree holds, ownOf_eq newTree (holds.extend extend)]

private theorem soundOfLayout {shapes after : List Shape} {object : ObjObject} {layout : Layout}
    (sound : ObjectSound shapes object) {items : List (ObjString × Value)}
    (holds : BagHolds after { object with layout := layout } items)
    (shaped : ∀ shape values, layout = .slots shape values → shape ≠ absentShape ∧
      ∃ old olds, object.layout = .slots old olds) :
    ObjectSound after { object with layout := layout } where
  bag := ⟨items, holds⟩
  living shape values equal := (shaped shape values equal).1
  attributes := sound.attributes
  privates := sound.privates
  writable shape values equal key := by
    obtain ⟨_, old, olds, before⟩ := shaped shape values equal
    exact sound.writable old olds before key

/-! ### Stores -/

def AbsentShape (shapes : List Shape) : Prop :=
  ∃ shape : Shape, shapes[absentShape]? = some shape ∧ shape.keys = []

theorem AbsentShape.extend {old new : List Shape} (absent : AbsentShape old)
    (extend : ShapesExtend old new) : AbsentShape new := by
  obtain ⟨shape, here, empty⟩ := absent
  obtain ⟨after, afterHere, keys, _⟩ := extend absentShape shape here
  exact ⟨after, afterHere, keys.trans empty⟩

private theorem AbsentShape.ne {shapes : List Shape} (absent : AbsentShape shapes) {address : Nat}
    {shape : Shape} {keys : List ObjString} {key : ObjString}
    (here : shapes[address]? = some shape) (keysEq : shape.keys = keys ++ [key]) :
    address ≠ absentShape := by
  rintro rfl
  obtain ⟨other, otherHere, empty⟩ := absent
  rw [here] at otherHere
  cases otherHere
  rw [empty] at keysEq
  cases keys <;> cases keysEq

/-- An object that is still in shape mode after a put was in shape mode before;
its shape is the one it had, which has the key, or has that key more. -/
theorem csObjectPut_layout {shapes after : List Shape} (tree : ShapeTree shapes)
    {object put : ObjObject} {key : ObjString} {value : Value}
    (ran : csObjectPut shapes object key value = some (after, put)) {address : Nat}
    {values : List (Option Value)} (layoutEq : put.layout = .slots address values) :
    ∃ (old : Nat) (olds : List (Option Value)) (shape : Shape),
      object.layout = .slots old olds ∧ shapes[old]? = some shape ∧
      (address = old ∨ ∃ next : Shape, after[address]? = some next ∧
        next.keys = shape.keys ++ [key]) := by
  unfold csObjectPut at ran
  cases mode : object.layout with
  | dictionary table keys =>
      rw [mode] at ran
      obtain ⟨layout, layoutRan, equal⟩ := Option.bind_eq_some_iff.mp ran
      cases equal
      obtain ⟨⟨table', isNew⟩, _, finished⟩ := Option.bind_eq_some_iff.mp layoutRan
      have wrong : layout = .slots address values := layoutEq
      subst wrong
      cases isNew <;> cases finished
  | slots old olds =>
      rw [mode] at ran
      obtain ⟨shape, here, found⟩ := Option.bind_eq_some_iff.mp ran
      have wf := tree.each old shape here
      refine ⟨old, olds, shape, rfl, here, ?_⟩
      by_cases present : key ∈ shape.keys
      · obtain ⟨slot, slotHere⟩ := List.mem_iff_getElem?.mp present
        simp only [csShapeLookup_present wf slotHere, Option.bind_eq_bind, Option.bind_some] at found
        cases found
        cases layoutEq
        exact Or.inl rfl
      · obtain ⟨grown, answer, transition, _, _, outcome⟩ :=
          csShapeTransition_spec tree here present
        simp only [csShapeLookup_absent wf present, transition, Option.bind_eq_bind,
          Option.bind_some] at found
        rcases outcome with ⟨none_, _⟩ | ⟨child, next, child_, nextHere, nextKeys⟩
        · subst none_
          obtain ⟨converted, _, rest⟩ := Option.bind_eq_some_iff.mp found
          cases convertedEq : converted.layout with
          | slots one other =>
              rw [convertedEq] at rest
              cases rest
          | dictionary table keys =>
              rw [convertedEq] at rest
              obtain ⟨layout, layoutRan, equal⟩ := Option.bind_eq_some_iff.mp rest
              cases equal
              obtain ⟨⟨table', isNew⟩, _, finished⟩ := Option.bind_eq_some_iff.mp layoutRan
              have wrong : layout = .slots address values := layoutEq
              subst wrong
              cases isNew <;> cases finished
        · subst child_
          simp only [nextHere, Option.bind_some] at found
          cases found
          cases layoutEq
          exact Or.inr ⟨next, nextHere, nextKeys⟩

theorem csObjectPut_sound {shapes : List Shape} (tree : ShapeTree shapes)
    (absent : AbsentShape shapes) {object : ObjObject} (sound : ObjectSound shapes object)
    (key : ObjString) (value : Value) :
    ∃ after layout, csObjectPut shapes object key value =
        some (after, { object with layout := layout }) ∧
      ShapeTree after ∧ ShapesExtend shapes after ∧
      ObjectSound after { object with layout := layout } ∧
      ownOf after { object with layout := layout } =
        Function.update (ownOf shapes object) key (some value) := by
  obtain ⟨items, holds⟩ := sound.bag
  obtain ⟨after, layout, ran, afterTree, extend, afterHolds⟩ :=
    csObjectPut_spec tree holds key value
  refine ⟨after, layout, ran, afterTree, extend, ?_, ?_⟩
  · apply soundOfLayout sound afterHolds
    intro address values equal
    obtain ⟨old, olds, shape, mode, here, grown⟩ := csObjectPut_layout tree ran equal
    refine ⟨?_, old, olds, mode⟩
    rcases grown with same | ⟨next, nextHere, nextKeys⟩
    · rw [same]
      exact sound.living old olds mode
    · exact (absent.extend extend).ne nextHere nextKeys
  · rw [ownOf_eq afterTree afterHolds, ownOf_eq tree holds, OrderedMap.lookup_put_equal]

theorem csObjectDelete_layout {shapes : List Shape} {object deleted : ObjObject}
    {key : ObjString} {flag : Bool}
    (ran : csObjectDelete shapes object key = some (deleted, flag)) {address : Nat}
    {values : List (Option Value)} (layoutEq : deleted.layout = .slots address values) :
    object.layout = .slots address values := by
  have dictionary : ∀ one : ObjObject, dictionaryDelete one key = some (deleted, flag) → False := by
    intro one deleteRan
    unfold dictionaryDelete at deleteRan
    cases mode : one.layout with
    | slots _ _ => rw [mode] at deleteRan; cases deleteRan
    | dictionary table keys =>
        rw [mode] at deleteRan
        obtain ⟨⟨after, removed⟩, _, finished⟩ := Option.bind_eq_some_iff.mp deleteRan
        cases removed with
        | true => cases finished; cases layoutEq
        | false => cases finished; rw [mode] at layoutEq; cases layoutEq
  unfold csObjectDelete at ran
  cases mode : object.layout with
  | dictionary table keys =>
      rw [mode] at ran
      exact (dictionary object ran).elim
  | slots old olds =>
      rw [mode] at ran
      obtain ⟨shape, _, found⟩ := Option.bind_eq_some_iff.mp ran
      obtain ⟨answer, _, rest⟩ := Option.bind_eq_some_iff.mp found
      cases answer with
      | none =>
          cases rest
          rw [mode] at layoutEq
          exact layoutEq
      | some slot =>
          obtain ⟨converted, _, deleteRan⟩ := Option.bind_eq_some_iff.mp rest
          exact (dictionary converted deleteRan).elim

theorem csObjectDelete_sound {shapes : List Shape} (tree : ShapeTree shapes)
    {object : ObjObject} (sound : ObjectSound shapes object) (key : ObjString) :
    ∃ layout flag, csObjectDelete shapes object key =
        some ({ object with layout := layout }, flag) ∧
      ObjectSound shapes { object with layout := layout } ∧
      ownOf shapes { object with layout := layout } =
        Function.update (ownOf shapes object) key none := by
  obtain ⟨items, holds⟩ := sound.bag
  obtain ⟨layout, ran, afterHolds⟩ := csObjectDelete_spec tree holds key
  refine ⟨layout, _, ran, ?_, ?_⟩
  · apply soundOfLayout sound afterHolds
    intro address values equal
    have before := csObjectDelete_layout ran equal
    exact ⟨sound.living address values before, address, values, before⟩
  · rw [ownOf_eq tree afterHolds, ownOf_eq tree holds,
      OrderedMap.lookup_erase_equal (holds.distinct tree)]

theorem csObjectLeaveShapeMode_sound {shapes : List Shape} (tree : ShapeTree shapes)
    {object : ObjObject} (sound : ObjectSound shapes object) :
    ∃ table keys, csObjectLeaveShapeMode shapes object =
        some { object with layout := .dictionary table keys } ∧
      ObjectSound shapes { object with layout := .dictionary table keys } ∧
      ownOf shapes { object with layout := .dictionary table keys } = ownOf shapes object := by
  obtain ⟨items, holds⟩ := sound.bag
  obtain ⟨layout, ran, afterHolds, table, keys, rfl⟩ := csObjectLeaveShapeMode_spec tree holds
  refine ⟨table, keys, ran, ?_, ?_⟩
  · apply soundOfLayout sound afterHolds
    intro address values wrong
    cases wrong
  · rw [ownOf_eq tree afterHolds, ownOf_eq tree holds]

/-! ### Private properties -/

theorem csObjectPutPrivate_sound {shapes : List Shape} {object now : ObjObject}
    (sound : ObjectSound shapes object) {key : ObjString} {value : Value}
    (ran : csObjectPutPrivate object key value = some now) :
    ∃ privates, now = { object with privates := privates } ∧
      ObjectSound shapes { object with privates := privates } := by
  have held : (object.privates.getD csTableInit).WellFormed := by
    cases privates : object.privates with
    | none => exact csTableInit_wellFormed
    | some table => exact sound.privates table privates
  obtain ⟨table, stored, wf, _⟩ := csTableSet_spec held key value
  unfold csObjectPutPrivate at ran
  simp only [stored, Option.bind_eq_bind, Option.bind_some] at ran
  cases ran
  exact ⟨some table, rfl,
    { bag := sound.bag, living := sound.living, attributes := sound.attributes
      privates := fun one equal => by cases equal; exact wf
      writable := sound.writable }⟩

theorem csObjectDeletePrivate_sound {shapes : List Shape} {object now : ObjObject}
    (sound : ObjectSound shapes object) {key : ObjString}
    (ran : csObjectDeletePrivate object key = some now) :
    ∃ privates, now = { object with privates := privates } ∧
      ObjectSound shapes { object with privates := privates } := by
  unfold csObjectDeletePrivate at ran
  cases privates : object.privates with
  | none =>
      rw [privates] at ran
      cases ran
      exact ⟨object.privates, rfl, sound⟩
  | some held =>
      obtain ⟨table, deleted, wf, _⟩ := csTableDelete_spec (sound.privates held privates) key
      rw [privates] at ran
      simp only [deleted, Option.bind_eq_bind, Option.bind_some] at ran
      cases ran
      exact ⟨some table, rfl,
        { bag := sound.bag, living := sound.living, attributes := sound.attributes
          privates := fun one equal => by cases equal; exact wf
          writable := sound.writable }⟩

/-! ### Inline caches -/

/-- The cache of a site is empty, or expects a shape with the site's name at
the slot, or the shape that the name turns into `added`. -/
def CacheSound (shapes : List Shape) (site : Site) : Prop :=
  site.cache.shape = absentShape ∨
    ∃ shape : Shape, shapes[site.cache.shape]? = some shape ∧
      match site.cache.added with
      | none => shape.keys[site.cache.slot]? = some site.name
      | some added => ∃ next : Shape, shapes[added]? = some next ∧
          next.keys = shape.keys ++ [site.name] ∧ site.cache.slot = shape.keys.length

theorem CacheSound.extend {old new : List Shape} {site : Site} (sound : CacheSound old site)
    (extend : ShapesExtend old new) : CacheSound new site := by
  unfold CacheSound at sound ⊢
  rcases sound with empty | ⟨shape, here, filled⟩
  · exact Or.inl empty
  · right
    obtain ⟨after, afterHere, keys, _⟩ := extend _ shape here
    refine ⟨after, afterHere, ?_⟩
    cases added : site.cache.added with
    | none =>
        rw [added] at filled
        rw [keys]
        exact filled
    | some address =>
        rw [added] at filled
        obtain ⟨next, nextHere, nextKeys, slot⟩ := filled
        obtain ⟨nextAfter, nextAfterHere, nextAfterKeys, _⟩ := extend address next nextHere
        exact ⟨nextAfter, nextAfterHere, by rw [nextAfterKeys, nextKeys, keys], by rw [keys, slot]⟩

theorem storeFast_sound {shapes : List Shape} (tree : ShapeTree shapes)
    (absent : AbsentShape shapes) {object stored : ObjObject} (sound : ObjectSound shapes object)
    {site : Site} (cache : CacheSound shapes site) {value : Value}
    (ran : storeFast object site.cache value = some stored) :
    ∃ layout, stored = { object with layout := layout } ∧
      ObjectSound shapes { object with layout := layout } ∧
      (∃ shape values, object.layout = .slots shape values) ∧
      ownOf shapes { object with layout := layout } =
        Function.update (ownOf shapes object) site.name (some value) := by
  obtain ⟨items, holds⟩ := sound.bag
  unfold storeFast at ran
  split at ran
  case isFalse => cases ran
  case isTrue hit =>
    unfold csVMStoreCached at ran
    cases mode : object.layout with
    | dictionary table keys =>
        unfold ObjObject.shape at hit
        rw [mode] at hit
        cases hit
    | slots address values =>
        unfold ObjObject.shape at hit
        rw [mode] at hit ran
        have addressEq : address = site.cache.shape := Option.some.inj hit
        have bag := holds
        unfold BagHolds at bag
        rw [mode] at bag
        obtain ⟨layout, here, keysEq, written⟩ := bag
        rcases cache with empty | ⟨shape, shapeHere, filled⟩
        · exact absurd (addressEq.trans empty) (sound.living address values mode)
        rw [← addressEq, here] at shapeHere
        cases shapeHere
        -- Both kinds of store are a put of the ordered map.
        have finish : ∀ (next : Nat) (nexts : List (Option Value)),
            stored = { object with layout := .slots next nexts } → next ≠ absentShape →
            BagHolds shapes { object with layout := .slots next nexts }
              (OrderedMap.put OrderedMap.equal items site.name value) →
            ∃ layout, stored = { object with layout := layout } ∧
              ObjectSound shapes { object with layout := layout } ∧
              (∃ shape olds, Layout.slots address values = .slots shape olds) ∧
              ownOf shapes { object with layout := layout } =
                Function.update (ownOf shapes object) site.name (some value) := by
          intro next nexts storedEq living afterHolds
          refine ⟨.slots next nexts, storedEq, ?_, ⟨address, values, rfl⟩, ?_⟩
          · apply soundOfLayout sound afterHolds
            intro shape others equal
            cases equal
            exact ⟨living, address, values, mode⟩
          · rw [ownOf_eq tree afterHolds, ownOf_eq tree holds, OrderedMap.lookup_put_equal]
        cases added : site.cache.added with
        | none =>
            rw [added] at filled ran
            exact finish address _ (Option.some.inj ran).symm
              (sound.living address values mode)
              (BagHolds.overwrite object (holds.distinct tree) here keysEq written filled value)
        | some next =>
            rw [added] at filled ran
            obtain ⟨nextShape, nextHere, nextKeys, slotEq⟩ := filled
            have slotEq' : site.cache.slot = items.length := by
              rw [slotEq, keysEq, List.length_map]
            simp only [slotEq'] at ran
            by_cases full : values.length ≤ items.length
            · rw [if_pos full] at ran
              cases ran
            · rw [if_neg full] at ran
              have missing : site.name ∉ items.map Prod.fst := by
                have nodup := (tree.each next nextShape nextHere).distinct
                rw [nextKeys, keysEq] at nodup
                exact fun member => (List.nodup_append.mp nodup).2.2 _ member _
                  (List.mem_singleton.mpr rfl) rfl
              have absentName : OrderedMap.lookup OrderedMap.equal items site.name = none := by
                apply OrderedMap.lookup_eq_none_iff.mpr
                intro item member
                apply OrderedMap.equal_of_ne
                rintro equal
                exact missing (equal ▸ List.mem_map_of_mem member)
              exact finish next _ (Option.some.inj ran).symm (absent.ne nextHere nextKeys)
                (BagHolds.append object absentName nextHere (by rw [nextKeys, keysEq]) written
                  (Nat.not_le.mp full) value)

private theorem keyIndex_unique {keys : List ObjString} (distinct : keys.Nodup) {left right : Nat}
    {key : ObjString} (leftHere : keys[left]? = some key) (rightHere : keys[right]? = some key) :
    left = right := by
  obtain ⟨leftBound, leftEq⟩ := List.getElem?_eq_some_iff.mp leftHere
  obtain ⟨rightBound, rightEq⟩ := List.getElem?_eq_some_iff.mp rightHere
  exact (List.Nodup.getElem_inj_iff distinct).mp (leftEq.trans rightEq.symm)

theorem learn_sound {shapes after : List Shape} (tree : ShapeTree shapes)
    (afterTree : ShapeTree after) (extend : ShapesExtend shapes after)
    {object put : ObjObject} {site : Site} {value : Value}
    (ran : csObjectPut shapes object site.name value = some (after, put))
    (sound : CacheSound shapes site) {cache : PropertyCache}
    (learned : learn after site object.shape put = some cache) :
    CacheSound after { site with cache := cache } := by
  unfold learn at learned
  cases mode : put.layout with
  | dictionary table keys =>
      rw [mode] at learned
      cases learned
      exact sound.extend extend
  | slots address values =>
      rw [mode] at learned
      obtain ⟨layout, here, found⟩ := Option.bind_eq_some_iff.mp learned
      have wf := afterTree.each address layout here
      by_cases present : site.name ∈ layout.keys
      · obtain ⟨slot, slotHere⟩ := List.mem_iff_getElem?.mp present
        simp only [csShapeLookup_present wf slotHere, Option.bind_eq_bind, Option.bind_some] at found
        obtain ⟨old, olds, shape, oldMode, oldHere, grown⟩ := csObjectPut_layout tree ran mode
        have before : object.shape = some old := by
          unfold ObjObject.shape
          rw [oldMode]
        rw [before] at found
        by_cases same : old = address
        · rw [if_pos (congrArg some same)] at found
          cases found
          exact Or.inr ⟨layout, here, slotHere⟩
        · rw [if_neg (fun equal => same (Option.some.inj equal))] at found
          cases found
          rcases grown with equal | ⟨next, nextHere, nextKeys⟩
          · exact absurd equal.symm same
          rw [here] at nextHere
          cases nextHere
          obtain ⟨shapeAfter, shapeHere, shapeKeys, _⟩ := extend old shape oldHere
          refine Or.inr ⟨shapeAfter, shapeHere, layout, here, by rw [nextKeys, shapeKeys], ?_⟩
          have lastHere : layout.keys[shape.keys.length]? = some site.name := by
            rw [nextKeys]
            exact List.getElem?_concat_length
          rw [shapeKeys]
          exact keyIndex_unique wf.distinct slotHere lastHere
      · simp only [csShapeLookup_absent wf present, Option.bind_eq_bind, Option.bind_some] at found
        cases found
        exact sound.extend extend

/-! ### The heap -/

structure PropertyHeap.Sound (heap : PropertyHeap) : Prop where
  tree : ShapeTree heap.shapes
  absent : AbsentShape heap.shapes
  objects : ∀ (address : Nat) (object : ObjObject), heap.objects[address]? = some object →
    ObjectSound heap.shapes object
  sites : ∀ (index : Nat) (site : Site), heap.sites[index]? = some site →
    CacheSound heap.shapes site

theorem csObjectNew_sound {shapes : List Shape} (tree : ShapeTree shapes) (name : ObjString) :
    ObjectSound shapes (csObjectNew name) where
  bag := ⟨[], csObjectNew_holds tree name⟩
  living shape values equal := by
    cases equal
    decide
  attributes table equal := by cases equal
  privates table equal := by cases equal
  writable shape values _ key := by
    have plain : attributesOf (csObjectNew name) key = CS_PROP_DEFAULT := rfl
    rw [plain]
    decide

theorem initial_sound : PropertyHeap.initial.Sound := by
  have root : ∀ (index : Nat) (shape : Shape),
      PropertyHeap.initial.shapes[index]? = some shape → shape = csShapeNewRoot := by
    intro index shape here
    have member := List.mem_of_getElem? here
    simpa [PropertyHeap.initial] using member
  have tree : ShapeTree PropertyHeap.initial.shapes := by
    constructor
    · exact ⟨csShapeNewRoot, rfl, rfl⟩
    · intro index shape here
      rw [root index shape here]
      exact csShapeNewRoot_wellFormed
    · intro index shape key value here leads
      rw [root index shape here] at leads
      cases leads
  constructor
  · exact tree
  · exact ⟨csShapeNewRoot, rfl, rfl⟩
  · intro address object here
    have member := List.mem_of_getElem? here
    rw [List.mem_singleton.mp member]
    exact csObjectNew_sound tree _
  · intro index site here
    cases here

theorem PropertyHeap.Sound.write {heap : PropertyHeap} (sound : heap.Sound)
    {shapes : List Shape} (tree : ShapeTree shapes) (extend : ShapesExtend heap.shapes shapes)
    (address : Nat) {object : ObjObject} (fine : ObjectSound shapes object)
    (classes : List ObjClass) (assigns : List AssignFrame) :
    PropertyHeap.Sound
      { shapes := shapes, objects := heap.objects.set address object, classes := classes
        sites := heap.sites, assigns := assigns } where
  tree := tree
  absent := sound.absent.extend extend
  objects other one here := by
    rw [List.getElem?_set] at here
    split at here
    · split at here
      · cases here
        exact fine
      · cases here
    · exact (sound.objects other one here).extend extend
  sites index site here := (sound.sites index site here).extend extend

theorem PropertyHeap.Sound.teach {heap : PropertyHeap} (sound : heap.Sound) (index : Nat)
    {site : Site} (fine : CacheSound heap.shapes site) :
    PropertyHeap.Sound { heap with sites := heap.sites.set index site } where
  tree := sound.tree
  absent := sound.absent
  objects := sound.objects
  sites other one here := by
    rw [List.getElem?_set] at here
    split at here
    · split at here
      · cases here
        exact fine
      · cases here
    · exact sound.sites other one here

theorem PropertyHeap.Sound.register {heap : PropertyHeap} (sound : heap.Sound)
    {object : ObjObject} (fine : ObjectSound heap.shapes object) :
    (csObjectRegister heap object).Sound where
  tree := sound.tree
  absent := sound.absent
  objects address one here := by
    rcases List.mem_append.mp (List.mem_of_getElem? here) with old | new
    · obtain ⟨before, oldHere⟩ := List.mem_iff_getElem?.mp old
      exact sound.objects before one oldHere
    · rw [List.mem_singleton.mp new]
      exact fine
  sites := sound.sites

end CScript
