/-
An object's properties: slots while the layout is shared, a table once it is
not.

In shape mode the keys live in a shape and the object holds a flat array of
values; a slot beyond the shape's count has never been written.  In dictionary
mode the object carries its own table and key list.  The shapes are the only
state the property operations share, and they are passed along.
-/

import CScript.Foundation.OrderedMap
import CScript.Runtime.Shape

namespace CScript

open Foundation

/-- The union in `ObjObject`, discriminated by `shape == NULL`. -/
inductive Layout where
  | slots (shape : Nat) (values : List (Option Value))
  | dictionary (table : Table) (keys : List ObjString)
  deriving DecidableEq, Repr

structure ObjObject where
  layout : Layout
  name : ObjString
  klass : Option Nat
  frozen : Bool
  prototype : Option Nat
  privates : Option Table
  attributes : Option Table
  deriving DecidableEq, Repr

/-- `vm.emptyShape`. -/
def emptyShape : Nat := 0

def csObjectNew (name : ObjString) : ObjObject :=
  { layout := .slots emptyShape []
    name := name
    klass := none
    frozen := false
    prototype := none
    privates := none
    attributes := none }

/-- `while (capacity < needed) capacity *= 2`. -/
def doubleCapacity (needed : Nat) : Nat → Nat → Nat
  | 0, capacity => capacity
  | fuel + 1, capacity =>
      if capacity < needed then doubleCapacity needed fuel (capacity * 2) else capacity

def ensureSlots (values : List (Option Value)) (needed : Nat) : List (Option Value) :=
  if values.length ≥ needed then values
  else
    let start := if values.length < 4 then 4 else values.length
    values ++ List.replicate (doubleCapacity needed needed start - values.length) none

def csObjectReserveSlots (object : ObjObject) (slots : Nat) : ObjObject :=
  match object.layout with
  | .dictionary _ _ => object
  | .slots shape values => { object with layout := .slots shape (ensureSlots values slots) }

/-- The loop of `convertToDictionary`, one key and its slot at a time. -/
def fillTable : List ObjString → List (Option Value) → Table → Option Table
  | [], _, table => some table
  | key :: keys, some value :: values, table => do
      let (filled, _) ← csTableSet table key value
      fillTable keys values filled
  | _ :: _, _, _ => none

def convertToDictionary (shapes : List Shape) (object : ObjObject) : Option ObjObject :=
  match object.layout with
  | .dictionary _ _ => none
  | .slots shape values => do
      let layout ← shapes[shape]?
      let table ← fillTable (layout.keys.take layout.slotCount) values csTableInit
      return { object with layout := .dictionary table (layout.keys.take layout.slotCount) }

def dictionaryPut (table : Table) (keys : List ObjString) (key : ObjString) (value : Value) :
    Option Layout := do
  let (after, isNewKey) ← csTableSet table key value
  if isNewKey then return .dictionary after (keys ++ [key])
  else return .dictionary after keys

def removeKey : List ObjString → ObjString → List ObjString
  | [], _ => []
  | held :: rest, key => if held = key then rest else held :: removeKey rest key

/-- The dictionary half of `csObjectDelete`. -/
def dictionaryDelete (object : ObjObject) (key : ObjString) : Option (ObjObject × Bool) :=
  match object.layout with
  | .slots _ _ => none
  | .dictionary table keys => do
      let (after, removed) ← csTableDelete table key
      if removed then
        return ({ object with layout := .dictionary after (removeKey keys key) }, true)
      else return (object, false)

def csObjectDelete (shapes : List Shape) (object : ObjObject) (key : ObjString) :
    Option (ObjObject × Bool) :=
  match object.layout with
  | .dictionary _ _ => dictionaryDelete object key
  | .slots shape _ => do
      let layout ← shapes[shape]?
      match ← csShapeLookup layout key with
      | none => return (object, false)
      | some _ => do
          let converted ← convertToDictionary shapes object
          dictionaryDelete converted key

def csObjectPut (shapes : List Shape) (object : ObjObject) (key : ObjString) (value : Value) :
    Option (List Shape × ObjObject) :=
  match object.layout with
  | .dictionary table keys => do
      let layout ← dictionaryPut table keys key value
      return (shapes, { object with layout := layout })
  | .slots shape values => do
      let current ← shapes[shape]?
      match ← csShapeLookup current key with
      | some slot =>
          return (shapes, { object with layout := .slots shape (values.set slot (some value)) })
      | none => do
          let (shapes, transition) ← csShapeTransition shapes shape key
          match transition with
          | none => do
              let converted ← convertToDictionary shapes object
              match converted.layout with
              | .slots _ _ => none
              | .dictionary table keys => do
                  let layout ← dictionaryPut table keys key value
                  return (shapes, { converted with layout := layout })
          | some next => do
              let nextShape ← shapes[next]?
              let grown := ensureSlots values nextShape.slotCount
              return (shapes, { object with
                layout := .slots next (grown.set (nextShape.slotCount - 1) (some value)) })

/-- The inner option is the value, or that the object has no such property. -/
def csObjectGet (shapes : List Shape) (object : ObjObject) (key : ObjString) :
    Option (Option Value) :=
  match object.layout with
  | .dictionary table _ => csTableGet table key
  | .slots shape values => do
      let layout ← shapes[shape]?
      match ← csShapeLookup layout key with
      | none => return none
      | some slot => do
          let written ← values[slot]?
          let value ← written
          return some value

def csObjectLeaveShapeMode (shapes : List Shape) (object : ObjObject) : Option ObjObject :=
  match object.layout with
  | .dictionary _ _ => some object
  | .slots _ _ => convertToDictionary shapes object

def csObjectCount (shapes : List Shape) (object : ObjObject) : Option Nat :=
  match object.layout with
  | .dictionary _ keys => some keys.length
  | .slots shape _ => do
      let layout ← shapes[shape]?
      return layout.slotCount

def csObjectKeyAt (shapes : List Shape) (object : ObjObject) (index : Nat) :
    Option ObjString :=
  match object.layout with
  | .dictionary _ keys => keys[index]?
  | .slots shape _ => do
      let layout ← shapes[shape]?
      layout.keys[index]?

def csObjectValueAt (object : ObjObject) (index : Nat) : Option Value :=
  match object.layout with
  | .slots _ values => do
      let written ← values[index]?
      written
  | .dictionary table keys => do
      let key ← keys[index]?
      let found ← csTableGet table key
      return found.getD .undefined

/-! ### What a bag holds -/

/-- The bag of `object` is the ordered map `items`. -/
def BagHolds (shapes : List Shape) (object : ObjObject) (items : List (ObjString × Value)) :
    Prop :=
  match object.layout with
  | .slots shape values =>
      ∃ layout : Shape, shapes[shape]? = some layout ∧ layout.keys = items.map Prod.fst ∧
        ∀ (index : Nat) (item : ObjString × Value), items[index]? = some item →
          values[index]? = some (some item.2)
  | .dictionary table keys =>
      table.WellFormed ∧ keys = items.map Prod.fst ∧ (items.map Prod.fst).Nodup ∧
        table.lookup = OrderedMap.lookup OrderedMap.equal items

theorem csObjectNew_holds {shapes : List Shape} (tree : ShapeTree shapes) (name : ObjString) :
    BagHolds shapes (csObjectNew name) [] := by
  obtain ⟨root, here, keys⟩ := tree.root
  exact ⟨root, here, keys, by intro index item found; cases found⟩

theorem BagHolds.extend {old new : List Shape} {object : ObjObject}
    {items : List (ObjString × Value)} (holds : BagHolds old object items)
    (extend : ShapesExtend old new) : BagHolds new object items := by
  unfold BagHolds at holds ⊢
  cases layoutEq : object.layout with
  | dictionary table keys => rw [layoutEq] at holds; exact holds
  | slots shape values =>
      rw [layoutEq] at holds
      obtain ⟨layout, here, keys, written⟩ := holds
      obtain ⟨after, afterHere, keysEq, _⟩ := extend shape layout here
      exact ⟨after, afterHere, by rw [keysEq, keys], written⟩

theorem BagHolds.nodup {shapes : List Shape} (tree : ShapeTree shapes) {object : ObjObject}
    {items : List (ObjString × Value)} (holds : BagHolds shapes object items) :
    (items.map Prod.fst).Nodup := by
  unfold BagHolds at holds
  cases layoutEq : object.layout with
  | dictionary table keys => rw [layoutEq] at holds; exact holds.2.2.1
  | slots shape values =>
      rw [layoutEq] at holds
      obtain ⟨layout, here, keys, _⟩ := holds
      rw [← keys]
      exact (tree.each shape layout here).distinct

theorem BagHolds.distinct {shapes : List Shape} (tree : ShapeTree shapes) {object : ObjObject}
    {items : List (ObjString × Value)} (holds : BagHolds shapes object items) :
    OrderedMap.Distinct OrderedMap.equal items :=
  OrderedMap.distinct_equal_iff.mpr (holds.nodup tree)

end CScript
