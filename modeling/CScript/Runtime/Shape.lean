/-
Hidden classes: the layout objects built the same way share.

Shapes form a tree.  Each adds one key to its parent, keeps the whole key list
and a table from name to slot, and records the transitions out of it.  A shape
is named by its place in the list of shapes ever made; number zero is the root.
-/

import CScript.Runtime.TableInvariant

namespace CScript

def CS_SHAPE_MAX_SLOTS : Nat := 64

structure Shape where
  parent : Option Nat
  key : Option ObjString
  slotCount : Nat
  indices : Table
  keys : List ObjString
  transitions : Table
  deriving DecidableEq, Repr

def allocateShape : Shape :=
  { parent := none
    key := none
    slotCount := 0
    indices := csTableInit
    keys := []
    transitions := csTableInit }

def csShapeNewRoot : Shape :=
  allocateShape

/-- `AS_NUMBER`, where the runtime has put a number. -/
def Value.asNumber : Value → Option Double
  | .number n => some n
  | _ => none

/-- `(Shape *)AS_OBJ`, where the runtime has put a shape. -/
def Value.asShape : Value → Option Nat
  | .obj (.cell .shape address) => some address
  | _ => none

/-- The inner option is the slot, or that the shape has no such key. -/
def csShapeLookup (shape : Shape) (key : ObjString) : Option (Option Nat) := do
  match ← csTableGet shape.indices key with
  | none => return none
  | some index => do
      let number ← index.asNumber
      return some number.toNat

/-- What `csShapeTransition` fills a new shape with. -/
def childShape (parent : Nat) (parentShape : Shape) (key : ObjString) (indices : Table) :
    Shape :=
  { parent := some parent
    key := some key
    slotCount := parentShape.slotCount + 1
    indices := indices
    keys := parentShape.keys ++ [key]
    transitions := csTableInit }

section

variable (parent : Nat) (parentShape : Shape) (key : ObjString) (indices : Table)

@[simp] theorem childShape_keys :
    (childShape parent parentShape key indices).keys = parentShape.keys ++ [key] := rfl

@[simp] theorem childShape_slotCount :
    (childShape parent parentShape key indices).slotCount = parentShape.slotCount + 1 := rfl

@[simp] theorem childShape_indices :
    (childShape parent parentShape key indices).indices = indices := rfl

@[simp] theorem childShape_transitions :
    (childShape parent parentShape key indices).transitions = csTableInit := rfl

end

/-- A child is allocated at the end of the list of shapes.  The inner option is
`NULL`, which sends the caller to dictionary mode. -/
def csShapeTransition (shapes : List Shape) (parent : Nat) (key : ObjString) :
    Option (List Shape × Option Nat) := do
  let parentShape ← shapes[parent]?
  match ← csTableGet parentShape.transitions key with
  | some existing => do
      let child ← existing.asShape
      return (shapes, some child)
  | none =>
      if parentShape.slotCount ≥ CS_SHAPE_MAX_SLOTS then return (shapes, none)
      else do
        let copied ← csTableAddAll parentShape.indices csTableInit
        let (indices, _) ←
          csTableSet copied key (.number (Double.ofNat parentShape.slotCount))
        let child := shapes.length
        let (transitions, _) ←
          csTableSet parentShape.transitions key (.obj (.cell .shape child))
        return (shapes.set parent { parentShape with transitions := transitions } ++
          [childShape parent parentShape key indices], some child)

/-! ### The shape tree -/

structure Shape.WellFormed (shape : Shape) : Prop where
  counted : shape.keys.length = shape.slotCount
  limited : shape.slotCount ≤ CS_SHAPE_MAX_SLOTS
  distinct : shape.keys.Nodup
  indicesWf : shape.indices.WellFormed
  present : ∀ (slot : Nat) (key : ObjString), shape.keys[slot]? = some key →
    shape.indices.lookup key = some (.number (Double.ofNat slot))
  absent : ∀ key, key ∉ shape.keys → shape.indices.lookup key = none
  transitionsWf : shape.transitions.WellFormed

structure ShapeTree (shapes : List Shape) : Prop where
  root : ∃ shape : Shape, shapes[0]? = some shape ∧ shape.keys = []
  each : ∀ (index : Nat) (shape : Shape), shapes[index]? = some shape → shape.WellFormed
  leads : ∀ (index : Nat) (shape : Shape) (key : ObjString) (value : Value),
    shapes[index]? = some shape → shape.transitions.lookup key = some value →
    ∃ (child : Nat) (childShape : Shape), value = .obj (.cell .shape child) ∧
      shapes[child]? = some childShape ∧ childShape.keys = shape.keys ++ [key]

def ShapesExtend (old new : List Shape) : Prop :=
  ∀ (index : Nat) (shape : Shape), old[index]? = some shape →
    ∃ after : Shape, new[index]? = some after ∧ after.keys = shape.keys ∧
      after.indices = shape.indices ∧ after.slotCount = shape.slotCount

theorem ShapesExtend.refl (shapes : List Shape) : ShapesExtend shapes shapes :=
  fun _ shape here => ⟨shape, here, rfl, rfl, rfl⟩

theorem csShapeNewRoot_wellFormed : csShapeNewRoot.WellFormed where
  counted := rfl
  limited := Nat.zero_le _
  distinct := List.nodup_nil
  indicesWf := csTableInit_wellFormed
  present := by intro slot key here; cases here
  absent := fun key _ => csTableInit_lookup key
  transitionsWf := csTableInit_wellFormed

theorem shapeTree_root : ShapeTree [csShapeNewRoot] where
  root := ⟨csShapeNewRoot, rfl, rfl⟩
  each := by
    intro index shape here
    have member := List.mem_of_getElem? here
    rw [List.mem_singleton.mp member]
    exact csShapeNewRoot_wellFormed
  leads := by
    intro index shape key value here found
    have member := List.mem_of_getElem? here
    rw [List.mem_singleton.mp member] at found
    cases found

theorem Shape.WellFormed.slot_small {shape : Shape} (wf : shape.WellFormed) {slot : Nat}
    {key : ObjString} (here : shape.keys[slot]? = some key) : slot < 2 ^ 53 := by
  have bound := (List.getElem?_eq_some_iff.mp here).1
  have limited := wf.limited
  have counted := wf.counted
  unfold CS_SHAPE_MAX_SLOTS at limited
  omega

theorem csShapeLookup_present {shape : Shape} (wf : shape.WellFormed) {slot : Nat}
    {key : ObjString} (here : shape.keys[slot]? = some key) :
    csShapeLookup shape key = some (some slot) := by
  unfold csShapeLookup
  rw [csTableGet_eq wf.indicesWf, wf.present slot key here]
  simp [Value.asNumber, Double.toNat_ofNat (wf.slot_small here)]

theorem csShapeLookup_absent {shape : Shape} (wf : shape.WellFormed) {key : ObjString}
    (missing : key ∉ shape.keys) : csShapeLookup shape key = some none := by
  unfold csShapeLookup
  rw [csTableGet_eq wf.indicesWf, wf.absent key missing]
  rfl

/-! ### Transitions -/

private theorem child_wellFormed {parentShape : Shape} (wf : parentShape.WellFormed)
    {key : ObjString} (missing : key ∉ parentShape.keys)
    (room : parentShape.slotCount < CS_SHAPE_MAX_SLOTS) (parent : Nat) :
    ∃ copied indices isNew,
      csTableAddAll parentShape.indices csTableInit = some copied ∧
      csTableSet copied key (.number (Double.ofNat parentShape.slotCount)) =
        some (indices, isNew) ∧
      (childShape parent parentShape key indices).WellFormed := by
  obtain ⟨copied, copiedRan, copiedWf, copiedMap⟩ :=
    csTableAddAll_spec wf.indicesWf csTableInit_wellFormed
  obtain ⟨indices, setRan, indicesWf, indicesMap⟩ := csTableSet_spec copiedWf key
    (.number (Double.ofNat parentShape.slotCount))
  have copiedSame : ∀ other, copied.lookup other = parentShape.indices.lookup other := by
    intro other
    rw [copiedMap, csTableInit_lookup, Option.or_none]
  refine ⟨copied, indices, _, copiedRan, setRan, ?_⟩
  constructor
  · rw [childShape_keys, List.length_append, List.length_singleton, wf.counted,
      childShape_slotCount]
  · exact room
  · rw [childShape_keys, List.nodup_append]
    refine ⟨wf.distinct, List.pairwise_singleton _ _, ?_⟩
    intro left leftMember right rightMember same
    rw [List.mem_singleton.mp rightMember] at same
    exact missing (same ▸ leftMember)
  · exact indicesWf
  · intro slot other here
    rw [childShape_indices, indicesMap]
    rw [childShape_keys] at here
    by_cases last : slot < parentShape.keys.length
    · rw [List.getElem?_append_left last] at here
      have different : other ≠ key := by
        intro same
        exact missing (same ▸ List.mem_of_getElem? here)
      rw [Function.update_of_ne different, copiedSame]
      exact wf.present slot other here
    · rw [List.getElem?_append_right (Nat.not_lt.mp last)] at here
      obtain ⟨bound, keyEq⟩ := List.getElem?_eq_some_iff.mp here
      rw [List.length_singleton] at bound
      have slotEq : slot = parentShape.slotCount := by
        have counted := wf.counted
        omega
      simp only [List.getElem_singleton] at keyEq
      rw [← keyEq, slotEq, Function.update_self]
  · intro other notMember
    rw [childShape_keys, List.mem_append, List.mem_singleton, not_or] at notMember
    rw [childShape_indices, indicesMap, Function.update_of_ne notMember.2, copiedSame]
    exact wf.absent other notMember.1
  · exact csTableInit_wellFormed

/-- A transition on a new key either refuses at the slot limit, or answers a
shape with that key added, and leaves every shape already there looking as it
did. -/
theorem csShapeTransition_spec {shapes : List Shape} (tree : ShapeTree shapes)
    {parent : Nat} {parentShape : Shape} (here : shapes[parent]? = some parentShape)
    {key : ObjString} (missing : key ∉ parentShape.keys) :
    ∃ after answer, csShapeTransition shapes parent key = some (after, answer) ∧
      ShapeTree after ∧ ShapesExtend shapes after ∧
      ((answer = none ∧ CS_SHAPE_MAX_SLOTS ≤ parentShape.slotCount) ∨
        ∃ (child : Nat) (childShape : Shape), answer = some child ∧
          after[child]? = some childShape ∧ childShape.keys = parentShape.keys ++ [key]) := by
  have wf := tree.each parent parentShape here
  unfold csShapeTransition
  simp only [here, Option.bind_eq_bind, Option.bind_some, csTableGet_eq wf.transitionsWf]
  cases known : parentShape.transitions.lookup key with
  | some existing =>
      obtain ⟨child, childShape, existingEq, childHere, childKeys⟩ :=
        tree.leads parent parentShape key existing here known
      subst existingEq
      exact ⟨shapes, some child, rfl, tree, ShapesExtend.refl shapes,
        Or.inr ⟨child, childShape, rfl, childHere, childKeys⟩⟩
  | none =>
      by_cases full : parentShape.slotCount ≥ CS_SHAPE_MAX_SLOTS
      · exact ⟨shapes, none, by simp only [if_pos full]; rfl, tree, ShapesExtend.refl shapes,
          Or.inl ⟨rfl, full⟩⟩
      · obtain ⟨copied, indices, isNew, copiedRan, setRan, childWf⟩ :=
          child_wellFormed wf missing (Nat.lt_of_not_le full) parent
        obtain ⟨transitions, edgeRan, edgeWf, edgeMap⟩ := csTableSet_spec wf.transitionsWf key
          (.obj (.cell .shape shapes.length))
        generalize childEq : childShape parent parentShape key indices = child at childWf
        have childKeys : child.keys = parentShape.keys ++ [key] := by rw [← childEq, childShape_keys]
        have childFresh : child.transitions = csTableInit := by
          rw [← childEq, childShape_transitions]
        have parentBound := (List.getElem?_eq_some_iff.mp here).1
        generalize grownEq : ({ parentShape with transitions := transitions } : Shape) = grown
        have grownWf : grown.WellFormed := by
          subst grownEq
          exact ⟨wf.counted, wf.limited, wf.distinct, wf.indicesWf, wf.present, wf.absent,
            edgeWf⟩
        have read : ∀ (index : Nat) (shape : Shape),
            (shapes.set parent grown ++ [child])[index]? = some shape →
            (index = parent ∧ shape = grown) ∨
              (index ≠ parent ∧ shapes[index]? = some shape) ∨
              (index = shapes.length ∧ shape = child) := by
          intro index shape found
          by_cases inside : index < shapes.length
          · rw [List.getElem?_append_left (by rwa [List.length_set])] at found
            by_cases atParent : index = parent
            · subst atParent
              rw [List.getElem?_set_self inside] at found
              exact Or.inl ⟨rfl, (Option.some.inj found).symm⟩
            · rw [List.getElem?_set_ne (fun same => atParent same.symm)] at found
              exact Or.inr (Or.inl ⟨atParent, found⟩)
          · rw [List.getElem?_append_right (by rw [List.length_set]; omega)] at found
            obtain ⟨bound, shapeEq⟩ := List.getElem?_eq_some_iff.mp found
            rw [List.length_singleton, List.length_set] at bound
            simp only [List.getElem_singleton] at shapeEq
            exact Or.inr (Or.inr ⟨by omega, shapeEq.symm⟩)
        have readChild : (shapes.set parent grown ++ [child])[shapes.length]? =
            some child := by
          rw [List.getElem?_append_right (by rw [List.length_set]), List.length_set,
            Nat.sub_self]
          rfl
        have extend : ShapesExtend shapes (shapes.set parent grown ++ [child]) := by
          intro index shape found
          have inside := (List.getElem?_eq_some_iff.mp found).1
          rw [List.getElem?_append_left (by rwa [List.length_set])]
          by_cases atParent : parent = index
          · subst atParent
            rw [here] at found
            cases found
            subst grownEq
            exact ⟨_, List.getElem?_set_self inside, rfl, rfl, rfl⟩
          · exact ⟨shape, by rw [List.getElem?_set_ne atParent]; exact found, rfl, rfl, rfl⟩
        refine ⟨shapes.set parent grown ++ [child], some shapes.length, ?_, ?_, extend,
          Or.inr ⟨shapes.length, child, rfl, readChild, childKeys⟩⟩
        · simp only [if_neg full, copiedRan, setRan, edgeRan, Option.bind_some, Option.pure_def,
            grownEq, childEq]
        · constructor
          · obtain ⟨root, rootHere, rootKeys⟩ := tree.root
            obtain ⟨after, afterHere, keysEq, _⟩ := extend 0 root rootHere
            exact ⟨after, afterHere, by rw [keysEq, rootKeys]⟩
          · intro index shape found
            rcases read index shape found with ⟨_, isGrown⟩ | ⟨_, old⟩ | ⟨_, isChild⟩
            · rw [isGrown]; exact grownWf
            · exact tree.each index shape old
            · rw [isChild]; exact childWf
          · intro index shape other value found edge
            rcases read index shape found with ⟨_, isGrown⟩ | ⟨_, old⟩ | ⟨_, isChild⟩
            · subst grownEq
              subst isGrown
              simp only at edge
              rw [edgeMap] at edge
              by_cases sameKey : other = key
              · subst sameKey
                rw [Function.update_self] at edge
                cases edge
                exact ⟨shapes.length, child, rfl, readChild, childKeys⟩
              · rw [Function.update_of_ne sameKey] at edge
                obtain ⟨place, target, valueEq, targetHere, targetKeys⟩ :=
                  tree.leads parent parentShape other value here edge
                obtain ⟨after, afterHere, keysEq, _⟩ := extend place target targetHere
                exact ⟨place, after, valueEq, afterHere, by rw [keysEq, targetKeys]⟩
            · obtain ⟨place, target, valueEq, targetHere, targetKeys⟩ :=
                tree.leads index shape other value old edge
              obtain ⟨after, afterHere, keysEq, _⟩ := extend place target targetHere
              exact ⟨place, after, valueEq, afterHere, by rw [keysEq, targetKeys]⟩
            · rw [isChild, childFresh, csTableInit_lookup] at edge
              cases edge

end CScript
