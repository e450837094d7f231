/-
The classes that hold the accessors of one object.

An accessor of an object literal, and one that `Object.defineProperty` makes,
is kept on a class made for that object alone.  No program ever holds such a
class: it has no superclass and no methods, nothing is an instance of it, and
nothing but the object it was made for adds an accessor to it.
-/

import CScript.Runtime.CacheTransparency

namespace CScript

/-! ### Accessors of a literal -/

/-- `OP_OBJECT_ACCESSOR`. -/
def opObjectAccessor (heap : PropertyHeap) (address : Nat) (isGetter : Bool) (name : ObjString)
    (closure : Nat) : Option PropertyHeap := do
  let object ← heap.objects[address]?
  let accessor : Value := .obj (.cell .closure closure)
  let (classes, held, klass) := holderClass heap.classes object
  let holder ← classes[klass]?
  let getters ← setAccessor (if isGetter then some accessor else none) holder.getters name
  let setters ← setAccessor (if isGetter then none else some accessor) holder.setters name
  let left ← csObjectLeaveShapeMode heap.shapes held
  let (shapes, marked) ← csObjectPut heap.shapes left name (objectValue accessorMarker)
  return { heap with
    shapes := shapes
    objects := heap.objects.set address marked
    classes := classes.set klass { holder with getters := getters, setters := setters } }

/-- `isAccessorHolder` is set on the classes of `holders`. -/
structure AccessorHeap where
  heap : PropertyHeap
  holders : List Nat
  deriving DecidableEq, Repr

def AccessorHeap.initial : AccessorHeap :=
  { heap := PropertyHeap.initial, holders := [] }

def AccessorHeap.facts (state : AccessorHeap) (isMethod : Value → Bool) : ReadFacts :=
  { isAccessorHolder := fun klass => decide (klass ∈ state.holders), isMethod := isMethod }

inductive AccessorOp where
  | write (op : PropertyOp)
  | method (klass : Nat) (name : ObjString) (closure : Nat)
  | objectAccessor (target : Nat) (isGetter : Bool) (name : ObjString) (closure : Nat)
  deriving DecidableEq, Repr

def PropertyOp.klass : PropertyOp → Option Nat
  | .newClass _ superclass => superclass
  | .newAccessor klass _ _ _ => some klass
  | .newInstance klass => some klass
  | _ => none

def PropertyOp.defines : PropertyOp → Bool
  | .defineProperty _ _ _ => true
  | _ => false

def AccessorHeap.adopt (state : AccessorHeap) (after : PropertyHeap) : AccessorHeap :=
  { heap := after
    holders :=
      if state.heap.classes.length < after.classes.length then
        state.heap.classes.length :: state.holders
      else state.holders }

def stepAccessors (cells : Cells) (state : AccessorHeap) : AccessorOp → Option AccessorHeap
  | .write op =>
      if op.klass.any (fun klass => decide (klass ∈ state.holders)) then none
      else do
        let (after, _) ← stepProperty cells state.heap op
        if op.defines then return state.adopt after
        else return { state with heap := after }
  | .method klass name closure =>
      if klass ∈ state.holders then none
      else (opMethod state.heap klass name closure).map (fun heap => { state with heap := heap })
  | .objectAccessor target isGetter name closure =>
      (opObjectAccessor state.heap target isGetter name closure).map state.adopt

def runAccessors (cells : Cells) : List AccessorOp → AccessorHeap → Option AccessorHeap
  | [], state => some state
  | op :: rest, state => do
      let after ← stepAccessors cells state op
      runAccessors cells rest after

/-! ### What the classes keep to -/

structure PlainHolder (klass : ObjClass) : Prop where
  superclass : klass.superclass = none
  methods : klass.methods = csTableInit
  getters : klass.getters.WellFormed
  setters : klass.setters.WellFormed

def HoldersPlain (holders : List Nat) (classes : List ObjClass) : Prop :=
  ∀ holder ∈ holders, ∃ klass : ObjClass, classes[holder]? = some klass ∧ PlainHolder klass

theorem csClassNew_plain (name : ObjString) : PlainHolder (csClassNew name none) where
  superclass := rfl
  methods := rfl
  getters := csTableInit_wellFormed
  setters := csTableInit_wellFormed

section

variable {holders : List Nat} {classes : List ObjClass}

theorem HoldersPlain.bound (plain : HoldersPlain holders classes) {holder : Nat}
    (listed : holder ∈ holders) : holder < classes.length := by
  obtain ⟨klass, here, _⟩ := plain holder listed
  exact (List.getElem?_eq_some_iff.mp here).1

theorem HoldersPlain.append (plain : HoldersPlain holders classes) (more : List ObjClass) :
    HoldersPlain holders (classes ++ more) := by
  intro holder listed
  obtain ⟨klass, here, fine⟩ := plain holder listed
  refine ⟨klass, ?_, fine⟩
  rw [List.getElem?_append_left (plain.bound listed)]
  exact here

theorem HoldersPlain.setOther (plain : HoldersPlain holders classes) {klass : Nat}
    (declared : klass ∉ holders) (changed : ObjClass) :
    HoldersPlain holders (classes.set klass changed) := by
  intro holder listed
  obtain ⟨old, here, fine⟩ := plain holder listed
  refine ⟨old, ?_, fine⟩
  have different : klass ≠ holder := by
    rintro rfl
    exact declared listed
  rw [List.getElem?_set_ne different]
  exact here

theorem HoldersPlain.set (plain : HoldersPlain holders classes) {klass : Nat}
    {old changed : ObjClass} (here : classes[klass]? = some old)
    (still : PlainHolder old → PlainHolder changed) :
    HoldersPlain holders (classes.set klass changed) := by
  intro holder listed
  obtain ⟨one, oneHere, fine⟩ := plain holder listed
  by_cases same : klass = holder
  · subst same
    rw [here] at oneHere
    cases oneHere
    exact ⟨changed, List.getElem?_set_self (plain.bound listed), still fine⟩
  · refine ⟨one, ?_, fine⟩
    rw [List.getElem?_set_ne same]
    exact oneHere

theorem setAccessor_wellFormed {accessor : Option Value} {table after : Table} {key : ObjString}
    (wf : table.WellFormed) (ran : setAccessor accessor table key = some after) :
    after.WellFormed := by
  unfold setAccessor at ran
  cases accessor with
  | none =>
      cases ran
      exact wf
  | some closure =>
      obtain ⟨set, stored, setWf, _⟩ := csTableSet_spec wf key closure
      simp only [stored, Option.map_some] at ran
      cases ran
      exact setWf

theorem HoldersPlain.hold (plain : HoldersPlain holders classes) {object held : ObjObject}
    {grown : List ObjClass} {klass : Nat} (made : holderClass classes object = (grown, held, klass))
    {holder : ObjClass} (here : grown[klass]? = some holder) {key : ObjString}
    {getter setter : Option Value} {getters setters : Table}
    (gets : setAccessor getter holder.getters key = some getters)
    (sets : setAccessor setter holder.setters key = some setters) :
    HoldersPlain
      (if classes.length < (grown.set klass { holder with
          getters := getters, setters := setters }).length then classes.length :: holders
        else holders)
      (grown.set klass { holder with getters := getters, setters := setters }) := by
  have still (fine : PlainHolder holder) :
      PlainHolder { holder with getters := getters, setters := setters } :=
    { superclass := fine.superclass
      methods := fine.methods
      getters := setAccessor_wellFormed fine.getters gets
      setters := setAccessor_wellFormed fine.setters sets }
  rw [List.length_set]
  unfold holderClass at made
  cases known : object.klass with
  | some old =>
      rw [known] at made
      cases made
      rw [if_neg (Nat.lt_irrefl _)]
      exact plain.set here still
  | none =>
      rw [known] at made
      cases made
      have longer : classes.length < (classes ++ [csClassNew object.name none]).length := by
        rw [List.length_append, List.length_singleton]
        exact Nat.lt_succ_self _
      rw [if_pos longer]
      rw [List.getElem?_concat_length] at here
      cases here
      intro one listed
      rcases List.mem_cons.mp listed with rfl | old
      · exact ⟨_, List.getElem?_set_self longer, still (csClassNew_plain object.name)⟩
      · exact ((plain.append _).set List.getElem?_concat_length still) one old

end

/-! ### Which operations change the classes -/

section

variable {heap after : PropertyHeap} {address : Nat} {object : ObjObject}
  {outcome : PropertyAnswer}

theorem putProperty_classes {key : ObjString} {value : Value}
    (ran : putProperty heap address object key value = some after) :
    after.classes = heap.classes := by
  unfold putProperty at ran
  obtain ⟨⟨shapes, put⟩, _, finished⟩ := Option.bind_eq_some_iff.mp ran
  cases finished
  rfl

theorem deleteProperty_classes {key : ObjString}
    (ran : deleteProperty heap address object key = some after) :
    after.classes = heap.classes := by
  unfold deleteProperty at ran
  obtain ⟨⟨deleted, flag⟩, _, finished⟩ := Option.bind_eq_some_iff.mp ran
  cases finished
  rfl

theorem relink_classes {prototype answer : Value}
    (ran : relink heap address object prototype answer = some (after, outcome)) :
    after.classes = heap.classes := by
  unfold relink at ran
  split at ran
  · cases ran
    rfl
  · cases ran
    rfl
  · obtain ⟨linked, linkRan, finished⟩ := Option.bind_eq_some_iff.mp ran
    obtain ⟨meets, _, decided⟩ := Option.bind_eq_some_iff.mp linkRan
    cases meets <;> cases decided <;> cases finished <;> rfl
  · cases ran
    rfl

theorem opSetProperty_classes {index : Nat} {value : Value}
    (ran : opSetProperty heap index address value = some (after, outcome)) :
    after.classes = heap.classes := by
  unfold opSetProperty at ran
  obtain ⟨site, _, ran⟩ := Option.bind_eq_some_iff.mp ran
  obtain ⟨object, _, ran⟩ := Option.bind_eq_some_iff.mp ran
  split at ran
  · cases ran
    rfl
  · unfold propertyWriteSlow at ran
    split at ran
    · cases ran
      rfl
    · split at ran
      · exact relink_classes ran
      · obtain ⟨found, _, ran⟩ := Option.bind_eq_some_iff.mp ran
        cases found with
        | setter closure =>
            cases ran
            rfl
        | getterOnly =>
            cases ran
            rfl
        | none =>
            obtain ⟨attributes, _, ran⟩ := Option.bind_eq_some_iff.mp ran
            split at ran
            · cases ran
              rfl
            · obtain ⟨⟨shapes, target⟩, _, ran⟩ := Option.bind_eq_some_iff.mp ran
              obtain ⟨cache, _, finished⟩ := Option.bind_eq_some_iff.mp ran
              cases finished
              rfl

variable (cells : Cells)

theorem opSetIndex_classes {index value : Value}
    (ran : opSetIndex cells heap address index value = some (after, outcome)) :
    after.classes = heap.classes := by
  unfold opSetIndex at ran
  obtain ⟨object, _, ran⟩ := Option.bind_eq_some_iff.mp ran
  split at ran
  · obtain ⟨put, _, finished⟩ := Option.bind_eq_some_iff.mp ran
    cases finished
    rfl
  · split at ran
    · cases ran
      rfl
    · obtain ⟨put, stored, finished⟩ := Option.bind_eq_some_iff.mp ran
      cases finished
      exact putProperty_classes stored

theorem opDeleteProperty_classes {name : ObjString}
    (ran : opDeleteProperty heap address name = some (after, outcome)) :
    after.classes = heap.classes := by
  unfold opDeleteProperty at ran
  obtain ⟨object, _, ran⟩ := Option.bind_eq_some_iff.mp ran
  split at ran
  · cases ran
    rfl
  · obtain ⟨attributes, _, ran⟩ := Option.bind_eq_some_iff.mp ran
    split at ran
    · cases ran
      rfl
    · obtain ⟨gone, deleted, finished⟩ := Option.bind_eq_some_iff.mp ran
      cases finished
      exact deleteProperty_classes deleted

theorem opDeleteIndex_classes {index : Value}
    (ran : opDeleteIndex cells heap address index = some (after, outcome)) :
    after.classes = heap.classes := by
  unfold opDeleteIndex at ran
  obtain ⟨object, _, ran⟩ := Option.bind_eq_some_iff.mp ran
  split at ran
  · cases ran
    rfl
  · split at ran
    · obtain ⟨gone, _, finished⟩ := Option.bind_eq_some_iff.mp ran
      cases finished
      rfl
    · obtain ⟨gone, deleted, finished⟩ := Option.bind_eq_some_iff.mp ran
      cases finished
      exact deleteProperty_classes deleted

theorem assignPut_classes {frame : AssignFrame} {rest : List AssignFrame} {key : ObjString}
    {value : Value} (ran : assignPut heap frame rest key value = some (after, outcome)) :
    after.classes = heap.classes := by
  unfold assignPut at ran
  obtain ⟨target, _, ran⟩ := Option.bind_eq_some_iff.mp ran
  obtain ⟨put, stored, finished⟩ := Option.bind_eq_some_iff.mp ran
  cases finished
  have same := putProperty_classes stored
  exact same

theorem assignStep_classes (ran : assignStep heap = some (after, outcome)) :
    after.classes = heap.classes := by
  unfold assignStep at ran
  split at ran
  · cases ran
  · split at ran
    · cases ran
    · obtain ⟨turn, _, ran⟩ := Option.bind_eq_some_iff.mp ran
      cases turn with
      | put key value => exact assignPut_classes ran
      | _ =>
          cases ran
          rfl

theorem assignResume_classes {value : Value}
    (ran : assignResume heap value = some (after, outcome)) : after.classes = heap.classes := by
  unfold assignResume at ran
  split at ran
  · cases ran
  · split at ran
    · cases ran
    · exact assignPut_classes ran

theorem assignAbandon_classes (ran : assignAbandon heap = some (after, outcome)) :
    after.classes = heap.classes := by
  unfold assignAbandon at ran
  split at ran
  · cases ran
  · cases ran
    rfl

end

/-! ### Every state that is reached -/

structure AccessorHeap.Fine (state : AccessorHeap) : Prop where
  linked : state.heap.Linked
  plain : HoldersPlain state.holders state.heap.classes

theorem AccessorHeap.initial_fine : AccessorHeap.initial.Fine where
  linked := ⟨initial_sound, fun index site here => by cases here⟩
  plain holder listed := by cases listed

section

variable {state after : AccessorHeap}

private theorem defineAccessor_adopt (plain : HoldersPlain state.holders state.heap.classes)
    {address : Nat} {object : ObjObject} {key : ObjString} {present : Bool}
    {described : Descriptor} {heap : PropertyHeap}
    (ran : defineAccessor state.heap address object key present described = some heap) :
    HoldersPlain (state.adopt heap).holders heap.classes := by
  unfold defineAccessor at ran
  obtain ⟨emptied, _, ran⟩ := Option.bind_eq_some_iff.mp ran
  cases made : holderClass state.heap.classes emptied with
  | mk grown rest =>
      obtain ⟨held, klass⟩ := rest
      simp only [made] at ran
      obtain ⟨holder, here, ran⟩ := Option.bind_eq_some_iff.mp ran
      obtain ⟨getters, gets, ran⟩ := Option.bind_eq_some_iff.mp ran
      obtain ⟨setters, sets, ran⟩ := Option.bind_eq_some_iff.mp ran
      obtain ⟨left, _, ran⟩ := Option.bind_eq_some_iff.mp ran
      obtain ⟨⟨shapes, marked⟩, _, ran⟩ := Option.bind_eq_some_iff.mp ran
      obtain ⟨last, _, finished⟩ := Option.bind_eq_some_iff.mp ran
      cases finished
      exact plain.hold made here gets sets

theorem AccessorHeap.adopt_same (state : AccessorHeap) {heap : PropertyHeap}
    (same : heap.classes = state.heap.classes) : (state.adopt heap).holders = state.holders := by
  unfold AccessorHeap.adopt
  rw [same, if_neg (Nat.lt_irrefl _)]

private theorem objectDefineProperty_adopt (plain : HoldersPlain state.holders state.heap.classes)
    {cells : Cells} {address : Nat} {key : ObjString} {describedBy : Value}
    {heap : PropertyHeap} {outcome : PropertyAnswer}
    (ran : objectDefineProperty cells state.heap address key describedBy = some (heap, outcome)) :
    HoldersPlain (state.adopt heap).holders heap.classes := by
  have same (unchanged : heap.classes = state.heap.classes) :
      HoldersPlain (state.adopt heap).holders heap.classes := by
    rw [state.adopt_same unchanged, unchanged]
    exact plain
  unfold objectDefineProperty at ran
  obtain ⟨object, _, ran⟩ := Option.bind_eq_some_iff.mp ran
  split at ran
  · obtain ⟨descriptor, _, ran⟩ := Option.bind_eq_some_iff.mp ran
    split at ran
    · cases ran
      exact same rfl
    · obtain ⟨existing, _, ran⟩ := Option.bind_eq_some_iff.mp ran
      obtain ⟨attributes, _, ran⟩ := Option.bind_eq_some_iff.mp ran
      split at ran
      · cases ran
        exact same rfl
      · unfold defineAllowed at ran
        obtain ⟨described, _, ran⟩ := Option.bind_eq_some_iff.mp ran
        dsimp only at ran
        split at ran
        · cases ran
          exact same rfl
        · split at ran
          · split at ran
            · cases ran
              exact same rfl
            · obtain ⟨defined, definedRan, finished⟩ := Option.bind_eq_some_iff.mp ran
              cases finished
              exact defineAccessor_adopt plain definedRan
          · obtain ⟨defined, definedRan, finished⟩ := Option.bind_eq_some_iff.mp ran
            cases finished
            unfold defineData at definedRan
            obtain ⟨left, _, definedRan⟩ := Option.bind_eq_some_iff.mp definedRan
            obtain ⟨⟨shapes, put⟩, _, definedRan⟩ := Option.bind_eq_some_iff.mp definedRan
            obtain ⟨last, _, finished⟩ := Option.bind_eq_some_iff.mp definedRan
            cases finished
            exact same rfl
  · cases ran
    exact same rfl

private theorem stepProperty_plain (cells : Cells) {op : PropertyOp} {heap : PropertyHeap}
    {outcome : PropertyAnswer} (plain : HoldersPlain state.holders state.heap.classes)
    (declared : ∀ klass, op.klass = some klass → klass ∉ state.holders)
    (other : op.defines = false)
    (ran : stepProperty cells state.heap op = some (heap, outcome)) :
    HoldersPlain state.holders heap.classes := by
  have same (unchanged : heap.classes = state.heap.classes) :
      HoldersPlain state.holders heap.classes := by
    rw [unchanged]
    exact plain
  cases op with
  | newObject name prototype =>
      cases ran
      exact plain
  | newClass name superclass =>
      cases ran
      exact plain.append _
  | newAccessor klass isGetter name closure =>
      obtain ⟨done, doneRan, finished⟩ := Option.map_eq_some_iff.mp ran
      cases finished
      obtain ⟨holder, _, doneRan⟩ := Option.bind_eq_some_iff.mp doneRan
      cases isGetter with
      | true =>
          obtain ⟨set, _, doneRan⟩ := Option.bind_eq_some_iff.mp doneRan
          cases doneRan
          exact plain.setOther (declared klass rfl) _
      | false =>
          obtain ⟨set, _, doneRan⟩ := Option.bind_eq_some_iff.mp doneRan
          cases doneRan
          exact plain.setOther (declared klass rfl) _
  | newInstance klass =>
      obtain ⟨done, doneRan, finished⟩ := Option.map_eq_some_iff.mp ran
      cases finished
      obtain ⟨holder, _, doneRan⟩ := Option.bind_eq_some_iff.mp doneRan
      cases doneRan
      exact plain
  | newSite name =>
      cases ran
      exact plain
  | setProperty site receiver value => exact same (opSetProperty_classes ran)
  | setIndex target index value => exact same (opSetIndex_classes cells ran)
  | deleteProperty target name => exact same (opDeleteProperty_classes ran)
  | deleteIndex target index => exact same (opDeleteIndex_classes cells ran)
  | assign arguments =>
      have answered : objectAssign state.heap arguments = (heap, outcome) := Option.some.inj ran
      unfold objectAssign at answered
      split at answered <;> cases answered <;> exact plain
  | assignStep => exact same (assignStep_classes ran)
  | assignResume value => exact same (assignResume_classes ran)
  | assignAbandon => exact same (assignAbandon_classes ran)
  | defineProperty target key describedBy => cases other
  | setPrototypeOf target prototype =>
      obtain ⟨object, _, ran⟩ := Option.bind_eq_some_iff.mp ran
      exact same (relink_classes ran)
  | freeze target =>
      obtain ⟨object, _, ran⟩ := Option.bind_eq_some_iff.mp ran
      cases ran
      exact plain

theorem opObjectAccessor_fine (fine : state.Fine) {address closure : Nat} {isGetter : Bool}
    {name : ObjString} {heap : PropertyHeap}
    (ran : opObjectAccessor state.heap address isGetter name closure = some heap) :
    (state.adopt heap).Fine := by
  have sound := fine.linked.sound
  unfold opObjectAccessor at ran
  obtain ⟨object, objectHere, ran⟩ := Option.bind_eq_some_iff.mp ran
  cases made : holderClass state.heap.classes object with
  | mk grown rest =>
      obtain ⟨held, klass⟩ := rest
      simp only [made] at ran
      obtain ⟨holder, here, ran⟩ := Option.bind_eq_some_iff.mp ran
      obtain ⟨getters, gets, ran⟩ := Option.bind_eq_some_iff.mp ran
      obtain ⟨setters, sets, ran⟩ := Option.bind_eq_some_iff.mp ran
      obtain ⟨left, leaves, ran⟩ := Option.bind_eq_some_iff.mp ran
      obtain ⟨⟨shapes, marked⟩, put, finished⟩ := Option.bind_eq_some_iff.mp ran
      cases finished
      have heldSound : ObjectSound state.heap.shapes held := by
        have before := sound.objects address object objectHere
        unfold holderClass at made
        split at made <;> cases made
        · exact before
        · exact { bag := before.bag, living := before.living, attributes := before.attributes
                  privates := before.privates, writable := before.writable }
      obtain ⟨table, keys, leftRan, leftSound, _⟩ :=
        csObjectLeaveShapeMode_sound sound.tree heldSound
      rw [leftRan] at leaves
      cases leaves
      obtain ⟨after, layout, putRan, tree, extend, markedSound, _⟩ :=
        csObjectPut_sound sound.tree sound.absent leftSound name (objectValue accessorMarker)
      rw [putRan] at put
      cases put
      constructor
      · exact (fine.linked.onward
          ⟨sound.write tree extend address markedSound _ state.heap.assigns,
            (csObjectPut_grow sound.tree putRan).1, rfl⟩).1
      · exact fine.plain.hold made here gets sets

theorem stepAccessors_fine (cells : Cells) (fine : state.Fine) {op : AccessorOp}
    (ran : stepAccessors cells state op = some after) : after.Fine := by
  cases op with
  | write op =>
      simp only [stepAccessors] at ran
      split at ran
      · cases ran
      · rename_i unheld
        obtain ⟨⟨heap, outcome⟩, stepped, finished⟩ := Option.bind_eq_some_iff.mp ran
        have linked := (stepProperty_linked cells fine.linked stepped).1
        cases defines : op.defines with
        | true =>
            simp only [defines, if_true] at finished
            cases finished
            cases op with
            | defineProperty target key describedBy =>
                exact ⟨linked, objectDefineProperty_adopt fine.plain stepped⟩
            | _ => cases defines
        | false =>
            simp only [defines, Bool.false_eq_true, if_false] at finished
            cases finished
            have declared : ∀ klass, op.klass = some klass → klass ∉ state.holders := by
              intro klass named listed
              apply unheld
              rw [named]
              exact decide_eq_true listed
            have plain : HoldersPlain state.holders heap.classes :=
              stepProperty_plain cells fine.plain declared defines stepped
            exact ⟨linked, plain⟩
  | method klass name closure =>
      simp only [stepAccessors] at ran
      split at ran
      · cases ran
      · rename_i declared
        obtain ⟨heap, stepped, finished⟩ := Option.map_eq_some_iff.mp ran
        cases finished
        obtain ⟨holder, _, stepped⟩ := Option.bind_eq_some_iff.mp stepped
        obtain ⟨⟨methods, isNew⟩, _, stepped⟩ := Option.bind_eq_some_iff.mp stepped
        cases stepped
        have sound := fine.linked.sound
        exact ⟨⟨{ tree := sound.tree, absent := sound.absent, objects := sound.objects
                  sites := sound.sites }, fine.linked.sites⟩, fine.plain.setOther declared _⟩
  | objectAccessor target isGetter name closure =>
      obtain ⟨heap, stepped, finished⟩ := Option.map_eq_some_iff.mp ran
      cases finished
      exact opObjectAccessor_fine fine stepped

theorem runAccessors_fine (cells : Cells) {ops : List AccessorOp} (fine : state.Fine)
    (ran : runAccessors cells ops state = some after) : after.Fine := by
  induction ops generalizing state with
  | nil =>
      cases ran
      exact fine
  | cons op rest ih =>
      obtain ⟨middle, stepped, ran⟩ := Option.bind_eq_some_iff.mp ran
      exact ih (stepAccessors_fine cells fine stepped) ran

end

/-! ### What a holder answers -/

theorem PlainHolder.find {classes : List ObjClass} {holder : Nat} {klass : ObjClass}
    (here : classes[holder]? = some klass) (fine : PlainHolder klass)
    (accessors : ObjClass → Table) (wf : (accessors klass).WellFormed) (name : ObjString) :
    findAccessor classes accessors name (classes.length + 1) (some holder) =
      some ((accessors klass).lookup name) := by
  unfold findAccessor
  simp only [here, Option.bind_eq_bind, Option.bind_some, csTableGet_eq wf]
  cases found : (accessors klass).lookup name with
  | some accessor => rfl
  | none =>
      dsimp only
      rw [fine.superclass]
      unfold findAccessor
      cases classes.length <;> rfl

end CScript
