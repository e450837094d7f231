/-
What freezing an object and describing a property promise.

A frozen object keeps every property it has and gains none.  A property that is
not configurable stays, and a read-only one keeps its value until it is
redefined or deleted.  Four ways to write do not make the checks the others
make: a store that an inline cache takes, an indexed assignment, an indexed
delete and the stores of `Object.assign`.  Every run in which those four are not
used where they would have been refused keeps the promise.
-/

import CScript.Runtime.PropertySound

namespace CScript

open Foundation

/-! ### The promise -/

def lacks (object : ObjObject) (key : ObjString) (flag : Nat) : Bool :=
  (csObjectAttributes object key).any (fun attributes => decide (attributes &&& flag = 0))

/-- What one object keeps while the keys of `redefined` are defined anew or
deleted. -/
structure ObjectKeeps (redefined : ObjString → Prop) (shapes after : List Shape)
    (object now : ObjObject) : Prop where
  frozen : object.frozen = true → now.frozen = true ∧
    (∀ key, ownOf after now key = ownOf shapes object key) ∧
    ∀ key, ownPrivateOf now key = ownPrivateOf object key
  kept : ∀ key value, ownOf shapes object key = some value →
    lacks object key CS_PROP_CONFIGURABLE = true →
    (∃ held, ownOf after now key = some held) ∧ lacks now key CS_PROP_CONFIGURABLE = true
  readOnly : ∀ key value, ownOf shapes object key = some value →
    lacks object key CS_PROP_WRITABLE = true →
    (lacks object key CS_PROP_CONFIGURABLE = true ∨ ¬redefined key) →
    ownOf after now key = some value ∧ lacks now key CS_PROP_WRITABLE = true

def Integrity (redefined : Nat → ObjString → Prop) (before after : PropertyHeap) : Prop :=
  ∀ (address : Nat) (object : ObjObject), before.objects[address]? = some object →
    ∃ now, after.objects[address]? = some now ∧
      ObjectKeeps (redefined address) before.shapes after.shapes object now

theorem Integrity.refl (redefined : Nat → ObjString → Prop) (heap : PropertyHeap) :
    Integrity redefined heap heap := by
  intro address object here
  refine ⟨object, here, ?_, ?_, ?_⟩
  · exact fun frozen => ⟨frozen, fun _ => rfl, fun _ => rfl⟩
  · exact fun key value held fixed => ⟨⟨value, held⟩, fixed⟩
  · exact fun key value held fixed _ => ⟨held, fixed⟩

theorem Integrity.trans {early late : Nat → ObjString → Prop} {first second third : PropertyHeap}
    (begun : Integrity early first second) (ended : Integrity late second third) :
    Integrity (fun address key => early address key ∨ late address key) first third := by
  intro address object here
  obtain ⟨middle, middleHere, before⟩ := begun address object here
  obtain ⟨now, nowHere, after⟩ := ended address middle middleHere
  refine ⟨now, nowHere, ?_, ?_, ?_⟩
  · intro frozen
    obtain ⟨still, own, privates⟩ := before.frozen frozen
    obtain ⟨last, ownLast, privatesLast⟩ := after.frozen still
    exact ⟨last, fun key => (ownLast key).trans (own key),
      fun key => (privatesLast key).trans (privates key)⟩
  · intro key value held fixed
    obtain ⟨⟨other, otherHeld⟩, otherFixed⟩ := before.kept key value held fixed
    exact after.kept key other otherHeld otherFixed
  · intro key value held readOnly reason
    rcases reason with fixed | untouched
    · obtain ⟨same, still⟩ := before.readOnly key value held readOnly (Or.inl fixed)
      exact after.readOnly key value same still (Or.inl (before.kept key value held fixed).2)
    · obtain ⟨same, still⟩ := before.readOnly key value held readOnly
        (Or.inr (fun early => untouched (Or.inl early)))
      exact after.readOnly key value same still
        (Or.inr (fun late => untouched (Or.inr late)))

/-! ### One object at a time -/

section

variable {shapes after : List Shape} {object now : ObjObject}

theorem ObjectKeeps.same (redefined : ObjString → Prop)
    (frozen : object.frozen = true → now.frozen = true)
    (own : ownOf after now = ownOf shapes object) (attributes : now.attributes = object.attributes)
    (privates : object.frozen = true → now.privates = object.privates) :
    ObjectKeeps redefined shapes after object now := by
  have lacksEq : ∀ key flag, lacks now key flag = lacks object key flag := by
    intro key flag
    unfold lacks csObjectAttributes
    rw [attributes]
  constructor
  · intro was
    refine ⟨frozen was, fun key => by rw [own], fun key => ?_⟩
    unfold ownPrivateOf csObjectGetPrivate
    rw [privates was]
  · intro key value held fixed
    rw [own, lacksEq]
    exact ⟨⟨value, held⟩, fixed⟩
  · intro key value held fixed _
    rw [own, lacksEq]
    exact ⟨held, fixed⟩

theorem ObjectKeeps.put (redefined : ObjString → Prop) (unfrozen : object.frozen = false)
    {key : ObjString} {value : Value}
    (own : ownOf after now = Function.update (ownOf shapes object) key (some value))
    (attributes : now.attributes = object.attributes)
    (free : ownOf shapes object key = none ∨ lacks object key CS_PROP_WRITABLE = false) :
    ObjectKeeps redefined shapes after object now := by
  have lacksEq : ∀ key flag, lacks now key flag = lacks object key flag := by
    intro key flag
    unfold lacks csObjectAttributes
    rw [attributes]
  constructor
  · intro was
    rw [unfrozen] at was
    cases was
  · intro other old held fixed
    rw [own, lacksEq]
    refine ⟨?_, fixed⟩
    by_cases same : other = key
    · subst same
      exact ⟨value, Function.update_self _ _ _⟩
    · exact ⟨old, by rw [Function.update_of_ne same, held]⟩
  · intro other old held fixed _
    rw [own, lacksEq]
    refine ⟨?_, fixed⟩
    by_cases same : other = key
    · subst same
      rcases free with absent | writable
      · rw [absent] at held
        cases held
      · rw [writable] at fixed
        cases fixed
    · rw [Function.update_of_ne same, held]

theorem ObjectKeeps.redefine {redefined : ObjString → Prop} (unfrozen : object.frozen = false)
    {key : ObjString} (mine : redefined key)
    (own : ∀ other, other ≠ key → ownOf after now other = ownOf shapes object other)
    (attributes : ∀ other flag, other ≠ key →
      lacks now other flag = lacks object other flag)
    (free : ownOf shapes object key = none ∨ lacks object key CS_PROP_CONFIGURABLE = false) :
    ObjectKeeps redefined shapes after object now := by
  have elsewhere : ∀ other value, ownOf shapes object other = some value →
      lacks object other CS_PROP_CONFIGURABLE = true → other ≠ key := by
    rintro other value held fixed rfl
    rcases free with absent | configurable
    · rw [absent] at held
      cases held
    · rw [configurable] at fixed
      cases fixed
  constructor
  · intro was
    rw [unfrozen] at was
    cases was
  · intro other value held fixed
    have different := elsewhere other value held fixed
    rw [own other different, attributes other _ different]
    exact ⟨⟨value, held⟩, fixed⟩
  · intro other value held fixed reason
    have different : other ≠ key := by
      rintro rfl
      rcases reason with stuck | untouched
      · exact elsewhere other value held stuck rfl
      · exact untouched mine
    rw [own other different, attributes other _ different]
    exact ⟨held, fixed⟩

end

/-! ### The whole heap -/

structure Kept (redefined : Nat → ObjString → Prop) (heap after : PropertyHeap) : Prop where
  sound : after.Sound
  keeps : Integrity redefined heap after

section

variable {redefined : Nat → ObjString → Prop} {heap : PropertyHeap}

theorem Kept.refl (sound : heap.Sound) : Kept redefined heap heap :=
  ⟨sound, Integrity.refl redefined heap⟩

theorem Kept.write (sound : heap.Sound) {shapes : List Shape} (tree : ShapeTree shapes)
    (extend : ShapesExtend heap.shapes shapes) {address : Nat} {object now : ObjObject}
    (here : heap.objects[address]? = some object) (fine : ObjectSound shapes now)
    (keeps : ObjectKeeps (redefined address) heap.shapes shapes object now)
    (classes : List ObjClass) (assigns : List AssignFrame) :
    Kept redefined heap
      { shapes := shapes, objects := heap.objects.set address now, classes := classes
        sites := heap.sites, assigns := assigns } where
  sound := sound.write tree extend address fine classes assigns
  keeps other one oneHere := by
    by_cases same : address = other
    · subst same
      rw [here] at oneHere
      cases oneHere
      exact ⟨now, List.getElem?_set_self (List.getElem?_eq_some_iff.mp here).1, keeps⟩
    · refine ⟨one, (List.getElem?_set_ne same).trans oneHere, ?_⟩
      exact ObjectKeeps.same _ id
        (ownOf_extend sound.tree tree (sound.objects other one oneHere) extend) rfl (fun _ => rfl)

theorem Kept.set (sound : heap.Sound) {address : Nat} {object now : ObjObject}
    (here : heap.objects[address]? = some object) (fine : ObjectSound heap.shapes now)
    (keeps : ObjectKeeps (redefined address) heap.shapes heap.shapes object now) :
    Kept redefined heap (setObject heap address now) :=
  Kept.write sound sound.tree (ShapesExtend.refl heap.shapes) here fine keeps heap.classes
    heap.assigns

theorem Kept.teach {after : PropertyHeap} (kept : Kept redefined heap after) (index : Nat)
    {site : Site} (fine : CacheSound after.shapes site) :
    Kept redefined heap { after with sites := after.sites.set index site } :=
  ⟨kept.sound.teach index fine, kept.keeps⟩

theorem Kept.assigns {after : PropertyHeap} (kept : Kept redefined heap after)
    (assigns : List AssignFrame) : Kept redefined heap { after with assigns := assigns } :=
  ⟨{ tree := kept.sound.tree
     absent := kept.sound.absent
     objects := kept.sound.objects
     sites := kept.sound.sites }, kept.keeps⟩

theorem Kept.classes {after : PropertyHeap} (kept : Kept redefined heap after)
    (classes : List ObjClass) : Kept redefined heap { after with classes := classes } :=
  ⟨{ tree := kept.sound.tree
     absent := kept.sound.absent
     objects := kept.sound.objects
     sites := kept.sound.sites }, kept.keeps⟩

theorem Kept.register (sound : heap.Sound) {object : ObjObject}
    (fine : ObjectSound heap.shapes object) :
    Kept redefined heap (csObjectRegister heap object) where
  sound := sound.register fine
  keeps address one here := by
    obtain ⟨now, nowHere, keeps⟩ := Integrity.refl redefined heap address one here
    refine ⟨now, ?_, keeps⟩
    exact (List.getElem?_append_left (List.getElem?_eq_some_iff.mp nowHere).1).trans nowHere

end

/-! ### Which steps are refused, and which should have been -/

def PropertyHeap.isFrozen (heap : PropertyHeap) (address : Nat) : Bool :=
  (heap.objects[address]?).any ObjObject.frozen

def mayPut (heap : PropertyHeap) (address : Nat) (key : ObjString) : Bool :=
  (heap.objects[address]?).all (fun object =>
    (ownOf heap.shapes object key).isNone || !lacks object key CS_PROP_WRITABLE)

def mayDelete (heap : PropertyHeap) (address : Nat) (key : ObjString) : Bool :=
  (heap.objects[address]?).all (fun object =>
    (ownOf heap.shapes object key).isNone || !lacks object key CS_PROP_CONFIGURABLE)

def siteHits (object : ObjObject) (cache : PropertyCache) : Bool :=
  match object.layout with
  | .dictionary _ _ => false
  | .slots shape values =>
      decide (shape = cache.shape) &&
        (cache.added.isNone || decide (cache.slot < values.length))

def isSymbol : Value → Bool
  | .obj (.cell .symbol _) => true
  | _ => false

section

variable (cells : Cells)

/-- The step does not write where a check is missing: the cache of a site does
not take a store to a frozen object, an indexed assignment does not meet a
read-only property or a frozen object's symbol, an indexed delete does not meet
a property that is not configurable, and `Object.assign` does not store to a
frozen object or a read-only property. -/
def guarded (heap : PropertyHeap) : PropertyOp → Bool
  | .setProperty index receiver _ =>
      match heap.sites[index]?, heap.objects[receiver]? with
      | some site, some object => !(object.frozen && siteHits object site.cache)
      | _, _ => true
  | .setIndex target index _ =>
      if isSymbol index then !heap.isFrozen target
      else heap.isFrozen target || mayPut heap target (objectKeyFor cells index)
  | .deleteIndex target index =>
      isSymbol index || heap.isFrozen target || mayDelete heap target (objectKeyFor cells index)
  | .assignStep =>
      match heap.assigns with
      | [] => true
      | frame :: _ =>
          match frame.waiting, assignTurn heap frame with
          | none, some (.put key _) =>
              !heap.isFrozen frame.target && mayPut heap frame.target key
          | _, _ => true
  | .assignResume _ =>
      match heap.assigns with
      | [] => true
      | frame :: _ =>
          frame.waiting.all (fun key =>
            !heap.isFrozen frame.target && mayPut heap frame.target key)
  | _ => true

def redefines : PropertyOp → Nat → ObjString → Prop
  | .deleteProperty target name, address, key => address = target ∧ key = name
  | .deleteIndex target index, address, key =>
      isSymbol index = false ∧ address = target ∧ key = objectKeyFor cells index
  | .defineProperty target name _, address, key => address = target ∧ key = name
  | _, _, _ => False

end

/-! ### Stores -/

theorem lacks_eq {object : ObjObject} (wf : AttributesWf object) (key : ObjString) (flag : Nat) :
    lacks object key flag = decide (attributesOf object key &&& flag = 0) := by
  unfold lacks
  rw [csObjectAttributes_eq wf]
  rfl

section

variable {redefined : Nat → ObjString → Prop} {heap after : PropertyHeap} {address : Nat}
  {object : ObjObject}

private theorem free_of_mayPut (here : heap.objects[address]? = some object) {key : ObjString}
    (free : mayPut heap address key = true) :
    ownOf heap.shapes object key = none ∨ lacks object key CS_PROP_WRITABLE = false := by
  unfold mayPut at free
  rw [here, Option.all_some, Bool.or_eq_true, Option.isNone_iff_eq_none,
    Bool.not_eq_true'] at free
  exact free

private theorem free_of_mayDelete (here : heap.objects[address]? = some object)
    {key : ObjString} (free : mayDelete heap address key = true) :
    ownOf heap.shapes object key = none ∨ lacks object key CS_PROP_CONFIGURABLE = false := by
  unfold mayDelete at free
  rw [here, Option.all_some, Bool.or_eq_true, Option.isNone_iff_eq_none,
    Bool.not_eq_true'] at free
  exact free

private theorem isFrozen_eq (here : heap.objects[address]? = some object) :
    heap.isFrozen address = object.frozen := by
  unfold PropertyHeap.isFrozen
  rw [here, Option.any_some]

theorem putProperty_kept (sound : heap.Sound) (here : heap.objects[address]? = some object)
    (unfrozen : object.frozen = false) {key : ObjString} {value : Value}
    (free : ownOf heap.shapes object key = none ∨ lacks object key CS_PROP_WRITABLE = false)
    (ran : putProperty heap address object key value = some after) :
    Kept redefined heap after := by
  obtain ⟨shapes, layout, put, tree, extend, fine, own⟩ :=
    csObjectPut_sound sound.tree sound.absent (sound.objects address object here) key value
  unfold putProperty at ran
  simp only [put, Option.bind_eq_bind, Option.bind_some] at ran
  cases ran
  exact Kept.write sound tree extend here fine
    (ObjectKeeps.put (redefined address) unfrozen own rfl free) heap.classes heap.assigns

theorem deleteProperty_kept (sound : heap.Sound) (here : heap.objects[address]? = some object)
    (unfrozen : object.frozen = false) {key : ObjString} (mine : redefined address key)
    (free : ownOf heap.shapes object key = none ∨ lacks object key CS_PROP_CONFIGURABLE = false)
    (ran : deleteProperty heap address object key = some after) : Kept redefined heap after := by
  obtain ⟨layout, flag, deleted, fine, own⟩ :=
    csObjectDelete_sound sound.tree (sound.objects address object here) key
  unfold deleteProperty at ran
  simp only [deleted, Option.bind_eq_bind, Option.bind_some] at ran
  cases ran
  have others : ∀ other, other ≠ key →
      ownOf heap.shapes { object with layout := layout } other = ownOf heap.shapes object other := by
    intro other different
    rw [own, Function.update_of_ne different]
  exact Kept.set sound here fine
    (ObjectKeeps.redefine unfrozen mine others (fun _ _ _ => rfl) free)

private theorem relinked_kept (sound : heap.Sound) (here : heap.objects[address]? = some object)
    (prototype : Option Nat) :
    Kept redefined heap (setObject heap address { object with prototype := prototype }) := by
  have before := sound.objects address object here
  apply Kept.set sound here
  · exact { bag := before.bag, living := before.living, attributes := before.attributes
            privates := before.privates, writable := before.writable }
  · exact ObjectKeeps.same _ id rfl rfl (fun _ => rfl)

theorem relink_kept (sound : heap.Sound) (here : heap.objects[address]? = some object)
    {prototype answer : Value} {outcome : PropertyAnswer}
    (ran : relink heap address object prototype answer = some (after, outcome)) :
    Kept redefined heap after := by
  unfold relink at ran
  split at ran
  · cases ran
    exact relinked_kept sound here none
  · cases ran
    exact relinked_kept sound here none
  · obtain ⟨answered, linkRan, rest⟩ := Option.bind_eq_some_iff.mp ran
    unfold csObjectSetPrototype at linkRan
    obtain ⟨meets, _, decided⟩ := Option.bind_eq_some_iff.mp linkRan
    cases meets with
    | true =>
        cases decided
        cases rest
        exact Kept.refl sound
    | false =>
        cases decided
        cases rest
        exact relinked_kept sound here _
  · cases ran
    exact Kept.refl sound

private theorem siteHits_of_storeFast {cache : PropertyCache} {value : Value}
    {stored : ObjObject} (ran : storeFast object cache value = some stored) :
    siteHits object cache = true := by
  unfold storeFast at ran
  split at ran
  case isFalse => cases ran
  case isTrue hit =>
    unfold ObjObject.shape at hit
    unfold csVMStoreCached at ran
    unfold siteHits
    cases mode : object.layout with
    | dictionary table keys => rw [mode] at hit; cases hit
    | slots shape values =>
        rw [mode] at hit ran
        cases added : cache.added with
        | none => simp [Option.some.inj hit]
        | some next =>
            rw [added] at ran
            by_cases full : values.length ≤ cache.slot
            · simp only [if_pos full] at ran
              cases ran
            · simp [Option.some.inj hit, Nat.not_le.mp full]

private theorem lacks_of_slots {shapes : List Shape} (sound : ObjectSound shapes object)
    {shape : Nat} {values : List (Option Value)} (mode : object.layout = .slots shape values)
    (key : ObjString) : lacks object key CS_PROP_WRITABLE = false := by
  rw [lacks_eq sound.attributes]
  exact decide_eq_false (sound.writable shape values mode key)

private theorem storeSlow_kept (sound : heap.Sound) {index : Nat} {site : Site}
    (siteHere : heap.sites[index]? = some site) (here : heap.objects[address]? = some object)
    (unfrozen : object.frozen = false) {value : Value} {outcome : PropertyAnswer}
    (ran : storeSlow heap index site address object value = some (after, outcome)) :
    Kept redefined heap after := by
  have fineObject := sound.objects address object here
  unfold storeSlow at ran
  simp only [csObjectAttributes_eq fineObject.attributes, Option.bind_eq_bind,
    Option.bind_some] at ran
  split at ran
  · cases ran
    exact Kept.refl sound
  · rename_i writable
    obtain ⟨shapes, layout, put, tree, extend, fine, own⟩ :=
      csObjectPut_sound sound.tree sound.absent fineObject site.name value
    simp only [put, Option.bind_some] at ran
    obtain ⟨cache, learned, finished⟩ := Option.bind_eq_some_iff.mp ran
    cases finished
    have taught := learn_sound sound.tree tree extend put (sound.sites index site siteHere) learned
    have free : lacks object site.name CS_PROP_WRITABLE = false := by
      rw [lacks_eq fineObject.attributes]
      exact decide_eq_false writable
    exact (Kept.write sound tree extend here fine
      (ObjectKeeps.put (redefined address) unfrozen own rfl (Or.inr free)) heap.classes
      heap.assigns).teach index taught

theorem propertyWriteSlow_kept (sound : heap.Sound) {index : Nat} {site : Site}
    (siteHere : heap.sites[index]? = some site) (here : heap.objects[address]? = some object)
    {value : Value} {outcome : PropertyAnswer}
    (ran : propertyWriteSlow heap index site address object value = some (after, outcome)) :
    Kept redefined heap after := by
  unfold propertyWriteSlow at ran
  split at ran
  · cases ran
    exact Kept.refl sound
  · rename_i thawed
    split at ran
    · exact relink_kept sound here ran
    · obtain ⟨found, _, rest⟩ := Option.bind_eq_some_iff.mp ran
      cases found with
      | setter closure =>
          cases rest
          exact Kept.refl sound
      | getterOnly =>
          cases rest
          exact Kept.refl sound
      | none => exact storeSlow_kept sound siteHere here (Bool.eq_false_iff.mpr thawed) rest

theorem opSetProperty_kept (sound : heap.Sound) {index : Nat} {value : Value}
    {outcome : PropertyAnswer} (cells : Cells)
    (guard : guarded cells heap (.setProperty index address value) = true)
    (ran : opSetProperty heap index address value = some (after, outcome)) :
    Kept redefined heap after := by
  unfold opSetProperty at ran
  obtain ⟨site, siteHere, ran⟩ := Option.bind_eq_some_iff.mp ran
  obtain ⟨object, here, ran⟩ := Option.bind_eq_some_iff.mp ran
  unfold guarded at guard
  simp only [siteHere, here, Bool.not_eq_true', Bool.and_eq_false_iff] at guard
  have fineObject := sound.objects address object here
  cases fast : storeFast object site.cache value with
  | some stored =>
      rw [fast] at ran
      cases ran
      have hit := siteHits_of_storeFast fast
      have unfrozen : object.frozen = false := by
        rcases guard with unfrozen | missed
        · exact unfrozen
        · rw [hit] at missed
          cases missed
      obtain ⟨layout, rfl, fine, ⟨shape, values, mode⟩, own⟩ :=
        storeFast_sound sound.tree sound.absent fineObject (sound.sites index site siteHere) fast
      exact Kept.set sound here fine (ObjectKeeps.put (redefined address) unfrozen own rfl
        (Or.inr (lacks_of_slots fineObject mode site.name)))
  | none =>
      rw [fast] at ran
      exact propertyWriteSlow_kept sound siteHere here ran

/-! ### Indexed assignment and deletes -/

private theorem setPrivates_kept (sound : heap.Sound)
    (here : heap.objects[address]? = some object) (unfrozen : object.frozen = false)
    {privates : Option Table}
    (fine : ObjectSound heap.shapes { object with privates := privates }) :
    Kept redefined heap (setObject heap address { object with privates := privates }) := by
  refine Kept.set sound here fine (ObjectKeeps.same _ id rfl rfl (fun frozen => ?_))
  rw [unfrozen] at frozen
  cases frozen

variable (cells : Cells) {outcome : PropertyAnswer}

theorem opSetIndex_kept (sound : heap.Sound) {index value : Value}
    (guard : guarded cells heap (.setIndex address index value) = true)
    (ran : opSetIndex cells heap address index value = some (after, outcome)) :
    Kept redefined heap after := by
  unfold opSetIndex at ran
  obtain ⟨object, here, ran⟩ := Option.bind_eq_some_iff.mp ran
  simp only [guarded, isFrozen_eq here] at guard
  split at ran
  · obtain ⟨now, stored, finished⟩ := Option.bind_eq_some_iff.mp ran
    cases finished
    rw [isSymbol, if_pos rfl, Bool.not_eq_true'] at guard
    obtain ⟨privates, rfl, fine⟩ :=
      csObjectPutPrivate_sound (sound.objects address object here) stored
    exact setPrivates_kept sound here guard fine
  · rename_i notSymbol
    have plain : isSymbol index = false := by
      unfold isSymbol
      split
      · exact (notSymbol _ rfl).elim
      · rfl
    rw [plain] at guard
    split at ran
    · cases ran
      exact Kept.refl sound
    · rename_i thawed
      have unfrozen := Bool.eq_false_iff.mpr thawed
      rw [unfrozen] at guard
      obtain ⟨put, stored, finished⟩ := Option.bind_eq_some_iff.mp ran
      cases finished
      exact putProperty_kept sound here unfrozen (free_of_mayPut here guard) stored

theorem opDeleteProperty_kept (sound : heap.Sound) {name : ObjString}
    (mine : redefined address name)
    (ran : opDeleteProperty heap address name = some (after, outcome)) :
    Kept redefined heap after := by
  unfold opDeleteProperty at ran
  obtain ⟨object, here, ran⟩ := Option.bind_eq_some_iff.mp ran
  have fineObject := sound.objects address object here
  split at ran
  · cases ran
    exact Kept.refl sound
  · rename_i thawed
    simp only [csObjectAttributes_eq fineObject.attributes, Option.bind_eq_bind,
      Option.bind_some] at ran
    split at ran
    · cases ran
      exact Kept.refl sound
    · rename_i configurable
      obtain ⟨gone, deleted, finished⟩ := Option.bind_eq_some_iff.mp ran
      cases finished
      have free : lacks object name CS_PROP_CONFIGURABLE = false := by
        rw [lacks_eq fineObject.attributes]
        exact decide_eq_false configurable
      exact deleteProperty_kept sound here (Bool.eq_false_iff.mpr thawed) mine (Or.inr free)
        deleted

theorem opDeleteIndex_kept (sound : heap.Sound) {index : Value}
    (guard : guarded cells heap (.deleteIndex address index) = true)
    (mine : isSymbol index = false → redefined address (objectKeyFor cells index))
    (ran : opDeleteIndex cells heap address index = some (after, outcome)) :
    Kept redefined heap after := by
  unfold opDeleteIndex at ran
  obtain ⟨object, here, ran⟩ := Option.bind_eq_some_iff.mp ran
  simp only [guarded, isFrozen_eq here] at guard
  split at ran
  · cases ran
    exact Kept.refl sound
  · rename_i thawed
    have unfrozen := Bool.eq_false_iff.mpr thawed
    split at ran
    · obtain ⟨now, deleted, finished⟩ := Option.bind_eq_some_iff.mp ran
      cases finished
      obtain ⟨privates, rfl, fine⟩ :=
        csObjectDeletePrivate_sound (sound.objects address object here) deleted
      exact setPrivates_kept sound here unfrozen fine
    · rename_i notSymbol
      have plain : isSymbol index = false := by
        unfold isSymbol
        split
        · exact (notSymbol _ rfl).elim
        · rfl
      rw [plain, unfrozen] at guard
      obtain ⟨gone, deleted, finished⟩ := Option.bind_eq_some_iff.mp ran
      cases finished
      exact deleteProperty_kept sound here unfrozen (mine plain) (free_of_mayDelete here guard)
        deleted

/-! ### `Object.assign` -/

private theorem assignPut_kept (sound : heap.Sound) {frame : AssignFrame}
    {rest : List AssignFrame} {key : ObjString} {value : Value}
    (thawed : heap.isFrozen frame.target = false) (free : mayPut heap frame.target key = true)
    (ran : assignPut heap frame rest key value = some (after, outcome)) :
    Kept redefined heap after := by
  unfold assignPut at ran
  obtain ⟨target, here, ran⟩ := Option.bind_eq_some_iff.mp ran
  obtain ⟨put, stored, finished⟩ := Option.bind_eq_some_iff.mp ran
  cases finished
  rw [isFrozen_eq here] at thawed
  have begun : Kept redefined heap { heap with assigns := frame.next :: rest } :=
    (Kept.refl sound).assigns (frame.next :: rest)
  have kept : Kept redefined { heap with assigns := frame.next :: rest } after :=
    putProperty_kept begun.sound here thawed (free_of_mayPut here free) stored
  exact ⟨kept.sound, kept.keeps⟩

theorem assignStep_kept (sound : heap.Sound) (guard : guarded cells heap .assignStep = true)
    (ran : assignStep heap = some (after, outcome)) : Kept redefined heap after := by
  unfold assignStep at ran
  rw [guarded] at guard
  cases frames : heap.assigns with
  | nil => rw [frames] at ran; cases ran
  | cons frame rest =>
      rw [frames] at ran guard
      cases waiting : frame.waiting with
      | some key => simp only [waiting] at ran; cases ran
      | none =>
          simp only [waiting] at ran guard
          obtain ⟨turn, turned, ran⟩ := Option.bind_eq_some_iff.mp ran
          cases turn with
          | finished =>
              cases ran
              exact (Kept.refl sound).assigns rest
          | advance next =>
              cases ran
              exact (Kept.refl sound).assigns (next :: rest)
          | put key value =>
              simp only [turned, Bool.and_eq_true, Bool.not_eq_true'] at guard
              exact assignPut_kept sound guard.1 guard.2 ran
          | call getter source key =>
              cases ran
              exact (Kept.refl sound).assigns ({ frame with waiting := some key } :: rest)

theorem assignResume_kept (sound : heap.Sound) {value : Value}
    (guard : guarded cells heap (.assignResume value) = true)
    (ran : assignResume heap value = some (after, outcome)) : Kept redefined heap after := by
  unfold assignResume at ran
  rw [guarded] at guard
  cases frames : heap.assigns with
  | nil => rw [frames] at ran; cases ran
  | cons frame rest =>
      rw [frames] at ran guard
      cases waiting : frame.waiting with
      | none => simp only [waiting] at ran; cases ran
      | some key =>
          simp only [waiting, Option.all_some, Bool.and_eq_true, Bool.not_eq_true'] at ran guard
          exact assignPut_kept sound guard.1 guard.2 ran

theorem objectAssign_kept (sound : heap.Sound) (arguments : List Value) :
    Kept redefined heap (objectAssign heap arguments).1 := by
  unfold objectAssign
  split
  · exact (Kept.refl sound).assigns _
  · exact Kept.refl sound

/-! ### `Object.defineProperty` -/

private theorem mode_of_put {shapes grown : List Shape} (tree : ShapeTree shapes)
    {key : ObjString} {value : Value} {layout : Layout}
    (ran : csObjectPut shapes object key value = some (grown, { object with layout := layout }))
    {shape : Nat} {values : List (Option Value)} (mode : layout = .slots shape values) :
    ∃ old olds, object.layout = .slots old olds := by
  obtain ⟨old, olds, _, before, _⟩ := csObjectPut_layout tree ran mode
  exact ⟨old, olds, before⟩

private theorem describe_sound {shapes : List Shape} (sound : ObjectSound shapes object)
    (key : ObjString) {attributes : Nat} (small : attributes < 2 ^ 53)
    (off : ∀ shape values, object.layout = .slots shape values →
      attributes &&& CS_PROP_WRITABLE ≠ 0) :
    ∃ table, csObjectSetAttributes object key attributes =
        some { object with attributes := table } ∧
      ObjectSound shapes { object with attributes := table } ∧
      ∀ other flag, other ≠ key →
        lacks { object with attributes := table } other flag = lacks object other flag := by
  obtain ⟨table, ran, wf, contents⟩ := csObjectSetAttributes_spec sound.attributes key small
  refine ⟨table, ran, ?_, ?_⟩
  · refine { bag := sound.bag, living := sound.living, attributes := wf
             privates := sound.privates, writable := ?_ }
    intro shape values mode other
    rw [contents]
    by_cases same : other = key
    · subst same
      rw [Function.update_self]
      exact off shape values mode
    · rw [Function.update_of_ne same]
      exact sound.writable shape values mode other
  · intro other flag different
    rw [lacks_eq wf, lacks_eq sound.attributes, contents, Function.update_of_ne different]

private theorem dataAttributes_small (described : Descriptor) :
    dataAttributes described < 2 ^ 53 ∧ accessorAttributes described < 2 ^ 53 := by
  unfold dataAttributes accessorAttributes
  cases described.writable <;> cases described.enumerable <;> cases described.configurable <;>
    decide

private theorem dataAttributes_writable {described : Descriptor}
    (writable : described.writable = true) :
    dataAttributes described &&& CS_PROP_WRITABLE ≠ 0 := by
  unfold dataAttributes accessorAttributes
  rw [writable]
  cases described.enumerable <;> cases described.configurable <;> decide

private theorem leaveIfReadOnly_sound (sound : heap.Sound)
    (fine : ObjectSound heap.shapes object) (described : Descriptor) :
    ∃ layout, leaveIfReadOnly heap.shapes object described =
        some { object with layout := layout } ∧
      ObjectSound heap.shapes { object with layout := layout } ∧
      ownOf heap.shapes { object with layout := layout } = ownOf heap.shapes object ∧
      ∀ shape values, layout = .slots shape values →
        dataAttributes described &&& CS_PROP_WRITABLE ≠ 0 := by
  unfold leaveIfReadOnly
  cases writable : described.writable with
  | true => exact ⟨object.layout, rfl, fine, rfl, fun _ _ _ => dataAttributes_writable writable⟩
  | false =>
      obtain ⟨table, keys, ran, left, own⟩ := csObjectLeaveShapeMode_sound sound.tree fine
      refine ⟨.dictionary table keys, ran, left, own, ?_⟩
      intro shape values wrong
      cases wrong

theorem defineData_kept (sound : heap.Sound) (here : heap.objects[address]? = some object)
    (unfrozen : object.frozen = false) {key : ObjString} (mine : redefined address key)
    (free : ownOf heap.shapes object key = none ∨ lacks object key CS_PROP_CONFIGURABLE = false)
    {existing : Option Value} {described : Descriptor}
    (ran : defineData heap address object key existing described = some after) :
    Kept redefined heap after := by
  have fineObject := sound.objects address object here
  unfold defineData at ran
  obtain ⟨layout, left, leftSound, leftOwn, off⟩ :=
    leaveIfReadOnly_sound sound fineObject described
  obtain ⟨shapes, stored, put, tree, extend, putSound, putOwn⟩ := csObjectPut_sound sound.tree
    sound.absent leftSound key (described.value.getD (existing.getD .undefined))
  obtain ⟨table, set_, setSound, others⟩ := describe_sound putSound key
    (dataAttributes_small described).1 (by
      intro shape values mode
      obtain ⟨old, olds, before⟩ := mode_of_put sound.tree put mode
      exact off old olds before)
  simp only [left, put, set_, Option.bind_eq_bind, Option.bind_some] at ran
  cases ran
  refine Kept.write sound tree extend here setSound ?_ heap.classes heap.assigns
  apply ObjectKeeps.redefine unfrozen mine _ _ free
  · intro other different
    have same : ownOf shapes
        { { object with layout := layout } with layout := stored } other =
          ownOf heap.shapes object other := by
      rw [putOwn, Function.update_of_ne different, leftOwn]
    exact same
  · intro other flag different
    exact others other flag different

private theorem deleteStored_sound (sound : heap.Sound) (fine : ObjectSound heap.shapes object)
    (key : ObjString) (present : Bool) :
    ∃ layout, deleteStored heap.shapes object key present =
        some { object with layout := layout } ∧
      ObjectSound heap.shapes { object with layout := layout } ∧
      ∀ other, other ≠ key →
        ownOf heap.shapes { object with layout := layout } other =
          ownOf heap.shapes object other := by
  unfold deleteStored
  cases present with
  | false => exact ⟨object.layout, rfl, fine, fun _ _ => rfl⟩
  | true =>
      obtain ⟨layout, flag, deleted, gone, own⟩ := csObjectDelete_sound sound.tree fine key
      refine ⟨layout, ?_, gone, ?_⟩
      · rw [if_pos rfl, deleted, Option.map_some]
      · intro other different
        rw [own, Function.update_of_ne different]

private theorem holderClass_eq (classes : List ObjClass) (object : ObjObject) :
    ∃ grown owner klass, holderClass classes object =
      (grown, { object with klass := owner }, klass) := by
  unfold holderClass
  cases klass : object.klass with
  | none => exact ⟨_, _, _, rfl⟩
  | some address =>
      have same : object = { object with klass := some address } := by rw [← klass]
      exact ⟨classes, some address, address, congrArg (fun one => (classes, one, address)) same⟩

theorem defineAccessor_kept (sound : heap.Sound) (here : heap.objects[address]? = some object)
    (unfrozen : object.frozen = false) {key : ObjString} (mine : redefined address key)
    (free : ownOf heap.shapes object key = none ∨ lacks object key CS_PROP_CONFIGURABLE = false)
    {present : Bool} {described : Descriptor}
    (ran : defineAccessor heap address object key present described = some after) :
    Kept redefined heap after := by
  have fineObject := sound.objects address object here
  obtain ⟨layout, emptied, emptiedSound, emptiedOwn⟩ :=
    deleteStored_sound sound fineObject key present
  obtain ⟨grown, owner, klass, held⟩ :=
    holderClass_eq heap.classes { object with layout := layout }
  have heldSound : ObjectSound heap.shapes { object with layout := layout, klass := owner } :=
    { bag := emptiedSound.bag, living := emptiedSound.living
      attributes := emptiedSound.attributes, privates := emptiedSound.privates
      writable := emptiedSound.writable }
  obtain ⟨table, keys, left, leftSound, leftOwn⟩ :=
    csObjectLeaveShapeMode_sound sound.tree heldSound
  obtain ⟨shapes, stored, put, tree, extend, putSound, putOwn⟩ :=
    csObjectPut_sound sound.tree sound.absent leftSound key (objectValue accessorMarker)
  -- The marker is a read-only property, and the object has left shape mode.
  obtain ⟨attributes, describedRan, setSound, others⟩ := describe_sound putSound key
    (dataAttributes_small described).2 (by
      intro shape values mode
      obtain ⟨old, olds, wrong⟩ := mode_of_put sound.tree put mode
      cases wrong)
  unfold defineAccessor at ran
  simp only [emptied, held, Option.bind_eq_bind, Option.bind_some] at ran
  obtain ⟨holder, _, ran⟩ := Option.bind_eq_some_iff.mp ran
  obtain ⟨getters, _, ran⟩ := Option.bind_eq_some_iff.mp ran
  obtain ⟨setters, _, ran⟩ := Option.bind_eq_some_iff.mp ran
  simp only [left, put, describedRan, Option.bind_some] at ran
  cases ran
  refine Kept.write sound tree extend here setSound ?_ _ heap.assigns
  apply ObjectKeeps.redefine unfrozen mine _ _ free
  · intro other different
    have same : ownOf shapes { object with layout := stored, klass := owner } other =
        ownOf heap.shapes object other := by
      rw [putOwn, Function.update_of_ne different, leftOwn]
      exact emptiedOwn other different
    exact same
  · intro other flag different
    exact others other flag different

private theorem defineAllowed_kept (cells : Cells) (sound : heap.Sound)
    (here : heap.objects[address]? = some object) (unfrozen : object.frozen = false)
    {key : ObjString} (mine : redefined address key)
    (free : ownOf heap.shapes object key = none ∨ lacks object key CS_PROP_CONFIGURABLE = false)
    {descriptor : ObjObject} {existing : Option Value} {outcome : PropertyAnswer}
    (ran : defineAllowed cells heap address object descriptor key existing =
      some (after, outcome)) : Kept redefined heap after := by
  unfold defineAllowed at ran
  obtain ⟨described, _, ran⟩ := Option.bind_eq_some_iff.mp ran
  dsimp only at ran
  split at ran
  · cases ran
    exact Kept.refl sound
  · split at ran
    · split at ran
      · cases ran
        exact Kept.refl sound
      · obtain ⟨defined, definedRan, finished⟩ := Option.bind_eq_some_iff.mp ran
        cases finished
        exact defineAccessor_kept sound here unfrozen mine free definedRan
    · obtain ⟨defined, definedRan, finished⟩ := Option.bind_eq_some_iff.mp ran
      cases finished
      exact defineData_kept sound here unfrozen mine free definedRan

theorem objectDefineProperty_kept (cells : Cells) (sound : heap.Sound) {key : ObjString}
    (mine : redefined address key) {describedBy : Value} {outcome : PropertyAnswer}
    (ran : objectDefineProperty cells heap address key describedBy = some (after, outcome)) :
    Kept redefined heap after := by
  unfold objectDefineProperty at ran
  obtain ⟨object, here, ran⟩ := Option.bind_eq_some_iff.mp ran
  have fineObject := sound.objects address object here
  split at ran
  · obtain ⟨descriptor, _, ran⟩ := Option.bind_eq_some_iff.mp ran
    split at ran
    · cases ran
      exact Kept.refl sound
    · rename_i thawed
      obtain ⟨existing, found, ran⟩ := Option.bind_eq_some_iff.mp ran
      simp only [csObjectAttributes_eq fineObject.attributes, Option.bind_eq_bind,
        Option.bind_some] at ran
      split at ran
      · cases ran
        exact Kept.refl sound
      · rename_i allowed
        have free : ownOf heap.shapes object key = none ∨
            lacks object key CS_PROP_CONFIGURABLE = false := by
          cases existing with
          | none =>
              left
              unfold ownOf
              rw [found]
              rfl
          | some value =>
              right
              rw [lacks_eq fineObject.attributes]
              simpa using allowed
        exact defineAllowed_kept cells sound here (Bool.eq_false_iff.mpr thawed) mine free ran
  · cases ran
    exact Kept.refl sound

/-! ### Prototypes, freezing and new objects -/

theorem objectSetPrototypeOf_kept (sound : heap.Sound) {prototype : Value} {outcome : PropertyAnswer}
    (ran : objectSetPrototypeOf heap address prototype = some (after, outcome)) :
    Kept redefined heap after := by
  unfold objectSetPrototypeOf at ran
  obtain ⟨object, here, ran⟩ := Option.bind_eq_some_iff.mp ran
  exact relink_kept sound here ran

theorem objectFreeze_kept (sound : heap.Sound) {outcome : PropertyAnswer}
    (ran : objectFreeze heap address = some (after, outcome)) : Kept redefined heap after := by
  unfold objectFreeze at ran
  obtain ⟨object, here, ran⟩ := Option.bind_eq_some_iff.mp ran
  cases ran
  have before := sound.objects address object here
  apply Kept.set sound here
  · exact { bag := before.bag, living := before.living, attributes := before.attributes
            privates := before.privates, writable := before.writable }
  · exact ObjectKeeps.same _ (fun _ => rfl) rfl rfl (fun _ => rfl)

private theorem csInstanceNew_sound (sound : heap.Sound) (klass : Nat) (name : ObjString) :
    ObjectSound heap.shapes (csInstanceNew klass name) := by
  have fresh := csObjectNew_sound sound.tree name
  have empty : BagHolds heap.shapes { csObjectNew name with klass := some klass } [] :=
    csObjectNew_holds sound.tree name
  obtain ⟨layout, reserved, holds⟩ := csObjectReserveSlots_spec empty CS_INSTANCE_RESERVED_SLOTS
  have made : csInstanceNew klass name =
      { csObjectNew name with klass := some klass, layout := layout } := reserved
  rw [made]
  have mode : layout = .slots 0 (ensureSlots [] CS_INSTANCE_RESERVED_SLOTS) :=
    (congrArg ObjObject.layout reserved).symm
  refine { bag := ⟨[], holds⟩, living := ?_, attributes := fresh.attributes
           privates := fresh.privates, writable := ?_ }
  · intro shape values equal
    cases mode.symm.trans equal
    decide
  · exact fun shape values _ key => fresh.writable _ _ rfl key

private theorem opNew_kept (sound : heap.Sound) {klass : Nat}
    (ran : opNew heap klass = some after) : Kept redefined heap after := by
  unfold opNew at ran
  obtain ⟨holder, _, finished⟩ := Option.bind_eq_some_iff.mp ran
  cases finished
  exact Kept.register sound (csInstanceNew_sound sound klass holder.name)

private theorem opAccessor_kept (sound : heap.Sound) {klass closure : Nat} {isGetter : Bool}
    {name : ObjString} (ran : opAccessor heap klass isGetter name closure = some after) :
    Kept redefined heap after := by
  unfold opAccessor at ran
  obtain ⟨holder, _, ran⟩ := Option.bind_eq_some_iff.mp ran
  cases isGetter with
  | true =>
      obtain ⟨⟨getters, _⟩, _, finished⟩ := Option.bind_eq_some_iff.mp ran
      cases finished
      exact (Kept.refl sound).classes _
  | false =>
      obtain ⟨⟨setters, _⟩, _, finished⟩ := Option.bind_eq_some_iff.mp ran
      cases finished
      exact (Kept.refl sound).classes _

private theorem newObject_kept (sound : heap.Sound) (name : ObjString)
    (prototype : Option Nat) :
    Kept redefined heap
      (csObjectRegister heap { csObjectNew name with prototype := prototype }) := by
  have fresh := csObjectNew_sound sound.tree name
  exact Kept.register sound
    { bag := fresh.bag, living := fresh.living, attributes := fresh.attributes
      privates := fresh.privates, writable := fresh.writable }

private theorem newSite_kept (sound : heap.Sound) (name : ObjString) :
    Kept redefined heap
      { heap with sites := heap.sites ++ [{ name := name, cache := emptyCache }] } where
  sound :=
    { tree := sound.tree
      absent := sound.absent
      objects := sound.objects
      sites := by
        intro index site here
        rcases List.mem_append.mp (List.mem_of_getElem? here) with old | new
        · obtain ⟨before, oldHere⟩ := List.mem_iff_getElem?.mp old
          exact sound.sites before site oldHere
        · rw [List.mem_singleton.mp new]
          exact Or.inl rfl }
  keeps := Integrity.refl redefined heap

end

/-! ### Runs -/

section

variable (cells : Cells)

theorem stepProperty_kept {heap after : PropertyHeap} {op : PropertyOp} {outcome : PropertyAnswer}
    (sound : heap.Sound) (guard : guarded cells heap op = true)
    (ran : stepProperty cells heap op = some (after, outcome)) :
    Kept (redefines cells op) heap after := by
  cases op with
  | newObject name prototype =>
      cases ran
      exact newObject_kept sound name prototype
  | newClass name superclass =>
      cases ran
      exact (Kept.refl sound).classes _
  | newAccessor klass isGetter name closure =>
      obtain ⟨done, doneRan, finished⟩ := Option.map_eq_some_iff.mp ran
      cases finished
      exact opAccessor_kept sound doneRan
  | newInstance klass =>
      obtain ⟨done, doneRan, finished⟩ := Option.map_eq_some_iff.mp ran
      cases finished
      exact opNew_kept sound doneRan
  | newSite name =>
      cases ran
      exact newSite_kept sound name
  | setProperty site receiver value => exact opSetProperty_kept sound cells guard ran
  | setIndex target index value => exact opSetIndex_kept cells sound guard ran
  | deleteProperty target name => exact opDeleteProperty_kept sound ⟨rfl, rfl⟩ ran
  | deleteIndex target index =>
      exact opDeleteIndex_kept cells sound guard (fun plain => ⟨plain, rfl, rfl⟩) ran
  | assign arguments =>
      have answered : objectAssign heap arguments = (after, outcome) := Option.some.inj ran
      have kept : Kept (redefines cells (.assign arguments)) heap (objectAssign heap arguments).1 :=
        objectAssign_kept sound arguments
      rw [answered] at kept
      exact kept
  | assignStep => exact assignStep_kept cells sound guard ran
  | assignResume value => exact assignResume_kept cells sound guard ran
  | assignAbandon =>
      unfold stepProperty assignAbandon at ran
      cases frames : heap.assigns with
      | nil => rw [frames] at ran; cases ran
      | cons frame rest =>
          rw [frames] at ran
          cases ran
          exact (Kept.refl sound).assigns rest
  | defineProperty target key describedBy =>
      exact objectDefineProperty_kept cells sound ⟨rfl, rfl⟩ ran
  | setPrototypeOf target prototype => exact objectSetPrototypeOf_kept sound ran
  | freeze target => exact objectFreeze_kept sound ran

def guardedRun : List PropertyOp → PropertyHeap → Bool
  | [], _ => true
  | op :: rest, heap =>
      guarded cells heap op &&
        (stepProperty cells heap op).all (fun answered => guardedRun rest answered.1)

def redefinesIn (ops : List PropertyOp) (address : Nat) (key : ObjString) : Prop :=
  ∃ op, op ∈ ops ∧ redefines cells op address key

theorem runProperties_kept (ops : List PropertyOp) {heap after : PropertyHeap}
    (sound : heap.Sound) (guard : guardedRun cells ops heap = true)
    (ran : runProperties cells ops heap = some after) :
    Kept (redefinesIn cells ops) heap after := by
  induction ops generalizing heap with
  | nil =>
      cases ran
      exact Kept.refl sound
  | cons op rest ih =>
      obtain ⟨⟨middle, outcome⟩, stepped, ran⟩ := Option.bind_eq_some_iff.mp ran
      rw [guardedRun, stepped, Option.all_some, Bool.and_eq_true] at guard
      have begun := stepProperty_kept cells sound guard.1 stepped
      have ended := ih begun.sound guard.2 ran
      refine ⟨ended.sound, ?_⟩
      have whole := begun.keeps.trans ended.keeps
      have same : (fun address key => redefines cells op address key ∨
          redefinesIn cells rest address key) = redefinesIn cells (op :: rest) := by
        funext address key
        simp only [redefinesIn, List.mem_cons, or_and_right, exists_or, exists_eq_left]
      rw [← same]
      exact whole

theorem runProperties_append (before after : List PropertyOp) (heap : PropertyHeap) :
    runProperties cells (before ++ after) heap =
      (runProperties cells before heap).bind (runProperties cells after) := by
  induction before generalizing heap with
  | nil => rfl
  | cons op rest ih =>
      simp only [List.cons_append, runProperties, Option.bind_eq_bind, Option.bind_assoc, ih]

theorem guardedRun_append (before after : List PropertyOp) (heap : PropertyHeap) :
    guardedRun cells (before ++ after) heap =
      (guardedRun cells before heap &&
        (runProperties cells before heap).all (guardedRun cells after)) := by
  induction before generalizing heap with
  | nil => rfl
  | cons op rest ih =>
      simp only [List.cons_append, guardedRun, runProperties, ih]
      cases stepProperty cells heap op with
      | none => simp
      | some answered => simp [Bool.and_assoc]

/-- In every run whose steps are guarded, every heap keeps what each heap
before it promised. -/
theorem runProperties_integrity (before after : List PropertyOp) {heap later : PropertyHeap}
    (guard : guardedRun cells (before ++ after) PropertyHeap.initial = true)
    (begun : runProperties cells before PropertyHeap.initial = some heap)
    (ended : runProperties cells after heap = some later) :
    Integrity (redefinesIn cells after) heap later := by
  rw [guardedRun_append, begun, Option.all_some, Bool.and_eq_true] at guard
  have reached := runProperties_kept cells before initial_sound guard.1 begun
  exact (runProperties_kept cells after reached.sound guard.2 ended).keeps

end

/-! ### Where the checks are missing -/

def valueAt (heap : PropertyHeap) (address : Nat) (key : ObjString) : Option Value :=
  (heap.objects[address]?).bind (fun object => ownOf heap.shapes object key)

theorem Integrity.valueAt_eq {redefined : Nat → ObjString → Prop} {heap later : PropertyHeap}
    (keeps : Integrity redefined heap later) {address : Nat}
    (frozen : heap.isFrozen address = true) (key : ObjString) :
    valueAt later address key = valueAt heap address key := by
  cases here : heap.objects[address]? with
  | none =>
      rw [PropertyHeap.isFrozen, here] at frozen
      cases frozen
  | some object =>
      rw [isFrozen_eq here] at frozen
      obtain ⟨now, nowHere, kept⟩ := keeps address object here
      unfold valueAt
      rw [here, nowHere]
      exact (kept.frozen frozen).2.1 key

private theorem reached_of_any (reached : Option PropertyHeap) (test : PropertyHeap → Bool)
    (passes : reached.any test = true) : ∃ heap, reached = some heap ∧ test heap = true := by
  cases reached with
  | none => cases passes
  | some heap => exact ⟨heap, rfl, passes⟩

private def plainCells : Cells :=
  { bigints := fun _ => { negative := false, limbs := [] }
    symbolKey := fun _ => { chars := ascii "symbol" }
    keyText := fun _ => { chars := [] } }

private def keyX : ObjString := { chars := ascii "x" }

private def describeX : List PropertyOp :=
  [.newObject { chars := ascii "point" } none, .newObject { chars := ascii "descriptor" } none,
    .newSite { chars := ascii "value" }, .setProperty 0 2 (.bool true),
    .defineProperty 1 keyX (objectValue 2)]

/-- A store and a delete that are refused, a freeze, and a refused store. -/
private def tryX : List PropertyOp :=
  [.newSite keyX, .setProperty 1 1 (.bool false), .deleteProperty 1 keyX, .freeze 1,
    .setIndex 1 (.obj (.string keyX)) .null]

theorem runProperties_integrity_refused :
    ∃ heap later, runProperties plainCells describeX PropertyHeap.initial = some heap ∧
      runProperties plainCells tryX heap = some later ∧
      Integrity (redefinesIn plainCells tryX) heap later ∧
      valueAt later 1 keyX = some (.bool true) := by
  obtain ⟨heap, begun, _⟩ := reached_of_any
    (runProperties plainCells describeX PropertyHeap.initial)
    (fun _ => true) (by decide)
  obtain ⟨later, both, value⟩ := reached_of_any
    (runProperties plainCells (describeX ++ tryX) PropertyHeap.initial)
    (fun later => decide (valueAt later 1 keyX = some (.bool true))) (by decide)
  rw [runProperties_append, begun] at both
  exact ⟨heap, later, begun, both,
    runProperties_integrity plainCells describeX tryX (by decide) begun both,
    of_decide_eq_true value⟩

/-- Two sites learn from one object, the second that the store overwrites; then
another object takes the same shape and is frozen. -/
private def fillCaches : List PropertyOp :=
  [.newObject { chars := ascii "point" } none, .newSite keyX, .newSite keyX,
    .setProperty 0 1 (.bool true), .setProperty 1 1 (.bool true),
    .newObject { chars := ascii "point" } none, .setProperty 0 2 (.bool true), .freeze 2]

/-- The inline cache is asked before the frozen flag, so not every run keeps
the promise. -/
theorem cachedStore_breaks_integrity :
    ¬∀ (cells : Cells) (before after : List PropertyOp) (heap later : PropertyHeap),
      runProperties cells before PropertyHeap.initial = some heap →
      runProperties cells after heap = some later →
      Integrity (redefinesIn cells after) heap later := by
  intro claim
  obtain ⟨heap, begun, was⟩ := reached_of_any
    (runProperties plainCells fillCaches PropertyHeap.initial)
    (fun heap => heap.isFrozen 2 && decide (valueAt heap 2 keyX = some (.bool true)))
    (by decide)
  obtain ⟨later, both, now⟩ := reached_of_any
    (runProperties plainCells (fillCaches ++ [.setProperty 1 2 (.bool false)])
      PropertyHeap.initial)
    (fun later => decide (valueAt later 2 keyX = some (.bool false))) (by decide)
  rw [runProperties_append, begun] at both
  rw [Bool.and_eq_true] at was
  have same := (claim plainCells fillCaches _ heap later begun both).valueAt_eq was.1 keyX
  rw [of_decide_eq_true was.2, of_decide_eq_true now] at same
  cases same

-- The other three ways past a check, on a read-only property that is not
-- configurable: an indexed store, an indexed delete and `Object.assign`.
example :
    (runProperties plainCells (describeX ++ [.setIndex 1 (.obj (.string keyX)) .null])
      PropertyHeap.initial).map (fun heap => valueAt heap 1 keyX) = some (some .null) := by
  decide

example :
    (runProperties plainCells (describeX ++ [.deleteIndex 1 (.obj (.string keyX))])
      PropertyHeap.initial).map (fun heap => valueAt heap 1 keyX) = some none := by
  decide

example :
    (runProperties plainCells
      (describeX ++ [.newObject { chars := ascii "source" } none, .newSite keyX,
        .setProperty 1 3 .null, .freeze 1, .assign [objectValue 1, objectValue 3], .assignStep])
      PropertyHeap.initial).map (fun heap => valueAt heap 1 keyX) = some (some .null) := by
  decide

end CScript
