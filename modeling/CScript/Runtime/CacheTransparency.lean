/-
When an inline cache is transparent.

A cache that is filled expects a shape that has the name, or a transition that
adds it, so a hit reads and writes the slot the slow path would.  What the slow
path asks besides, the fast path does not: whether the object is frozen, and
whether a class on its chain has an accessor for the name.
-/

import CScript.Runtime.InlineCache
import CScript.Runtime.Integrity

namespace CScript

/-! ### Shapes only grow -/

def ShapesGrow (old new : List Shape) : Prop :=
  ∀ (index : Nat) (shape : Shape), old[index]? = some shape →
    ∃ after : Shape, new[index]? = some after ∧ after.keys = shape.keys ∧
      ∀ (key : ObjString) (value : Value), shape.transitions.lookup key = some value →
        after.transitions.lookup key = some value

theorem ShapesGrow.refl (shapes : List Shape) : ShapesGrow shapes shapes :=
  fun _ shape here => ⟨shape, here, rfl, fun _ _ found => found⟩

theorem ShapesGrow.trans {first second third : List Shape} (begun : ShapesGrow first second)
    (ended : ShapesGrow second third) : ShapesGrow first third := by
  intro index shape here
  obtain ⟨middle, middleHere, keys, edges⟩ := begun index shape here
  obtain ⟨after, afterHere, keysAfter, edgesAfter⟩ := ended index middle middleHere
  exact ⟨after, afterHere, keysAfter.trans keys,
    fun key value found => edgesAfter key value (edges key value found)⟩

theorem csShapeTransition_grow {shapes after : List Shape} (tree : ShapeTree shapes)
    {parent : Nat} {parentShape : Shape} (here : shapes[parent]? = some parentShape)
    {key : ObjString} {answer : Option Nat}
    (ran : csShapeTransition shapes parent key = some (after, answer)) :
    ShapesGrow shapes after ∧ ∀ child, answer = some child →
      ∃ grown : Shape, after[parent]? = some grown ∧
        grown.transitions.lookup key = some (.obj (.cell .shape child)) := by
  have wf := tree.each parent parentShape here
  have bound := (List.getElem?_eq_some_iff.mp here).1
  unfold csShapeTransition at ran
  simp only [here, Option.bind_eq_bind, Option.bind_some, csTableGet_eq wf.transitionsWf] at ran
  cases known : parentShape.transitions.lookup key with
  | some existing =>
      simp only [known] at ran
      obtain ⟨child, childRead, finished⟩ := Option.bind_eq_some_iff.mp ran
      cases finished
      refine ⟨ShapesGrow.refl shapes, fun other same => ?_⟩
      cases same
      have existingEq : existing = .obj (.cell .shape child) := by
        unfold Value.asShape at childRead
        split at childRead
        · cases childRead
          rfl
        · cases childRead
      exact ⟨parentShape, here, by rw [known, existingEq]⟩
  | none =>
      simp only [known] at ran
      by_cases full : parentShape.slotCount ≥ CS_SHAPE_MAX_SLOTS
      · rw [if_pos full] at ran
        cases ran
        exact ⟨ShapesGrow.refl shapes, fun child same => by cases same⟩
      · rw [if_neg full] at ran
        obtain ⟨copied, copiedRan, ran⟩ := Option.bind_eq_some_iff.mp ran
        obtain ⟨⟨indices, isNew⟩, indicesRan, ran⟩ := Option.bind_eq_some_iff.mp ran
        obtain ⟨transitions, edgeRan, edgeWf, edgeMap⟩ := csTableSet_spec wf.transitionsWf key
          (.obj (.cell .shape shapes.length))
        simp only [edgeRan, Option.bind_some] at ran
        cases ran
        have atParent : (shapes.set parent { parentShape with transitions := transitions } ++
            [childShape parent parentShape key indices])[parent]? =
              some { parentShape with transitions := transitions } := by
          rw [List.getElem?_append_left (by rwa [List.length_set]), List.getElem?_set_self bound]
        constructor
        · intro index shape found
          have inside := (List.getElem?_eq_some_iff.mp found).1
          by_cases same : parent = index
          · subst same
            rw [here] at found
            cases found
            refine ⟨_, atParent, rfl, fun other value edge => ?_⟩
            have different : other ≠ key := by
              rintro rfl
              rw [known] at edge
              cases edge
            change transitions.lookup other = some value
            rw [edgeMap, Function.update_of_ne different]
            exact edge
          · refine ⟨shape, ?_, rfl, fun _ _ edge => edge⟩
            rw [List.getElem?_append_left (by rwa [List.length_set]), List.getElem?_set_ne same]
            exact found
        · intro child same
          cases same
          refine ⟨_, atParent, ?_⟩
          change transitions.lookup key = _
          rw [edgeMap, Function.update_self]

theorem csObjectPut_grow {shapes after : List Shape} (tree : ShapeTree shapes)
    {object put : ObjObject} {key : ObjString} {value : Value}
    (ran : csObjectPut shapes object key value = some (after, put)) :
    ShapesGrow shapes after ∧ ∀ old new, object.shape = some old → put.shape = some new →
      old ≠ new → ∃ grown : Shape, after[old]? = some grown ∧
        grown.transitions.lookup key = some (.obj (.cell .shape new)) := by
  unfold csObjectPut at ran
  cases mode : object.layout with
  | dictionary table keys =>
      rw [mode] at ran
      obtain ⟨layout, layoutRan, equal⟩ := Option.bind_eq_some_iff.mp ran
      cases equal
      refine ⟨ShapesGrow.refl shapes, fun old new before _ => ?_⟩
      unfold ObjObject.shape at before
      rw [mode] at before
      cases before
  | slots start values =>
      rw [mode] at ran
      obtain ⟨shape, here, ran⟩ := Option.bind_eq_some_iff.mp ran
      obtain ⟨found, _, ran⟩ := Option.bind_eq_some_iff.mp ran
      have starts : object.shape = some start := by
        unfold ObjObject.shape
        rw [mode]
      cases found with
      | some slot =>
          cases ran
          refine ⟨ShapesGrow.refl shapes, fun old new before now different => ?_⟩
          rw [starts] at before
          cases before
          exact absurd (Option.some.inj now) different
      | none =>
          obtain ⟨⟨grown, answer⟩, moved, ran⟩ := Option.bind_eq_some_iff.mp ran
          obtain ⟨grow, edges⟩ := csShapeTransition_grow tree here moved
          cases answer with
          | none =>
              obtain ⟨converted, _, ran⟩ := Option.bind_eq_some_iff.mp ran
              cases convertedMode : converted.layout with
              | slots one other =>
                  rw [convertedMode] at ran
                  cases ran
              | dictionary table keys =>
                  rw [convertedMode] at ran
                  obtain ⟨layout, layoutRan, equal⟩ := Option.bind_eq_some_iff.mp ran
                  cases equal
                  refine ⟨grow, fun old new before now _ => ?_⟩
                  obtain ⟨⟨table', isNew⟩, _, finished⟩ := Option.bind_eq_some_iff.mp layoutRan
                  cases isNew <;> cases finished <;> cases now
          | some next =>
              obtain ⟨nextShape, nextHere, finished⟩ := Option.bind_eq_some_iff.mp ran
              cases finished
              refine ⟨grow, fun old new before now _ => ?_⟩
              rw [starts] at before
              cases before
              cases now
              exact edges next rfl

/-! ### Every heap a run reaches is sound -/

structure Grows (heap after : PropertyHeap) : Prop where
  shapes : ShapesGrow heap.shapes after.shapes
  sites : after.sites = heap.sites

theorem Grows.refl (heap : PropertyHeap) : Grows heap heap :=
  ⟨ShapesGrow.refl heap.shapes, rfl⟩

structure Onward (heap after : PropertyHeap) : Prop where
  sound : after.Sound
  grows : Grows heap after

section

variable {heap after : PropertyHeap} {address : Nat} {object : ObjObject}
  {outcome : PropertyAnswer}

theorem Onward.refl (sound : heap.Sound) : Onward heap heap :=
  ⟨sound, Grows.refl heap⟩

theorem Onward.setObject (sound : heap.Sound) {now : ObjObject}
    (fine : ObjectSound heap.shapes now) : Onward heap (setObject heap address now) :=
  ⟨sound.write sound.tree (ShapesExtend.refl heap.shapes) address fine heap.classes heap.assigns,
    ShapesGrow.refl heap.shapes, rfl⟩

theorem Onward.setAssigns (sound : heap.Sound) (assigns : List AssignFrame) :
    Onward heap { heap with assigns := assigns } :=
  ⟨{ tree := sound.tree, absent := sound.absent, objects := sound.objects
     sites := sound.sites }, ShapesGrow.refl heap.shapes, rfl⟩

theorem putProperty_onward (sound : heap.Sound) (here : heap.objects[address]? = some object)
    {key : ObjString} {value : Value}
    (ran : putProperty heap address object key value = some after) : Onward heap after := by
  obtain ⟨shapes, layout, put, tree, extend, fine, _⟩ :=
    csObjectPut_sound sound.tree sound.absent (sound.objects address object here) key value
  unfold putProperty at ran
  simp only [put, Option.bind_eq_bind, Option.bind_some] at ran
  cases ran
  exact ⟨sound.write tree extend address fine heap.classes heap.assigns,
    (csObjectPut_grow sound.tree put).1, rfl⟩

theorem deleteProperty_onward (sound : heap.Sound)
    (here : heap.objects[address]? = some object) {key : ObjString}
    (ran : deleteProperty heap address object key = some after) : Onward heap after := by
  obtain ⟨layout, flag, deleted, fine, _⟩ :=
    csObjectDelete_sound sound.tree (sound.objects address object here) key
  unfold deleteProperty at ran
  simp only [deleted, Option.bind_eq_bind, Option.bind_some] at ran
  cases ran
  exact Onward.setObject sound fine

theorem relink_onward (sound : heap.Sound) (here : heap.objects[address]? = some object)
    {prototype answer : Value}
    (ran : relink heap address object prototype answer = some (after, outcome)) :
    Onward heap after := by
  have before := sound.objects address object here
  have linked : ∀ link : Option Nat,
      Onward heap (setObject heap address { object with prototype := link }) :=
    fun link => Onward.setObject sound
      { bag := before.bag, living := before.living, attributes := before.attributes
        privates := before.privates, writable := before.writable }
  unfold relink at ran
  split at ran
  · cases ran
    exact linked none
  · cases ran
    exact linked none
  · obtain ⟨answered, linkRan, rest⟩ := Option.bind_eq_some_iff.mp ran
    unfold csObjectSetPrototype at linkRan
    obtain ⟨meets, _, decided⟩ := Option.bind_eq_some_iff.mp linkRan
    cases meets with
    | true =>
        cases decided
        cases rest
        exact Onward.refl sound
    | false =>
        cases decided
        cases rest
        exact linked _
  · cases ran
    exact Onward.refl sound

variable (cells : Cells)

theorem opSetIndex_onward (sound : heap.Sound) {index value : Value}
    (ran : opSetIndex cells heap address index value = some (after, outcome)) :
    Onward heap after := by
  unfold opSetIndex at ran
  obtain ⟨object, here, ran⟩ := Option.bind_eq_some_iff.mp ran
  split at ran
  · obtain ⟨now, stored, finished⟩ := Option.bind_eq_some_iff.mp ran
    cases finished
    obtain ⟨privates, rfl, fine⟩ :=
      csObjectPutPrivate_sound (sound.objects address object here) stored
    exact Onward.setObject sound fine
  · split at ran
    · cases ran
      exact Onward.refl sound
    · obtain ⟨put, stored, finished⟩ := Option.bind_eq_some_iff.mp ran
      cases finished
      exact putProperty_onward sound here stored

theorem opDeleteIndex_onward (sound : heap.Sound) {index : Value}
    (ran : opDeleteIndex cells heap address index = some (after, outcome)) :
    Onward heap after := by
  unfold opDeleteIndex at ran
  obtain ⟨object, here, ran⟩ := Option.bind_eq_some_iff.mp ran
  split at ran
  · cases ran
    exact Onward.refl sound
  · split at ran
    · obtain ⟨now, deleted, finished⟩ := Option.bind_eq_some_iff.mp ran
      cases finished
      obtain ⟨privates, rfl, fine⟩ :=
        csObjectDeletePrivate_sound (sound.objects address object here) deleted
      exact Onward.setObject sound fine
    · obtain ⟨gone, deleted, finished⟩ := Option.bind_eq_some_iff.mp ran
      cases finished
      exact deleteProperty_onward sound here deleted

theorem opDeleteProperty_onward (sound : heap.Sound) {name : ObjString}
    (ran : opDeleteProperty heap address name = some (after, outcome)) : Onward heap after := by
  unfold opDeleteProperty at ran
  obtain ⟨object, here, ran⟩ := Option.bind_eq_some_iff.mp ran
  split at ran
  · cases ran
    exact Onward.refl sound
  · obtain ⟨attributes, _, ran⟩ := Option.bind_eq_some_iff.mp ran
    split at ran
    · cases ran
      exact Onward.refl sound
    · obtain ⟨gone, deleted, finished⟩ := Option.bind_eq_some_iff.mp ran
      cases finished
      exact deleteProperty_onward sound here deleted

private theorem assignPut_onward (sound : heap.Sound) {frame : AssignFrame}
    {rest : List AssignFrame} {key : ObjString} {value : Value}
    (ran : assignPut heap frame rest key value = some (after, outcome)) : Onward heap after := by
  unfold assignPut at ran
  obtain ⟨target, here, ran⟩ := Option.bind_eq_some_iff.mp ran
  obtain ⟨put, stored, finished⟩ := Option.bind_eq_some_iff.mp ran
  cases finished
  have begun := Onward.setAssigns sound (frame.next :: rest)
  have put := putProperty_onward begun.sound here stored
  exact ⟨put.sound, put.grows.shapes, put.grows.sites⟩

theorem assignStep_onward (sound : heap.Sound) (ran : assignStep heap = some (after, outcome)) :
    Onward heap after := by
  unfold assignStep at ran
  cases frames : heap.assigns with
  | nil => rw [frames] at ran; cases ran
  | cons frame rest =>
      rw [frames] at ran
      cases waiting : frame.waiting with
      | some key => simp only [waiting] at ran; cases ran
      | none =>
          simp only [waiting] at ran
          obtain ⟨turn, turned, ran⟩ := Option.bind_eq_some_iff.mp ran
          cases turn with
          | finished =>
              cases ran
              exact Onward.setAssigns sound rest
          | advance next =>
              cases ran
              exact Onward.setAssigns sound (next :: rest)
          | put key value => exact assignPut_onward sound ran
          | call getter source key =>
              cases ran
              exact Onward.setAssigns sound ({ frame with waiting := some key } :: rest)

theorem assignResume_onward (sound : heap.Sound) {value : Value}
    (ran : assignResume heap value = some (after, outcome)) : Onward heap after := by
  unfold assignResume at ran
  cases frames : heap.assigns with
  | nil => rw [frames] at ran; cases ran
  | cons frame rest =>
      rw [frames] at ran
      cases waiting : frame.waiting with
      | none => simp only [waiting] at ran; cases ran
      | some key =>
          simp only [waiting] at ran
          exact assignPut_onward sound ran

private theorem defineAccessor_grows (sound : heap.Sound) {key : ObjString} {present : Bool}
    {described : Descriptor}
    (ran : defineAccessor heap address object key present described = some after) :
    Grows heap after := by
  unfold defineAccessor at ran
  obtain ⟨emptied, _, ran⟩ := Option.bind_eq_some_iff.mp ran
  obtain ⟨holder, _, ran⟩ := Option.bind_eq_some_iff.mp ran
  obtain ⟨getters, _, ran⟩ := Option.bind_eq_some_iff.mp ran
  obtain ⟨setters, _, ran⟩ := Option.bind_eq_some_iff.mp ran
  obtain ⟨left, _, ran⟩ := Option.bind_eq_some_iff.mp ran
  obtain ⟨⟨shapes, marked⟩, put, ran⟩ := Option.bind_eq_some_iff.mp ran
  obtain ⟨last, _, finished⟩ := Option.bind_eq_some_iff.mp ran
  cases finished
  exact ⟨(csObjectPut_grow sound.tree put).1, rfl⟩

private theorem defineData_grows (sound : heap.Sound) {key : ObjString}
    {existing : Option Value} {described : Descriptor}
    (ran : defineData heap address object key existing described = some after) :
    Grows heap after := by
  unfold defineData at ran
  obtain ⟨left, _, ran⟩ := Option.bind_eq_some_iff.mp ran
  obtain ⟨⟨shapes, stored⟩, put, ran⟩ := Option.bind_eq_some_iff.mp ran
  obtain ⟨last, _, finished⟩ := Option.bind_eq_some_iff.mp ran
  cases finished
  exact ⟨(csObjectPut_grow sound.tree put).1, rfl⟩

private theorem defineAllowed_grows (sound : heap.Sound) {descriptor : ObjObject}
    {key : ObjString} {existing : Option Value}
    (ran : defineAllowed cells heap address object descriptor key existing =
      some (after, outcome)) : Grows heap after := by
  unfold defineAllowed at ran
  obtain ⟨described, _, ran⟩ := Option.bind_eq_some_iff.mp ran
  dsimp only at ran
  split at ran
  · cases ran
    exact Grows.refl heap
  · split at ran
    · split at ran
      · cases ran
        exact Grows.refl heap
      · obtain ⟨defined, definedRan, finished⟩ := Option.bind_eq_some_iff.mp ran
        cases finished
        exact defineAccessor_grows sound definedRan
    · obtain ⟨defined, definedRan, finished⟩ := Option.bind_eq_some_iff.mp ran
      cases finished
      exact defineData_grows sound definedRan

theorem objectDefineProperty_grows (sound : heap.Sound) {key : ObjString} {describedBy : Value}
    (ran : objectDefineProperty cells heap address key describedBy = some (after, outcome)) :
    Grows heap after := by
  unfold objectDefineProperty at ran
  obtain ⟨object, here, ran⟩ := Option.bind_eq_some_iff.mp ran
  split at ran
  · obtain ⟨descriptor, _, ran⟩ := Option.bind_eq_some_iff.mp ran
    split at ran
    · cases ran
      exact Grows.refl heap
    · obtain ⟨existing, _, ran⟩ := Option.bind_eq_some_iff.mp ran
      obtain ⟨attributes, _, ran⟩ := Option.bind_eq_some_iff.mp ran
      split at ran
      · cases ran
        exact Grows.refl heap
      · exact defineAllowed_grows cells sound ran
  · cases ran
    exact Grows.refl heap

theorem objectDefineProperty_onward (sound : heap.Sound) {key : ObjString}
    {describedBy : Value}
    (ran : objectDefineProperty cells heap address key describedBy = some (after, outcome)) :
    Onward heap after := by
  have kept : Kept (fun _ _ => True) heap after :=
    objectDefineProperty_kept cells sound trivial ran
  exact ⟨kept.sound, objectDefineProperty_grows cells sound ran⟩

end

/-! ### What the sites have cached -/

/-- A filled cache of a site that writes is not for `__proto__`, and the shape
it adopts is the transition of the one it expects. -/
def CacheLinked (shapes : List Shape) (site : Site) : Prop :=
  site.cache.shape = absentShape ∨
    (isProtoKey site.name = false ∧ ∀ added, site.cache.added = some added →
      ∃ shape : Shape, shapes[site.cache.shape]? = some shape ∧
        shape.transitions.lookup site.name = some (.obj (.cell .shape added)))

theorem CacheLinked.grow {old new : List Shape} {site : Site} (linked : CacheLinked old site)
    (grow : ShapesGrow old new) : CacheLinked new site := by
  rcases linked with empty | ⟨plain, edges⟩
  · exact Or.inl empty
  · refine Or.inr ⟨plain, fun added same => ?_⟩
    obtain ⟨shape, here, edge⟩ := edges added same
    obtain ⟨after, afterHere, _, kept⟩ := grow _ shape here
    exact ⟨after, afterHere, kept _ _ edge⟩

def ReaderSound (shapes : List Shape) (site : Site) : Prop :=
  site.cache.shape = absentShape ∨ ∃ shape : Shape, shapes[site.cache.shape]? = some shape ∧
    shape.keys[site.cache.slot]? = some site.name

theorem ReaderSound.grow {old new : List Shape} {site : Site} (sound : ReaderSound old site)
    (grow : ShapesGrow old new) : ReaderSound new site := by
  rcases sound with empty | ⟨shape, here, key⟩
  · exact Or.inl empty
  · obtain ⟨after, afterHere, keys, _⟩ := grow _ shape here
    exact Or.inr ⟨after, afterHere, by rw [keys, key]⟩

theorem learn_linked {shapes after : List Shape} (tree : ShapeTree shapes)
    {object put : ObjObject} {site : Site} {value : Value}
    (ran : csObjectPut shapes object site.name value = some (after, put))
    (linked : CacheLinked shapes site) (plain : isProtoKey site.name = false)
    {cache : PropertyCache} (learned : learn after site object.shape put = some cache) :
    CacheLinked after { site with cache := cache } := by
  obtain ⟨grow, edges⟩ := csObjectPut_grow tree ran
  unfold learn at learned
  cases mode : put.layout with
  | dictionary table keys =>
      rw [mode] at learned
      cases learned
      exact linked.grow grow
  | slots address values =>
      rw [mode] at learned
      obtain ⟨layout, _, learned⟩ := Option.bind_eq_some_iff.mp learned
      obtain ⟨found, _, learned⟩ := Option.bind_eq_some_iff.mp learned
      cases found with
      | none =>
          cases learned
          exact linked.grow grow
      | some slot =>
          by_cases same : object.shape = some address
          · simp only [if_pos same] at learned
            cases learned
            exact Or.inr ⟨plain, fun added wrong => by cases wrong⟩
          · simp only [if_neg same] at learned
            obtain ⟨before, beforeEq, finished⟩ := Option.bind_eq_some_iff.mp learned
            cases finished
            refine Or.inr ⟨plain, fun added equal => ?_⟩
            cases equal
            have now : put.shape = some address := by
              unfold ObjObject.shape
              rw [mode]
            exact edges before address beforeEq now
              (fun equal => same (by rw [beforeEq, equal]))

structure PropertyHeap.Linked (heap : PropertyHeap) : Prop where
  sound : heap.Sound
  sites : ∀ (index : Nat) (site : Site), heap.sites[index]? = some site →
    CacheLinked heap.shapes site

section

variable {heap after : PropertyHeap} {address : Nat} {outcome : PropertyAnswer}

theorem PropertyHeap.Linked.onward (linked : heap.Linked) (onward : Onward heap after) :
    after.Linked ∧ ShapesGrow heap.shapes after.shapes := by
  refine ⟨⟨onward.sound, fun index site here => ?_⟩, onward.grows.shapes⟩
  rw [onward.grows.sites] at here
  exact (linked.sites index site here).grow onward.grows.shapes

private theorem storeSlow_linked (linked : heap.Linked) {index : Nat} {site : Site}
    (siteHere : heap.sites[index]? = some site) {object : ObjObject}
    (plain : isProtoKey site.name = false) (fine : after.Sound) {value : Value}
    (ran : storeSlow heap index site address object value = some (after, outcome)) :
    after.Linked ∧ ShapesGrow heap.shapes after.shapes := by
  have tree := linked.sound.tree
  unfold storeSlow at ran
  obtain ⟨attributes, _, ran⟩ := Option.bind_eq_some_iff.mp ran
  split at ran
  · cases ran
    exact ⟨linked, ShapesGrow.refl _⟩
  · obtain ⟨⟨shapes, target⟩, put, ran⟩ := Option.bind_eq_some_iff.mp ran
    obtain ⟨cache, learned, finished⟩ := Option.bind_eq_some_iff.mp ran
    cases finished
    have grow := (csObjectPut_grow tree put).1
    refine ⟨⟨fine, fun other one here => ?_⟩, grow⟩
    have old := linked.sites index site siteHere
    rw [List.getElem?_set] at here
    split at here
    · split at here
      · cases here
        exact learn_linked tree put old plain learned
      · cases here
    · exact (linked.sites other one here).grow grow

theorem opSetProperty_linked (linked : heap.Linked) {index : Nat} {value : Value}
    (ran : opSetProperty heap index address value = some (after, outcome)) :
    after.Linked ∧ ShapesGrow heap.shapes after.shapes := by
  have sound := linked.sound
  unfold opSetProperty at ran
  obtain ⟨site, siteHere, ran⟩ := Option.bind_eq_some_iff.mp ran
  obtain ⟨object, here, ran⟩ := Option.bind_eq_some_iff.mp ran
  cases fast : storeFast object site.cache value with
  | some stored =>
      rw [fast] at ran
      cases ran
      obtain ⟨layout, rfl, fine, _, _⟩ := storeFast_sound sound.tree sound.absent
        (sound.objects address object here) (sound.sites index site siteHere) fast
      exact linked.onward (Onward.setObject sound fine)
  | none =>
      rw [fast] at ran
      have kept : Kept (fun _ _ => True) heap after := propertyWriteSlow_kept sound siteHere here ran
      simp only [propertyWriteSlow] at ran
      split at ran
      · cases ran
        exact ⟨linked, ShapesGrow.refl _⟩
      · split at ran
        · exact linked.onward (relink_onward sound here ran)
        · rename_i plain
          obtain ⟨found, _, ran⟩ := Option.bind_eq_some_iff.mp ran
          cases found with
          | setter closure =>
              cases ran
              exact ⟨linked, ShapesGrow.refl _⟩
          | getterOnly =>
              cases ran
              exact ⟨linked, ShapesGrow.refl _⟩
          | none =>
              exact storeSlow_linked linked siteHere (Bool.eq_false_iff.mpr plain) kept.sound ran

theorem stepProperty_linked (cells : Cells) {op : PropertyOp} (linked : heap.Linked)
    (ran : stepProperty cells heap op = some (after, outcome)) :
    after.Linked ∧ ShapesGrow heap.shapes after.shapes := by
  have sound := linked.sound
  have fine (guard : guarded cells heap op = true) : after.Sound :=
    (stepProperty_kept cells sound guard ran).sound
  cases op with
  | newObject name prototype =>
      have kept := fine rfl
      cases ran
      exact linked.onward ⟨kept, ShapesGrow.refl _, rfl⟩
  | newClass name superclass =>
      have kept := fine rfl
      cases ran
      exact linked.onward ⟨kept, ShapesGrow.refl _, rfl⟩
  | newAccessor klass isGetter name closure =>
      have kept := fine rfl
      obtain ⟨done, doneRan, finished⟩ := Option.map_eq_some_iff.mp ran
      cases finished
      refine linked.onward ⟨kept, ?_⟩
      unfold opAccessor at doneRan
      obtain ⟨holder, _, doneRan⟩ := Option.bind_eq_some_iff.mp doneRan
      cases isGetter with
      | true =>
          obtain ⟨set, _, doneRan⟩ := Option.bind_eq_some_iff.mp doneRan
          cases doneRan
          exact ⟨ShapesGrow.refl _, rfl⟩
      | false =>
          obtain ⟨set, _, doneRan⟩ := Option.bind_eq_some_iff.mp doneRan
          cases doneRan
          exact ⟨ShapesGrow.refl _, rfl⟩
  | newInstance klass =>
      have kept := fine rfl
      obtain ⟨done, doneRan, finished⟩ := Option.map_eq_some_iff.mp ran
      cases finished
      obtain ⟨holder, _, doneRan⟩ := Option.bind_eq_some_iff.mp doneRan
      cases doneRan
      exact linked.onward ⟨kept, ShapesGrow.refl _, rfl⟩
  | newSite name =>
      have kept := fine rfl
      cases ran
      refine ⟨⟨kept, fun index site here => ?_⟩, ShapesGrow.refl _⟩
      rcases List.mem_append.mp (List.mem_of_getElem? here) with old | new
      · obtain ⟨before, oldHere⟩ := List.mem_iff_getElem?.mp old
        exact linked.sites before site oldHere
      · rw [List.mem_singleton.mp new]
        exact Or.inl rfl
  | setProperty site receiver value => exact opSetProperty_linked linked ran
  | setIndex target index value => exact linked.onward (opSetIndex_onward cells sound ran)
  | deleteProperty target name => exact linked.onward (opDeleteProperty_onward sound ran)
  | deleteIndex target index => exact linked.onward (opDeleteIndex_onward cells sound ran)
  | assign arguments =>
      have kept := fine rfl
      have answered : objectAssign heap arguments = (after, outcome) := Option.some.inj ran
      refine linked.onward ⟨kept, ?_⟩
      unfold objectAssign at answered
      split at answered
      · cases answered
        exact ⟨ShapesGrow.refl _, rfl⟩
      · cases answered
        exact Grows.refl heap
  | assignStep => exact linked.onward (assignStep_onward sound ran)
  | assignResume value => exact linked.onward (assignResume_onward sound ran)
  | assignAbandon =>
      have kept := fine rfl
      refine linked.onward ⟨kept, ?_⟩
      unfold stepProperty assignAbandon at ran
      cases frames : heap.assigns with
      | nil => rw [frames] at ran; cases ran
      | cons frame rest =>
          rw [frames] at ran
          cases ran
          exact ⟨ShapesGrow.refl _, rfl⟩
  | defineProperty target key describedBy =>
      exact linked.onward (objectDefineProperty_onward cells sound ran)
  | setPrototypeOf target prototype =>
      obtain ⟨object, here, ran⟩ := Option.bind_eq_some_iff.mp ran
      exact linked.onward (relink_onward sound here ran)
  | freeze target =>
      have kept := fine rfl
      obtain ⟨object, here, ran⟩ := Option.bind_eq_some_iff.mp ran
      cases ran
      exact linked.onward ⟨kept, ShapesGrow.refl _, rfl⟩

end

/-! ### Runs -/

structure CachedHeap.Fine (state : CachedHeap) : Prop where
  heap : state.heap.Linked
  readers : ∀ (index : Nat) (site : Site), state.readers[index]? = some site →
    ReaderSound state.heap.shapes site

theorem initial_fine : CachedHeap.initial.Fine where
  heap := ⟨initial_sound, fun index site here => by cases here⟩
  readers index site here := by cases here

section

variable {facts : ReadFacts} {cells : Cells} {state after : CachedHeap}

theorem propertyReadSlow_sound {heap : PropertyHeap} (tree : ShapeTree heap.shapes)
    {site : Site} {address : Nat} {object : ObjObject} {cache : PropertyCache}
    {answer : ReadAnswer} (sound : ReaderSound heap.shapes site)
    (ran : propertyReadSlow facts heap site address object = some (cache, answer)) :
    ReaderSound heap.shapes { site with cache := cache } := by
  have around : ∀ found : Option ReadAnswer,
      found.map (fun answer => (site.cache, answer)) = some (cache, answer) →
      ReaderSound heap.shapes { site with cache := cache } := by
    intro found ran
    obtain ⟨other, _, finished⟩ := Option.map_eq_some_iff.mp ran
    cases finished
    exact sound
  unfold propertyReadSlow at ran
  split at ran
  · exact around _ ran
  · rename_i shape values mode
    obtain ⟨layout, here, ran⟩ := Option.bind_eq_some_iff.mp ran
    obtain ⟨found, looked, ran⟩ := Option.bind_eq_some_iff.mp ran
    cases found with
    | none => exact around _ ran
    | some slot =>
        obtain ⟨written, _, ran⟩ := Option.bind_eq_some_iff.mp ran
        obtain ⟨value, _, ran⟩ := Option.bind_eq_some_iff.mp ran
        cases ran
        refine Or.inr ⟨layout, here, ?_⟩
        have wf := tree.each shape layout here
        by_cases present : site.name ∈ layout.keys
        · obtain ⟨place, placeHere⟩ := List.mem_iff_getElem?.mp present
          rw [csShapeLookup_present wf placeHere] at looked
          cases looked
          exact placeHere
        · rw [csShapeLookup_absent wf present] at looked
          cases looked

theorem opGetProperty_fine (fine : state.Fine) {index address : Nat} {answer : ReadAnswer}
    (ran : opGetProperty facts state index address = some (after, answer)) : after.Fine := by
  unfold opGetProperty at ran
  obtain ⟨site, siteHere, ran⟩ := Option.bind_eq_some_iff.mp ran
  obtain ⟨object, here, ran⟩ := Option.bind_eq_some_iff.mp ran
  split at ran
  · obtain ⟨value, _, ran⟩ := Option.bind_eq_some_iff.mp ran
    cases ran
    exact fine
  · obtain ⟨⟨cache, found⟩, slow, ran⟩ := Option.bind_eq_some_iff.mp ran
    cases ran
    refine ⟨fine.heap, fun other one oneHere => ?_⟩
    have taught := propertyReadSlow_sound fine.heap.sound.tree
      (fine.readers index site siteHere) slow
    unfold CachedHeap.teach at oneHere ⊢
    rw [List.getElem?_set] at oneHere
    split at oneHere
    · split at oneHere
      · cases oneHere
        exact taught
      · cases oneHere
    · exact fine.readers other one oneHere

theorem stepCached_fine (fine : state.Fine) {op : CacheOp}
    (ran : stepCached facts cells state op = some after) : after.Fine := by
  cases op with
  | write op =>
      obtain ⟨⟨heap, answer⟩, stepped, finished⟩ := Option.map_eq_some_iff.mp ran
      cases finished
      obtain ⟨linked, grow⟩ := stepProperty_linked cells fine.heap stepped
      exact ⟨linked, fun index site here => (fine.readers index site here).grow grow⟩
  | method klass name closure =>
      obtain ⟨heap, stepped, finished⟩ := Option.map_eq_some_iff.mp ran
      cases finished
      obtain ⟨holder, _, stepped⟩ := Option.bind_eq_some_iff.mp stepped
      obtain ⟨set, _, stepped⟩ := Option.bind_eq_some_iff.mp stepped
      cases stepped
      have sound := fine.heap.sound
      exact ⟨⟨{ tree := sound.tree, absent := sound.absent, objects := sound.objects
                sites := sound.sites }, fine.heap.sites⟩, fine.readers⟩
  | newReader name =>
      cases ran
      refine ⟨fine.heap, fun index site here => ?_⟩
      rcases List.mem_append.mp (List.mem_of_getElem? here) with old | new
      · obtain ⟨before, oldHere⟩ := List.mem_iff_getElem?.mp old
        exact fine.readers before site oldHere
      · rw [List.mem_singleton.mp new]
        exact Or.inl rfl
  | getProperty reader receiver =>
      obtain ⟨⟨reached, answer⟩, got, finished⟩ := Option.map_eq_some_iff.mp ran
      cases finished
      exact opGetProperty_fine fine got

theorem runCached_fine (fine : state.Fine) {ops : List CacheOp}
    (ran : runCached facts cells ops state = some after) : after.Fine := by
  induction ops generalizing state with
  | nil =>
      cases ran
      exact fine
  | cons op rest ih =>
      obtain ⟨middle, stepped, ran⟩ := Option.bind_eq_some_iff.mp ran
      exact ih (stepCached_fine fine stepped) ran

end

/-! ### A hit is what the slow path does -/

section

variable {heap : PropertyHeap} {object : ObjObject}

theorem siteHits_iff (cache : PropertyCache) (value : Value) :
    siteHits object cache = true ↔ ∃ stored, storeFast object cache value = some stored := by
  unfold siteHits storeFast csVMStoreCached ObjObject.shape
  cases mode : object.layout with
  | dictionary table keys => simp
  | slots shape values =>
      by_cases same : shape = cache.shape
      · cases added : cache.added with
        | none => simp [same]
        | some next =>
            by_cases full : values.length ≤ cache.slot
            · simp [same, full]
            · simp [same, full, Nat.not_le.mp full]
      · simp [same]

theorem storeFast_put (linked : heap.Linked) {address index : Nat} {site : Site} {value : Value}
    (here : heap.objects[address]? = some object) (siteHere : heap.sites[index]? = some site)
    {stored : ObjObject} (ran : storeFast object site.cache value = some stored) :
    csObjectPut heap.shapes object site.name value = some (heap.shapes, stored) ∧
      isProtoKey site.name = false ∧
      ∃ cache, learn heap.shapes { site with cache := emptyCache } object.shape stored =
        some cache := by
  have tree := linked.sound.tree
  have fineObject := linked.sound.objects address object here
  unfold storeFast at ran
  split at ran
  case isFalse => cases ran
  case isTrue hit =>
    unfold csVMStoreCached at ran
    cases mode : object.layout with
    | dictionary table keys =>
        unfold ObjObject.shape at hit
        rw [mode] at hit
        cases hit
    | slots start values =>
        have starts : object.shape = some start := by
          unfold ObjObject.shape
          rw [mode]
        rw [starts] at hit
        have startEq : start = site.cache.shape := Option.some.inj hit
        have living := fineObject.living start values mode
        rcases linked.sound.sites index site siteHere with empty | ⟨shape, shapeHere, filled⟩
        · exact absurd (startEq.trans empty) living
        rcases linked.sites index site siteHere with empty | ⟨plain, edges⟩
        · exact absurd (startEq.trans empty) living
        rw [← startEq] at shapeHere
        have wf := tree.each start shape shapeHere
        rw [mode] at ran
        cases added : site.cache.added with
        | none =>
            rw [added] at filled ran
            cases ran
            have found := csShapeLookup_present wf filled
            refine ⟨?_, plain, { shape := start, slot := site.cache.slot, added := none }, ?_⟩
            · unfold csObjectPut
              simp only [mode, shapeHere, found, Option.bind_eq_bind, Option.bind_some]
              rfl
            · unfold learn
              simp only [shapeHere, found, starts, Option.bind_eq_bind, Option.bind_some]
              rfl
        | some next =>
            rw [added] at filled ran
            obtain ⟨nextShape, nextHere, nextKeys, slotEq⟩ := filled
            obtain ⟨again, againHere, edge⟩ := edges next added
            rw [← startEq, shapeHere] at againHere
            cases againHere
            have nextWf := tree.each next nextShape nextHere
            by_cases full : values.length ≤ site.cache.slot
            · simp only [if_pos full] at ran
              cases ran
            · simp only [if_neg full] at ran
              cases ran
              have missing : site.name ∉ shape.keys := by
                have nodup := nextWf.distinct
                rw [nextKeys] at nodup
                exact fun member => (List.nodup_append.mp nodup).2.2 _ member _
                  (List.mem_singleton.mpr rfl) rfl
              have absentName := csShapeLookup_absent wf missing
              have counted : nextShape.slotCount = site.cache.slot + 1 := by
                rw [← nextWf.counted, nextKeys, List.length_append, List.length_singleton, slotEq]
              have transition : csShapeTransition heap.shapes start site.name =
                  some (heap.shapes, some next) := by
                unfold csShapeTransition
                simp only [shapeHere, csTableGet_eq wf.transitionsWf, edge, Option.bind_eq_bind,
                  Option.bind_some]
                rfl
              have room : ensureSlots values (site.cache.slot + 1) = values := by
                unfold ensureSlots
                rw [if_pos (by omega)]
              have lastHere : nextShape.keys[site.cache.slot]? = some site.name := by
                rw [nextKeys, slotEq]
                exact List.getElem?_concat_length
              have found := csShapeLookup_present nextWf lastHere
              have different : start ≠ next := by
                rintro rfl
                rw [shapeHere] at nextHere
                cases nextHere
                exact missing (List.mem_of_getElem? lastHere)
              refine ⟨?_, plain, { shape := start, slot := site.cache.slot, added := some next },
                ?_⟩
              · unfold csObjectPut
                simp only [mode, shapeHere, absentName, transition, nextHere, counted, room,
                  Option.bind_eq_bind, Option.bind_some, Nat.add_sub_cancel]
                rfl
              · unfold learn
                have turned : ¬some start = some next :=
                  fun same => different (Option.some.inj same)
                simp only [nextHere, found, starts, if_neg turned, Option.bind_eq_bind,
                  Option.bind_some]
                rfl

theorem readFast_slow {facts : ReadFacts} (sound : heap.Sound) {address : Nat} {site : Site}
    (here : heap.objects[address]? = some object) (cached : ReaderSound heap.shapes site)
    {written : Option Value} (ran : readFast object site.cache = some written) :
    propertyReadSlow facts heap { site with cache := emptyCache } address object =
      written.map (fun value =>
        ({ emptyCache with shape := site.cache.shape, slot := site.cache.slot },
          .value value)) := by
  unfold readFast at ran
  split at ran
  · cases ran
  · rename_i shape values mode
    split at ran
    · rename_i same
      cases ran
      rcases cached with empty | ⟨layout, layoutHere, key⟩
      · exact absurd (same.trans empty) ((sound.objects address object here).living _ _ mode)
      rw [← same] at layoutHere
      have found := csShapeLookup_present (sound.tree.each shape layout layoutHere) key
      unfold propertyReadSlow
      simp only [mode, layoutHere, found, Option.bind_eq_bind, Option.bind_some]
      cases values[site.cache.slot]? with
      | none => rfl
      | some written =>
          cases written with
          | none => rfl
          | some value => rw [← same]; rfl
    · cases ran

end

/-! ### Transparency -/

inductive SiteOp where
  | get (reader receiver : Nat)
  | set (site receiver : Nat) (value : Value)
  deriving DecidableEq, Repr

section

variable (facts : ReadFacts)

/-- `propertyReadSlow` with an empty cache. -/
def readUncached (state : CachedHeap) (index address : Nat) :
    Option (CachedHeap × ReadAnswer) := do
  let site ← state.readers[index]?
  let object ← state.heap.objects[address]?
  readAndLearn facts state index { site with cache := emptyCache } address object

/-- `propertyWriteSlow` with an empty cache. -/
def writeUncached (heap : PropertyHeap) (index address : Nat) (value : Value) :
    Option (PropertyHeap × PropertyAnswer) := do
  let site ← heap.sites[index]?
  let object ← heap.objects[address]?
  propertyWriteSlow heap index { site with cache := emptyCache } address object value

def CachedHeap.forgetReader (state : CachedHeap) (index : Nat) : CachedHeap :=
  { state with
    readers := state.readers.modify index (fun site => { site with cache := emptyCache }) }

def PropertyHeap.forgetSite (heap : PropertyHeap) (index : Nat) : PropertyHeap :=
  { heap with sites := heap.sites.modify index (fun site => { site with cache := emptyCache }) }

def Transparent (state : CachedHeap) : SiteOp → Prop
  | .get reader receiver =>
      (opGetProperty facts state reader receiver).map
          (fun answered => (answered.1.forgetReader reader, answered.2)) =
        (readUncached facts state reader receiver).map
          (fun answered => (answered.1.forgetReader reader, answered.2))
  | .set site receiver value =>
      (opSetProperty state.heap site receiver value).map
          (fun answered => (answered.1.forgetSite site, answered.2)) =
        (writeUncached state.heap site receiver value).map
          (fun answered => (answered.1.forgetSite site, answered.2))

/-- A store that hits meets an object that is not frozen, and no accessor for
the name on the classes of its prototype chain. -/
def hitAllowed (state : CachedHeap) : SiteOp → Bool
  | .get _ _ => true
  | .set index receiver _ =>
      match state.heap.sites[index]?, state.heap.objects[receiver]? with
      | some site, some object =>
          !siteHits object site.cache || (!object.frozen &&
            decide (chainAccessor state.heap site.name (state.heap.objects.length + 1)
              (some receiver) = some .none))
      | _, _ => true

variable {facts} {state : CachedHeap}

private theorem modify_set {index : Nat} {sites : List Site} {site : Site}
    (here : sites[index]? = some site) (cache : PropertyCache) :
    (sites.set index { site with cache := cache }).modify index
        (fun site => { site with cache := emptyCache }) =
      sites.modify index (fun site => { site with cache := emptyCache }) := by
  apply List.ext_getElem?
  intro other
  rw [List.getElem?_modify, List.getElem?_modify]
  by_cases same : index = other
  · subst same
    rw [List.getElem?_set_self (List.getElem?_eq_some_iff.mp here).1, here]
    simp
  · rw [List.getElem?_set_ne same]

theorem forgetReader_teach {index : Nat} {site : Site} (here : state.readers[index]? = some site)
    (cache : PropertyCache) :
    (state.teach index site cache).forgetReader index = state.forgetReader index := by
  unfold CachedHeap.forgetReader CachedHeap.teach
  simp only [modify_set here cache]

theorem propertyReadSlow_emptied (heap : PropertyHeap) (site : Site) (address : Nat)
    (object : ObjObject) :
    (propertyReadSlow facts heap site address object).map Prod.snd =
      (propertyReadSlow facts heap { site with cache := emptyCache } address object).map
        Prod.snd := by
  unfold propertyReadSlow
  split
  · rw [Option.map_map, Option.map_map]
    rfl
  · rename_i shape values mode
    cases heap.shapes[shape]? with
    | none => rfl
    | some layout =>
        simp only [Option.bind_eq_bind, Option.bind_some]
        cases csShapeLookup layout site.name with
        | none => rfl
        | some found =>
            cases found with
            | none =>
                simp only [Option.bind_some]
                rw [Option.map_map, Option.map_map]
                rfl
            | some slot =>
                simp only [Option.bind_some]
                cases values[slot]? with
                | none => rfl
                | some written => cases written <;> rfl

private theorem readAndLearn_forget {index address : Nat} {site : Site}
    (siteHere : state.readers[index]? = some site) (cache : PropertyCache) (object : ObjObject) :
    (readAndLearn facts state index { site with cache := cache } address object).map
        (fun answered => (answered.1.forgetReader index, answered.2)) =
      ((propertyReadSlow facts state.heap { site with cache := cache } address object).map
        Prod.snd).map (fun answer => (state.forgetReader index, answer)) := by
  unfold readAndLearn
  cases propertyReadSlow facts state.heap { site with cache := cache } address object with
  | none => rfl
  | some answered =>
      simp only [Option.bind_eq_bind, Option.bind_some, Option.pure_def, Option.map_some]
      rw [show state.teach index { site with cache := cache } answered.1 =
        state.teach index site answered.1 from rfl, forgetReader_teach siteHere]

theorem get_transparent (fine : state.Fine) (reader receiver : Nat) :
    Transparent facts state (.get reader receiver) := by
  simp only [Transparent, opGetProperty, readUncached]
  cases siteHere : state.readers[reader]? with
  | none => rfl
  | some site =>
      cases here : state.heap.objects[receiver]? with
      | none => rfl
      | some object =>
          simp only [Option.bind_eq_bind, Option.bind_some]
          rw [readAndLearn_forget siteHere emptyCache]
          cases fast : readFast object site.cache with
          | some written =>
              rw [readFast_slow fine.heap.sound here (fine.readers reader site siteHere) fast]
              cases written <;> rfl
          | none =>
              rw [← propertyReadSlow_emptied]
              exact readAndLearn_forget siteHere site.cache object

private theorem learn_emptied (shapes : List Shape) (site : Site) (before : Option Nat)
    (target : ObjObject) :
    (learn shapes site before target).isSome =
      (learn shapes { site with cache := emptyCache } before target).isSome := by
  unfold learn
  cases target.layout with
  | dictionary table keys => rfl
  | slots shape values =>
      dsimp only
      cases shapes[shape]? with
      | none => rfl
      | some layout =>
          simp only [Option.bind_eq_bind, Option.bind_some]
          cases csShapeLookup layout site.name with
          | none => rfl
          | some found => cases found <;> rfl

private theorem storeSlow_emptied {heap : PropertyHeap} {index : Nat} {site : Site}
    (siteHere : heap.sites[index]? = some site) (address : Nat) (object : ObjObject)
    (value : Value) :
    (storeSlow heap index site address object value).map
        (fun answered => (answered.1.forgetSite index, answered.2)) =
      (storeSlow heap index { site with cache := emptyCache } address object value).map
        (fun answered => (answered.1.forgetSite index, answered.2)) := by
  unfold storeSlow
  dsimp only
  cases csObjectAttributes object site.name with
  | none => rfl
  | some attributes =>
      simp only [Option.bind_eq_bind, Option.bind_some]
      split
      · rfl
      · cases csObjectPut heap.shapes object site.name value with
        | none => rfl
        | some put =>
            simp only [Option.bind_some]
            have learns := learn_emptied put.1 site object.shape put.2
            cases one : learn put.1 site object.shape put.2 with
            | none =>
                rw [one, Option.isSome_none] at learns
                rw [Option.isNone_iff_eq_none.mp (Option.isSome_eq_false_iff.mp learns.symm)]
            | some cache =>
                rw [one, Option.isSome_some] at learns
                obtain ⟨other, otherEq⟩ := Option.isSome_iff_exists.mp learns.symm
                rw [otherEq]
                simp only [Option.bind_some, Option.pure_def, Option.map_some,
                  PropertyHeap.forgetSite, modify_set siteHere]

theorem propertyWriteSlow_emptied {heap : PropertyHeap} {index : Nat} {site : Site}
    (siteHere : heap.sites[index]? = some site) (address : Nat) (object : ObjObject)
    (value : Value) :
    (propertyWriteSlow heap index site address object value).map
        (fun answered => (answered.1.forgetSite index, answered.2)) =
      (propertyWriteSlow heap index { site with cache := emptyCache } address object value).map
        (fun answered => (answered.1.forgetSite index, answered.2)) := by
  unfold propertyWriteSlow
  dsimp only
  split
  · rfl
  · split
    · rfl
    · cases chainAccessor heap site.name (heap.objects.length + 1) (some address) with
      | none => rfl
      | some found =>
          cases found with
          | setter closure => rfl
          | getterOnly => rfl
          | none => exact storeSlow_emptied siteHere address object value

private theorem storeSlow_of_hit (fine : state.Fine) {index receiver : Nat} {site : Site}
    {object stored : ObjObject} {value : Value}
    (here : state.heap.objects[receiver]? = some object)
    (siteHere : state.heap.sites[index]? = some site)
    (fast : storeFast object site.cache value = some stored) :
    (storeSlow state.heap index { site with cache := emptyCache } receiver object value).map
        (fun answered => (answered.1.forgetSite index, answered.2)) =
      some ((setObject state.heap receiver stored).forgetSite index, .done value) := by
  have sound := fine.heap.sound
  have fineObject := sound.objects receiver object here
  obtain ⟨put, _, cache, learned⟩ := storeFast_put fine.heap here siteHere fast
  obtain ⟨_, _, _, ⟨shape, values, mode⟩, _⟩ := storeFast_sound sound.tree sound.absent
    fineObject (sound.sites index site siteHere) fast
  have writable := fineObject.writable shape values mode site.name
  unfold storeSlow
  simp only [csObjectAttributes_eq fineObject.attributes, if_neg writable, put, learned,
    Option.bind_eq_bind, Option.bind_some, Option.pure_def, Option.map_some,
    PropertyHeap.forgetSite, setObject, modify_set siteHere]

theorem set_transparent_iff (fine : state.Fine) (index receiver : Nat) (value : Value) :
    Transparent facts state (.set index receiver value) ↔
      hitAllowed state (.set index receiver value) = true := by
  simp only [Transparent, opSetProperty, writeUncached, hitAllowed]
  cases siteHere : state.heap.sites[index]? with
  | none => exact ⟨fun _ => rfl, fun _ => rfl⟩
  | some site =>
      cases here : state.heap.objects[receiver]? with
      | none => exact ⟨fun _ => rfl, fun _ => rfl⟩
      | some object =>
          simp only [Option.bind_eq_bind, Option.bind_some]
          cases fast : storeFast object site.cache value with
          | none =>
              have missed : siteHits object site.cache = false := by
                rw [Bool.eq_false_iff]
                intro hit
                obtain ⟨stored, ran⟩ := (siteHits_iff site.cache value).mp hit
                rw [fast] at ran
                cases ran
              rw [missed]
              simp only [Bool.not_false, Bool.true_or, iff_true]
              exact propertyWriteSlow_emptied siteHere receiver object value
          | some stored =>
              have hit := (siteHits_iff site.cache value).mpr ⟨stored, fast⟩
              obtain ⟨put, plain, cache, learned⟩ := storeFast_put fine.heap here siteHere fast
              rw [hit]
              simp only [Bool.not_true, Bool.false_or, Bool.and_eq_true, Bool.not_eq_true',
                decide_eq_true_eq]
              unfold propertyWriteSlow
              dsimp only
              cases object.frozen with
              | true =>
                  rw [if_pos rfl]
                  constructor
                  · intro same
                    cases (Prod.ext_iff.mp (Option.some.inj same)).2
                  · intro wrong
                    cases wrong.1
              | false =>
                  rw [if_neg Bool.false_ne_true, if_neg (by rw [plain]; exact Bool.false_ne_true)]
                  cases chainAccessor state.heap site.name (state.heap.objects.length + 1)
                      (some receiver) with
                  | none => exact ⟨fun same => (by cases same), fun wrong => (by cases wrong.2)⟩
                  | some found =>
                      cases found with
                      | setter closure =>
                          exact ⟨fun same => (by cases (Prod.ext_iff.mp (Option.some.inj same)).2),
                            fun wrong => (by cases wrong.2)⟩
                      | getterOnly =>
                          exact ⟨fun same => (by cases (Prod.ext_iff.mp (Option.some.inj same)).2),
                            fun wrong => (by cases wrong.2)⟩
                      | none =>
                          refine ⟨fun _ => ⟨rfl, rfl⟩, fun _ => ?_⟩
                          exact (storeSlow_of_hit fine here siteHere fast).symm

/-- In every state a run reaches, an instruction does at its site what the slow
path does on an empty cache, exactly when a store that hits is allowed. -/
theorem inlineCaches_transparent_iff {cells : Cells} {ops : List CacheOp}
    (ran : runCached facts cells ops CachedHeap.initial = some state) (op : SiteOp) :
    Transparent facts state op ↔ hitAllowed state op = true := by
  have fine := runCached_fine initial_fine ran
  cases op with
  | get reader receiver => exact ⟨fun _ => rfl, fun _ => get_transparent fine reader receiver⟩
  | set index receiver value => exact set_transparent_iff fine index receiver value

end

private def plainFacts : ReadFacts :=
  { isAccessorHolder := fun _ => false, isMethod := fun _ => false }

private def textlessCells : Cells :=
  { bigints := fun _ => { negative := false, limbs := [] }
    symbolKey := fun _ => { chars := ascii "symbol" }
    keyText := fun _ => { chars := [] } }

private def nameX : ObjString := { chars := ascii "x" }

/-- A site that has added its name to a plain object, and an instance of a
class, which has room and, perhaps, a setter for the name. -/
private def sharedSite (setter : Bool) : List CacheOp :=
  [.write (.newClass { chars := ascii "Point" } none)] ++
    (if setter then [.write (.newAccessor 0 false nameX 7)] else []) ++
    [.write (.newObject { chars := ascii "object" } none), .write (.newSite nameX),
      .write (.setProperty 0 1 .null), .write (.newInstance 0)]

private theorem sharedSite_reached (setter : Bool) :
    ∃ state, runCached plainFacts textlessCells (sharedSite setter) CachedHeap.initial =
        some state ∧
      (state.heap.sites[0]?).any (fun site =>
        (state.heap.objects[2]?).any (fun object => siteHits object site.cache)) = true ∧
      hitAllowed state (.set 0 2 (.bool true)) = !setter := by
  have passes : (runCached plainFacts textlessCells (sharedSite setter) CachedHeap.initial).any
      (fun state => (state.heap.sites[0]?).any (fun site =>
        (state.heap.objects[2]?).any (fun object => siteHits object site.cache)) &&
          decide (hitAllowed state (.set 0 2 (.bool true)) = !setter)) = true := by
    cases setter <;> decide
  obtain ⟨state, ran, holds⟩ := (Option.any_eq_true _ _).mp passes
  obtain ⟨hits, allowed⟩ := Bool.and_eq_true_iff.mp holds
  exact ⟨state, ran, hits, of_decide_eq_true allowed⟩

theorem inlineCaches_transparent_iff_shared :
    ∃ state, runCached plainFacts textlessCells (sharedSite false) CachedHeap.initial =
        some state ∧
      (Transparent plainFacts state (.set 0 2 (.bool true)) ↔
        hitAllowed state (.set 0 2 (.bool true)) = true) ∧
      hitAllowed state (.set 0 2 (.bool true)) = true := by
  obtain ⟨state, ran, _, allowed⟩ := sharedSite_reached false
  exact ⟨state, ran, inlineCaches_transparent_iff ran (.set 0 2 (.bool true)), allowed⟩

/-- The instance has the shape the site expects, and its setter does not run. -/
theorem setter_bypassed :
    ¬∀ (facts : ReadFacts) (cells : Cells) (ops : List CacheOp) (state : CachedHeap),
      runCached facts cells ops CachedHeap.initial = some state →
      ∀ op, Transparent facts state op := by
  intro claim
  obtain ⟨state, ran, _, refused⟩ := sharedSite_reached true
  have transparent := claim plainFacts textlessCells _ state ran (.set 0 2 (.bool true))
  have fine := runCached_fine initial_fine ran
  rw [set_transparent_iff fine, refused] at transparent
  cases transparent

end CScript
