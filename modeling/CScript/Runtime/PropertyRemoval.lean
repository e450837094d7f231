/-
When a deleted property is really gone.

A property is spread over the bag of its object, the table of its attributes
and the class that holds the accessors of the object.  A delete takes it out of
the bag and leaves the other two, so what was written there comes back to light:
an accessor answers reads and stores, and a store makes a property with the
attributes the deleted one had.
-/

import CScript.Runtime.AccessorHolders

namespace CScript

/-! ### What a program sees of a property -/

def getAnswer (facts : ReadFacts) (heap : PropertyHeap) (site : Site) (address : Nat) :
    Option ReadAnswer :=
  (opGetProperty facts { heap := heap, readers := [site] } 0 address).map Prod.snd

structure Stored where
  answer : PropertyAnswer
  value : Option Value
  attributes : Nat
  deriving DecidableEq, Repr

def storedAt (address : Nat) (key : ObjString) (step : Option (PropertyHeap × PropertyAnswer)) :
    Option Stored := do
  let (after, answer) ← step
  let now ← after.objects[address]?
  let value ← csObjectGet after.shapes now key
  let attributes ← csObjectAttributes now key
  return { answer := answer, value := value, attributes := attributes }

def setAnswer (heap : PropertyHeap) (site : Site) (address : Nat) (value : Value) :
    Option Stored :=
  storedAt address site.name (opSetProperty { heap with sites := [site] } 0 address value)

def ordinary (value : Value) : Stored :=
  { answer := .done value, value := some value, attributes := CS_PROP_DEFAULT }

section

variable (facts : ReadFacts)

/-- The object as if nothing had ever been defined on it: without the class made
for its accessors and without the table of attributes. -/
def ObjObject.undescribed (object : ObjObject) : ObjObject :=
  { object with
    klass := object.klass.filter (fun klass => !facts.isAccessorHolder klass)
    attributes := none }

def relinked (heap : PropertyHeap) (address : Nat) (object : ObjObject)
    (prototype : Option Nat) : PropertyHeap :=
  setObject heap address { object with prototype := prototype }

def chainAlone (heap : PropertyHeap) (address : Nat) (object : ObjObject)
    (prototype : Option Nat) : PropertyHeap :=
  setObject heap address (ObjObject.undescribed facts { object with prototype := prototype })

/-- The key is as if it had never been defined on the object, whatever the
object's chain is by the time it is asked for. -/
structure Removed (cells : Cells) (heap : PropertyHeap) (address : Nat) (key : ObjString)
    (object : ObjObject) : Prop where
  reads : ∀ (prototype : Option Nat) (site : Site), site.name = key →
    getAnswer facts (relinked heap address object prototype) site address =
      getAnswer facts (chainAlone facts heap address object prototype) site address
  absent : ∀ site : Site, site.name = key → isProtoKey key = false →
    key.chars ≠ ascii "constructor" → (object.undescribed facts).klass = none →
    getAnswer facts (relinked heap address object none) site address = some (.value .undefined)
  assigns : ∀ (prototype : Option Nat) (site : Site) (value : Value), site.name = key →
    setAnswer (relinked heap address object prototype) site address value =
      setAnswer (chainAlone facts heap address object prototype) site address value
  creates : ∀ (prototype : Option Nat) (site : Site) (value : Value), site.name = key →
    isProtoKey key = false →
    chainAccessor (chainAlone facts heap address object prototype) key
      (heap.objects.length + 1) (some address) = some .none →
    setAnswer (relinked heap address object prototype) site address value =
      some (ordinary value)
  computed : ∀ index value : Value, objectKeyFor cells index = key →
    (∀ symbol, index ≠ .obj (.cell .symbol symbol)) →
    storedAt address key (opSetIndex cells heap address index value) = some (ordinary value)

end

/-! ### Two objects that answer alike -/

def ownAccessor (classes : List ObjClass) (object : ObjObject) (name : ObjString) :
    Option ChainAccessor :=
  match object.klass with
  | none => some .none
  | some klass => classAccessor classes klass name

theorem chainAccessor_link (heap : PropertyHeap) (name : ObjString) (fuel address : Nat) :
    chainAccessor heap name (fuel + 1) (some address) = (do
      let object ← heap.objects[address]?
      match ← ownAccessor heap.classes object name with
      | .none => chainAccessor heap name fuel object.prototype
      | found => return found) := by
  rw [chainAccessor]
  cases heap.objects[address]? with
  | none => rfl
  | some object =>
      simp only [Option.bind_eq_bind, Option.bind_some]
      unfold ownAccessor
      cases object.klass <;> rfl

theorem chainAccessor_sites (heap : PropertyHeap) (sites : List Site) (name : ObjString)
    (fuel : Nat) (link : Option Nat) :
    chainAccessor { heap with sites := sites } name fuel link =
      chainAccessor heap name fuel link := by
  induction fuel generalizing link with
  | zero => cases link <;> rfl
  | succ fuel ih =>
      cases link with
      | none => rfl
      | some one =>
          rw [chainAccessor_link, chainAccessor_link]
          simp only [ih]

structure Alike (facts : ReadFacts) (heap : PropertyHeap) (key : ObjString)
    (left right : ObjObject) : Prop where
  layout : left.layout = right.layout
  name : left.name = right.name
  frozen : left.frozen = right.frozen
  prototype : left.prototype = right.prototype
  privates : left.privates = right.privates
  attributes : csObjectAttributes left key = csObjectAttributes right key
  declared : left.klass.filter (fun klass => !facts.isAccessorHolder klass) =
    right.klass.filter (fun klass => !facts.isAccessorHolder klass)
  member : isProtoKey key = false → ∀ receiver,
    linkMember heap left key receiver = linkMember heap right key receiver
  accessor : isProtoKey key = false →
    ownAccessor heap.classes left key = ownAccessor heap.classes right key

section

variable {facts : ReadFacts} {heap : PropertyHeap} {key : ObjString} {left right : ObjObject}
  {address : Nat}

private theorem alike_objects (bound : address < heap.objects.length)
    (left right : ObjObject) (link : Nat) :
    (link = address ∧ (setObject heap address left).objects[link]? = some left ∧
        (setObject heap address right).objects[link]? = some right) ∨
      (link ≠ address ∧ (setObject heap address left).objects[link]? =
        (setObject heap address right).objects[link]?) := by
  unfold setObject
  by_cases same : link = address
  · subst same
    exact Or.inl ⟨rfl, List.getElem?_set_self bound, List.getElem?_set_self bound⟩
  · have other : address ≠ link := fun equal => same equal.symm
    refine Or.inr ⟨same, ?_⟩
    dsimp only
    rw [List.getElem?_set_ne other, List.getElem?_set_ne other]

theorem Alike.constructorOf (alike : Alike facts heap key left right)
    (bound : address < heap.objects.length) (fuel : Nat) (link : Option Nat) :
    constructorOf facts (setObject heap address left) fuel link =
      constructorOf facts (setObject heap address right) fuel link := by
  induction fuel generalizing link with
  | zero => cases link <;> rfl
  | succ fuel ih =>
      cases link with
      | none => rfl
      | some one =>
          rw [CScript.constructorOf, CScript.constructorOf]
          rcases alike_objects bound left right one with ⟨_, leftHere, rightHere⟩ | ⟨_, same⟩
          · rw [leftHere, rightHere]
            simp only [Option.bind_eq_bind, Option.bind_some, alike.declared,
              csObjectGetPrivate, alike.privates, alike.prototype, ih]
          · rw [same]
            simp only [ih]

theorem Alike.readChain (alike : Alike facts heap key left right)
    (bound : address < heap.objects.length) (plain : isProtoKey key = false) (fuel : Nat)
    (link : Option Nat) :
    readChain facts (setObject heap address left) key address fuel link =
      readChain facts (setObject heap address right) key address fuel link := by
  induction fuel generalizing link with
  | zero => cases link <;> rfl
  | succ fuel ih =>
      cases link with
      | none => rfl
      | some one =>
          rw [CScript.readChain, CScript.readChain]
          rcases alike_objects bound left right one with
            ⟨rfl, leftHere, rightHere⟩ | ⟨other, same⟩
          · have member : linkMember (setObject heap one left) left key one =
                linkMember (setObject heap one right) right key one := alike.member plain one
            rw [leftHere, rightHere]
            simp only [Option.bind_eq_bind, Option.bind_some, if_true, member, alike.prototype, ih]
          · rw [same]
            simp only [if_neg other, ih]
            rfl

theorem Alike.chainAccessor (alike : Alike facts heap key left right)
    (bound : address < heap.objects.length) (plain : isProtoKey key = false) (fuel : Nat)
    (link : Option Nat) :
    chainAccessor (setObject heap address left) key fuel link =
      chainAccessor (setObject heap address right) key fuel link := by
  induction fuel generalizing link with
  | zero => cases link <;> rfl
  | succ fuel ih =>
      cases link with
      | none => rfl
      | some one =>
          rw [chainAccessor_link, chainAccessor_link]
          rcases alike_objects bound left right one with ⟨_, leftHere, rightHere⟩ | ⟨_, same⟩
          · have accessor : ownAccessor (setObject heap address left).classes left key =
                ownAccessor (setObject heap address right).classes right key :=
              alike.accessor plain
            rw [leftHere, rightHere]
            simp only [Option.bind_eq_bind, Option.bind_some, accessor, alike.prototype, ih]
          · rw [same]
            simp only [ih]
            rfl

theorem Alike.chainMeets (alike : Alike facts heap key left right)
    (bound : address < heap.objects.length) (object fuel : Nat) (link : Option Nat) :
    chainMeets (setObject heap address left).objects object fuel link =
      chainMeets (setObject heap address right).objects object fuel link := by
  induction fuel generalizing link with
  | zero => cases link <;> rfl
  | succ fuel ih =>
      cases link with
      | none => rfl
      | some one =>
          rw [CScript.chainMeets, CScript.chainMeets]
          rcases alike_objects bound left right one with ⟨_, leftHere, rightHere⟩ | ⟨_, same⟩
          · rw [leftHere, rightHere]
            simp only [Option.bind_eq_bind, Option.bind_some, alike.prototype, ih]
          · rw [same]
            simp only [ih]

private theorem lengths_alike (heap : PropertyHeap) (address : Nat) (left right : ObjObject) :
    (setObject heap address left).objects.length =
      (setObject heap address right).objects.length := by
  unfold setObject
  rw [List.length_set, List.length_set]

theorem Alike.readAround (alike : Alike facts heap key left right)
    (bound : address < heap.objects.length) :
    readAround facts (setObject heap address left) key address left =
      readAround facts (setObject heap address right) key address right := by
  have data : dataProperty (setObject heap address left) left key =
      dataProperty (setObject heap address right) right key := by
    unfold dataProperty csObjectGet
    rw [alike.layout]
    rfl
  unfold CScript.readAround
  rw [data, alike.constructorOf bound, lengths_alike heap address left right, alike.prototype]
  cases plain : isProtoKey key with
  | true => simp only [if_true]
  | false => rw [alike.readChain bound plain]

theorem Alike.getAnswer (alike : Alike facts heap key left right)
    (bound : address < heap.objects.length) {site : Site} (named : site.name = key) :
    getAnswer facts (setObject heap address left) site address =
      getAnswer facts (setObject heap address right) site address := by
  subst named
  have leftHere : (setObject heap address left).objects[address]? = some left :=
    List.getElem?_set_self bound
  have rightHere : (setObject heap address right).objects[address]? = some right :=
    List.getElem?_set_self bound
  have fast : readFast left site.cache = readFast right site.cache := by
    unfold readFast
    rw [alike.layout]
  have slow : propertyReadSlow facts (setObject heap address left) site address left =
      propertyReadSlow facts (setObject heap address right) site address right := by
    unfold propertyReadSlow
    rw [alike.layout, alike.readAround bound]
    rfl
  unfold CScript.getAnswer opGetProperty readAndLearn
  simp only [List.getElem?_cons_zero, leftHere, rightHere, Option.bind_eq_bind, Option.bind_some,
    fast, slow]
  cases readFast right site.cache with
  | some written => cases written <;> rfl
  | none =>
      cases propertyReadSlow facts (setObject heap address right) site address right <;> rfl

/-! ### Stores alike -/

theorem storedAt_some {after : PropertyHeap} {now : ObjObject}
    (here : after.objects[address]? = some now) (key : ObjString) (answer : PropertyAnswer) :
    storedAt address key (some (after, answer)) = (do
      let value ← csObjectGet after.shapes now key
      let attributes ← csObjectAttributes now key
      return { answer := answer, value := value, attributes := attributes }) := by
  unfold storedAt
  simp only [Option.bind_eq_bind, Option.bind_some, here]

private theorem storedAt_alike {first second : PropertyHeap} {one other : ObjObject}
    (oneHere : first.objects[address]? = some one)
    (otherHere : second.objects[address]? = some other) (shapes : first.shapes = second.shapes)
    (layout : one.layout = other.layout)
    (attributes : csObjectAttributes one key = csObjectAttributes other key)
    (answer : PropertyAnswer) :
    storedAt address key (some (first, answer)) = storedAt address key (some (second, answer)) := by
  have value : csObjectGet first.shapes one key = csObjectGet second.shapes other key := by
    unfold csObjectGet
    rw [shapes, layout]
  rw [storedAt_some oneHere, storedAt_some otherHere, value, attributes]

private theorem setObject_here (bound : address < heap.objects.length) (object : ObjObject) :
    (setObject heap address object).objects[address]? = some object :=
  List.getElem?_set_self bound

private theorem setObject_bound (bound : address < heap.objects.length) (object : ObjObject) :
    address < (setObject heap address object).objects.length := by
  unfold setObject
  rwa [List.length_set]

private theorem Alike.unchanged (alike : Alike facts heap key left right)
    (bound : address < heap.objects.length) (answer : PropertyAnswer) :
    storedAt address key (some (setObject heap address left, answer)) =
      storedAt address key (some (setObject heap address right, answer)) :=
  storedAt_alike (setObject_here bound left) (setObject_here bound right) rfl alike.layout
    alike.attributes answer

private theorem Alike.linked (alike : Alike facts heap key left right)
    (bound : address < heap.objects.length) (prototype : Option Nat) (answer : PropertyAnswer) :
    storedAt address key (some
        (setObject (setObject heap address left) address { left with prototype := prototype },
          answer)) =
      storedAt address key (some
        (setObject (setObject heap address right) address { right with prototype := prototype },
          answer)) :=
  storedAt_alike
    (setObject_here (setObject_bound bound left) { left with prototype := prototype })
    (setObject_here (setObject_bound bound right) { right with prototype := prototype })
    rfl alike.layout alike.attributes answer

private theorem Alike.relinks (alike : Alike facts heap key left right)
    (bound : address < heap.objects.length) (prototype answer : Value) :
    storedAt address key
        (CScript.relink (setObject heap address left) address left prototype answer) =
      storedAt address key
        (relink (setObject heap address right) address right prototype answer) := by
  have object (above : Nat) :
      storedAt address key (CScript.relink (setObject heap address left) address left
          (objectValue above) answer) =
        storedAt address key (CScript.relink (setObject heap address right) address right
          (objectValue above) answer) := by
    simp only [objectValue, CScript.relink, csObjectSetPrototype]
    rw [alike.chainMeets bound, lengths_alike heap address left right]
    cases CScript.chainMeets (setObject heap address right).objects address
        ((setObject heap address right).objects.length + 1) (some above) with
    | none => rfl
    | some meets =>
        cases meets with
        | true => exact alike.unchanged bound loopingPrototype
        | false => exact alike.linked bound (some above) (.done answer)
  cases prototype with
  | null => exact alike.linked bound none (.done answer)
  | undefined => exact alike.linked bound none (.done answer)
  | number n => exact alike.unchanged bound (badPrototype (.number n))
  | bool b => exact alike.unchanged bound (badPrototype (.bool b))
  | obj held =>
      cases held with
      | string chars => exact alike.unchanged bound (badPrototype (.obj (.string chars)))
      | cell type above =>
          cases type with
          | object => exact object above
          | _ => exact alike.unchanged bound _

theorem csObjectPut_dictionary {object : ObjObject} {table : Table} {keys : List ObjString}
    (mode : object.layout = .dictionary table keys) (shapes : List Shape) (key : ObjString)
    (value : Value) :
    csObjectPut shapes object key value = (csTableSet table key value).map (fun stored =>
      (shapes, { object with
        layout := .dictionary stored.1 (if stored.2 then keys ++ [key] else keys) })) := by
  unfold csObjectPut dictionaryPut
  simp only [mode, Option.bind_eq_bind]
  cases csTableSet table key value with
  | none => rfl
  | some stored =>
      obtain ⟨after, isNew⟩ := stored
      cases isNew <;> rfl

theorem storeSlow_dictionary {object : ObjObject} {table : Table} {keys : List ObjString}
    (mode : object.layout = .dictionary table keys) (heap : PropertyHeap) (index : Nat)
    (site : Site) (address : Nat) (value : Value) :
    storeSlow heap index site address object value = (do
      let attributes ← csObjectAttributes object site.name
      if attributes &&& CS_PROP_WRITABLE = 0 then
        return (heap, .failed (ascii "'" ++ site.name.chars ++
          ascii "' is read-only and cannot be assigned to"))
      else (csTableSet table site.name value).map (fun stored =>
        (setObject { heap with sites := heap.sites.set index site } address { object with
          layout := .dictionary stored.1 (if stored.2 then keys ++ [site.name] else keys) },
          .done value))) := by
  unfold storeSlow
  rw [csObjectPut_dictionary mode]
  cases csTableSet table site.name value <;> rfl

private theorem Alike.stores (alike : Alike facts heap key left right)
    (bound : address < heap.objects.length) {site : Site} (named : site.name = key)
    {table : Table} {keys : List ObjString} (mode : left.layout = .dictionary table keys)
    (index : Nat) (value : Value) :
    storedAt address key (storeSlow (setObject heap address left) index site address left value) =
      storedAt address key
        (storeSlow (setObject heap address right) index site address right value) := by
  subst named
  rw [storeSlow_dictionary mode, storeSlow_dictionary (alike.layout.symm.trans mode),
    alike.attributes]
  cases csObjectAttributes right site.name with
  | none => rfl
  | some attributes =>
      simp only [Option.bind_eq_bind, Option.bind_some]
      by_cases readOnly : attributes &&& CS_PROP_WRITABLE = 0
      · rw [if_pos readOnly, if_pos readOnly]
        exact alike.unchanged bound _
      · rw [if_neg readOnly, if_neg readOnly]
        cases csTableSet table site.name value with
        | none => rfl
        | some stored =>
            exact storedAt_alike (setObject_here (setObject_bound bound left) { left with
                layout := .dictionary stored.1 (if stored.2 then keys ++ [site.name] else keys) })
              (setObject_here (setObject_bound bound right) { right with
                layout := .dictionary stored.1 (if stored.2 then keys ++ [site.name] else keys) })
              rfl rfl alike.attributes _

private theorem Alike.writes (alike : Alike facts heap key left right)
    (bound : address < heap.objects.length) {site : Site} (named : site.name = key)
    {table : Table} {keys : List ObjString} (mode : left.layout = .dictionary table keys)
    (index : Nat) (value : Value) :
    storedAt address key
        (propertyWriteSlow (setObject heap address left) index site address left value) =
      storedAt address key
        (propertyWriteSlow (setObject heap address right) index site address right value) := by
  subst named
  unfold propertyWriteSlow
  rw [alike.frozen, alike.name]
  cases right.frozen with
  | true => exact alike.unchanged bound _
  | false =>
      simp only [Bool.false_eq_true, if_false]
      cases plain : isProtoKey site.name with
      | true => exact alike.relinks bound value value
      | false =>
          rw [alike.chainAccessor bound plain, lengths_alike heap address left right]
          simp only [Bool.false_eq_true, if_false]
          cases CScript.chainAccessor (setObject heap address right) site.name
              ((setObject heap address right).objects.length + 1) (some address) with
          | none => rfl
          | some found =>
              cases found with
              | setter closure => exact alike.unchanged bound _
              | getterOnly => exact alike.unchanged bound _
              | none => exact alike.stores bound rfl mode index value

theorem opSetProperty_dictionary {heap : PropertyHeap} {address index : Nat} {site : Site}
    {object : ObjObject} (siteHere : heap.sites[index]? = some site)
    (here : heap.objects[address]? = some object) {table : Table} {keys : List ObjString}
    (mode : object.layout = .dictionary table keys) (value : Value) :
    opSetProperty heap index address value =
      propertyWriteSlow heap index site address object value := by
  have slow : storeFast object site.cache value = none := by
    unfold storeFast ObjObject.shape
    simp only [mode, reduceCtorEq, if_false]
  unfold opSetProperty
  simp only [siteHere, here, slow, Option.bind_eq_bind, Option.bind_some]

theorem Alike.setAnswer (alike : Alike facts heap key left right)
    (bound : address < heap.objects.length) {site : Site} (named : site.name = key)
    {table : Table} {keys : List ObjString} (mode : left.layout = .dictionary table keys)
    (value : Value) :
    setAnswer (setObject heap address left) site address value =
      setAnswer (setObject heap address right) site address value := by
  subst named
  have sited : Alike facts { heap with sites := [site] } site.name left right :=
    ⟨alike.layout, alike.name, alike.frozen, alike.prototype, alike.privates, alike.attributes,
      alike.declared, alike.member, alike.accessor⟩
  show storedAt address site.name
      (opSetProperty (setObject { heap with sites := [site] } address left) 0 address value) =
    storedAt address site.name
      (opSetProperty (setObject { heap with sites := [site] } address right) 0 address value)
  have sitedBound : address < ({ heap with sites := [site] } : PropertyHeap).objects.length := bound
  rw [opSetProperty_dictionary rfl (setObject_here sitedBound left) mode,
    opSetProperty_dictionary rfl (setObject_here sitedBound right)
      (alike.layout.symm.trans mode)]
  exact sited.writes sitedBound rfl mode 0 value

end

/-! ### The condition -/

/-- The key has no attributes but the default ones, and the class made for the
accessors of the object, if it has one, has none under the key. -/
def NotDescribed (facts : ReadFacts) (heap : PropertyHeap) (object : ObjObject)
    (key : ObjString) : Prop :=
  csObjectAttributes object key = some CS_PROP_DEFAULT ∧
    (isProtoKey key = true ∨ ∀ klass, object.klass = some klass →
      facts.isAccessorHolder klass = true →
        csClassFindGetter heap.classes klass key = some none ∧
        csClassFindSetter heap.classes klass key = some none)

def FactsPlain (facts : ReadFacts) (classes : List ObjClass) : Prop :=
  ∀ holder, facts.isAccessorHolder holder = true →
    ∃ klass : ObjClass, classes[holder]? = some klass ∧ PlainHolder klass

theorem undescribed_alike {facts : ReadFacts} {heap : PropertyHeap} {object : ObjObject}
    {key : ObjString} (plain : FactsPlain facts heap.classes)
    (nothing : NotDescribed facts heap object key) (prototype : Option Nat) :
    Alike facts heap key { object with prototype := prototype }
      (ObjObject.undescribed facts { object with prototype := prototype }) := by
  obtain ⟨default_, accessors⟩ := nothing
  have kept : (object.klass.filter (fun klass => !facts.isAccessorHolder klass)).filter
      (fun klass => !facts.isAccessorHolder klass) =
        object.klass.filter (fun klass => !facts.isAccessorHolder klass) := by
    rw [Option.filter_filter]
    simp only [Bool.and_self]
  have answers (ordinary_ : isProtoKey key = false) :
      (∀ receiver, linkMember heap { object with prototype := prototype } key receiver =
        linkMember heap (ObjObject.undescribed facts { object with prototype := prototype })
          key receiver) ∧
      ownAccessor heap.classes { object with prototype := prototype } key =
        ownAccessor heap.classes
          (ObjObject.undescribed facts { object with prototype := prototype }) key := by
    have free := accessors.resolve_left (by rw [ordinary_]; exact Bool.false_ne_true)
    unfold linkMember ownAccessor ObjObject.undescribed
    dsimp only
    cases held : object.klass with
    | none => exact ⟨fun _ => rfl, rfl⟩
    | some klass =>
        cases holder : facts.isAccessorHolder klass with
        | false =>
            rw [Option.filter_some, holder]
            exact ⟨fun _ => rfl, rfl⟩
        | true =>
            obtain ⟨getter, setter⟩ := free klass held holder
            obtain ⟨made, here, fine⟩ := plain klass holder
            have method : csClassFindMethod heap.classes klass key = some none := by
              have wf : (ObjClass.methods made).WellFormed := by
                rw [fine.methods]
                exact csTableInit_wellFormed
              have found := fine.find here ObjClass.methods wf key
              rw [fine.methods] at found
              exact found
            rw [Option.filter_some, holder]
            constructor
            · intro receiver
              simp only [getter, method, Option.bind_eq_bind, Option.bind_some]
              rfl
            · unfold classAccessor
              simp only [getter, setter, Option.bind_eq_bind, Option.bind_some]
              rfl
  exact
    { layout := rfl
      name := rfl
      frozen := rfl
      prototype := rfl
      privates := rfl
      attributes := default_
      declared := kept.symm
      member := fun ordinary_ => (answers ordinary_).1
      accessor := fun ordinary_ => (answers ordinary_).2 }

/-! ### What a store comes to once the key is gone -/

structure Gone (heap : PropertyHeap) (address : Nat) (key : ObjString) (object : ObjObject)
    (table : Table) (keys : List ObjString) : Prop where
  here : heap.objects[address]? = some object
  mode : object.layout = .dictionary table keys
  wellFormed : table.WellFormed
  missing : csTableGet table key = some none
  unfrozen : object.frozen = false
  attributes : ∃ attributes, csObjectAttributes object key = some attributes

section

variable {facts : ReadFacts} {cells : Cells} {heap : PropertyHeap} {address : Nat}
  {key : ObjString} {object : ObjObject} {table : Table} {keys : List ObjString}

theorem Gone.bound (gone : Gone heap address key object table keys) :
    address < heap.objects.length :=
  (List.getElem?_eq_some_iff.mp gone.here).1

private theorem storedAt_put {stored : Table} {isNew : Bool} {value : Value}
    (wf : table.WellFormed) (ran : csTableSet table key value = some (stored, isNew))
    {after : PropertyHeap} {names : List ObjString}
    (here : after.objects[address]? = some { object with layout := .dictionary stored names })
    {attributes : Nat} (described : csObjectAttributes object key = some attributes)
    (answer : PropertyAnswer) :
    storedAt address key (some (after, answer)) =
      some { answer := answer, value := some value, attributes := attributes } := by
  obtain ⟨same, sameRan, storedWf, contents⟩ := csTableSet_spec wf key value
  rw [ran] at sameRan
  cases sameRan
  have found : csObjectGet after.shapes { object with layout := .dictionary stored names } key =
      some (some value) := by
    show csTableGet stored key = some (some value)
    rw [csTableGet_eq storedWf, contents, Function.update_self]
  have still : csObjectAttributes { object with layout := .dictionary stored names } key =
      some attributes := described
  rw [storedAt_some here, found, still]
  rfl

theorem opSetIndex_named {index : Value}
    (stringly : ∀ symbol, index ≠ .obj (.cell .symbol symbol)) (value : Value) :
    opSetIndex cells heap address index value = (do
      let object ← heap.objects[address]?
      if object.frozen then
        return (heap, .failed (ascii "'" ++ object.name.chars ++ ascii "." ++
          (objectKeyFor cells index).chars ++
            ascii "' cannot be changed: the object is frozen"))
      else do
        let after ← putProperty heap address object (objectKeyFor cells index) value
        return (after, .done value)) := by
  unfold opSetIndex
  cases heap.objects[address]? with
  | none => rfl
  | some object =>
      cases index with
      | obj held =>
          cases held with
          | string chars => rfl
          | cell type cell =>
              cases type with
              | symbol => exact absurd rfl (stringly cell)
              | _ => rfl
      | _ => rfl

theorem storedAt_opSetIndex (gone : Gone heap address key object table keys) {index : Value}
    (named : objectKeyFor cells index = key)
    (stringly : ∀ symbol, index ≠ .obj (.cell .symbol symbol)) (value : Value)
    {attributes : Nat} (described : csObjectAttributes object key = some attributes) :
    storedAt address key (opSetIndex cells heap address index value) =
      some { answer := .done value, value := some value, attributes := attributes } := by
  subst named
  obtain ⟨stored, ran, _, _⟩ := csTableSet_spec gone.wellFormed (objectKeyFor cells index) value
  rw [opSetIndex_named stringly, gone.here]
  simp only [Option.bind_eq_bind, Option.bind_some, gone.unfrozen, Bool.false_eq_true, if_false]
  unfold putProperty
  rw [csObjectPut_dictionary gone.mode, ran]
  exact storedAt_put gone.wellFormed ran (List.getElem?_set_self gone.bound) described _

theorem setAnswer_chain (gone : Gone heap address key object table keys) (other : ObjObject)
    (layout : other.layout = object.layout) (frozen : other.frozen = object.frozen)
    {site : Site} (named : site.name = key) (plain : isProtoKey key = false)
    {found : ChainAccessor} (asked : chainAccessor (setObject heap address other) key
      (heap.objects.length + 1) (some address) = some found) (value : Value) :
    ∃ sited, sited.objects.length = heap.objects.length ∧
      setAnswer (setObject heap address other) site address value =
        storedAt address key
          (match found with
          | .setter closure =>
              some (setObject sited address other, .call closure (objectValue address) [value])
          | .getterOnly =>
              some (setObject sited address other, .failed (ascii "'" ++ site.name.chars ++
                ascii "' has only a getter and cannot be assigned to"))
          | .none => storeSlow (setObject sited address other) 0 site address other value) := by
  subst named
  have sitedBound : address < ({ heap with sites := [site] } : PropertyHeap).objects.length :=
    gone.bound
  have length : (setObject { heap with sites := [site] } address other).objects.length =
      heap.objects.length := List.length_set
  have sitedAsked : chainAccessor (setObject { heap with sites := [site] } address other)
      site.name ((setObject { heap with sites := [site] } address other).objects.length + 1)
      (some address) = some found := by
    rw [length]
    exact (chainAccessor_sites (setObject heap address other) [site] site.name _ _).trans asked
  refine ⟨{ heap with sites := [site] }, rfl, ?_⟩
  show storedAt address site.name
    (opSetProperty (setObject { heap with sites := [site] } address other) 0 address value) = _
  rw [opSetProperty_dictionary rfl (setObject_here sitedBound other) (layout.trans gone.mode)]
  unfold propertyWriteSlow
  rw [frozen.trans gone.unfrozen, plain, sitedAsked]
  cases found <;> rfl

theorem setAnswer_free (gone : Gone heap address key object table keys) (other : ObjObject)
    (layout : other.layout = object.layout) (frozen : other.frozen = object.frozen)
    {site : Site} (named : site.name = key) (plain : isProtoKey key = false)
    (free : chainAccessor (setObject heap address other) key (heap.objects.length + 1)
      (some address) = some .none) (value : Value)
    (described : csObjectAttributes other key = some CS_PROP_DEFAULT) :
    setAnswer (setObject heap address other) site address value = some (ordinary value) := by
  obtain ⟨sited, length, answered⟩ :=
    setAnswer_chain gone other layout frozen named plain free value
  have sitedBound : address < sited.objects.length := by
    rw [length]
    exact gone.bound
  subst named
  obtain ⟨stored, ran, _, _⟩ := csTableSet_spec gone.wellFormed site.name value
  rw [answered]
  dsimp only
  rw [storeSlow_dictionary (layout.trans gone.mode), described, ran]
  exact storedAt_put gone.wellFormed ran
    (setObject_here (setObject_bound sitedBound other) _) described _


theorem storedAt_answer {after : PropertyHeap} {answer : PropertyAnswer} {stored : Stored}
    (ran : storedAt address key (some (after, answer)) = some stored) :
    stored.answer = answer := by
  unfold storedAt at ran
  obtain ⟨step, stepped, ran⟩ := Option.bind_eq_some_iff.mp ran
  cases stepped
  obtain ⟨now, _, ran⟩ := Option.bind_eq_some_iff.mp ran
  obtain ⟨value, _, ran⟩ := Option.bind_eq_some_iff.mp ran
  obtain ⟨attributes, _, finished⟩ := Option.bind_eq_some_iff.mp ran
  cases finished
  rfl

theorem setAnswer_taken (gone : Gone heap address key object table keys) (other : ObjObject)
    (layout : other.layout = object.layout) (frozen : other.frozen = object.frozen)
    {site : Site} (named : site.name = key) (plain : isProtoKey key = false)
    {found : ChainAccessor} (asked : chainAccessor (setObject heap address other) key
      (heap.objects.length + 1) (some address) = some found) {value : Value}
    (made : setAnswer (setObject heap address other) site address value = some (ordinary value)) :
    found = .none := by
  obtain ⟨sited, _, answered⟩ := setAnswer_chain gone other layout frozen named plain asked value
  rw [made] at answered
  cases found with
  | none => rfl
  | setter closure => cases storedAt_answer answered.symm
  | getterOnly => cases storedAt_answer answered.symm

theorem getAnswer_unlinked (gone : Gone heap address key object table keys) {site : Site}
    (named : site.name = key) (plain : isProtoKey key = false)
    (common : key.chars ≠ ascii "constructor")
    (classless : (object.undescribed facts).klass = none) :
    getAnswer facts (chainAlone facts heap address object none) site address =
      some (.value .undefined) := by
  subst named
  have here := setObject_here gone.bound
    (ObjObject.undescribed facts { object with prototype := none })
  have missing : dataProperty (chainAlone facts heap address object none)
      (ObjObject.undescribed facts { object with prototype := none }) site.name = some none := by
    unfold dataProperty csObjectGet ObjObject.undescribed
    simp only [gone.mode, gone.missing]
    rfl
  have nothing : readChain facts (chainAlone facts heap address object none) site.name address
      (heap.objects.length + 1) (some address) = some (.value .undefined) := by
    have member : linkMember (chainAlone facts heap address object none)
        (ObjObject.undescribed facts { object with prototype := none }) site.name address =
          some none := by
      unfold linkMember
      have klass : (ObjObject.undescribed facts { object with prototype := none }).klass = none :=
        classless
      rw [klass]
    rw [readChain]
    unfold chainAlone at member ⊢
    rw [here]
    simp only [Option.bind_eq_bind, Option.bind_some, if_true, member]
    cases heap.objects.length <;> rfl
  have length : (chainAlone facts heap address object none).objects.length =
      heap.objects.length := List.length_set
  have around : readAround facts (chainAlone facts heap address object none) site.name address
      (ObjObject.undescribed facts { object with prototype := none }) =
        some (.value .undefined) := by
    unfold readAround
    rw [missing, length, nothing, plain]
    simp only [Option.bind_eq_bind, Option.bind_some, if_neg common, Bool.false_eq_true, if_false]
  have mode : (ObjObject.undescribed facts { object with prototype := none }).layout =
      .dictionary table keys := gone.mode
  unfold getAnswer opGetProperty readAndLearn propertyReadSlow readFast
  unfold chainAlone at around ⊢
  simp only [List.getElem?_cons_zero, here, mode, around, Option.bind_eq_bind, Option.bind_some]
  rfl

def holderAccessor (klass : ObjClass) (key : ObjString) : ChainAccessor :=
  match klass.setters.lookup key with
  | some setter => .setter setter
  | none => if (klass.getters.lookup key).isSome then .getterOnly else .none

theorem holderAccessor_none {klass : ObjClass} :
    holderAccessor klass key = .none ↔
      klass.getters.lookup key = none ∧ klass.setters.lookup key = none := by
  unfold holderAccessor
  cases klass.setters.lookup key <;> cases klass.getters.lookup key <;> simp

theorem chainAccessor_holder (gone : Gone heap address key object table keys) {klass : Nat}
    (held : object.klass = some klass) {made : ObjClass} (here : heap.classes[klass]? = some made)
    (fine : PlainHolder made) :
    chainAccessor (setObject heap address { object with prototype := none }) key
      (heap.objects.length + 1) (some address) = some (holderAccessor made key) := by
  have own : ownAccessor (setObject heap address { object with prototype := none }).classes
      { object with prototype := none } key = some (holderAccessor made key) := by
    have setter := fine.find here ObjClass.setters fine.setters key
    have getter := fine.find here ObjClass.getters fine.getters key
    unfold ownAccessor classAccessor csClassFindSetter csClassFindGetter setObject
    simp only [held, setter, getter, Option.bind_eq_bind, Option.bind_some, holderAccessor]
    cases made.setters.lookup key <;> rfl
  rw [chainAccessor_link, setObject_here gone.bound]
  simp only [Option.bind_eq_bind, Option.bind_some, own]
  cases holderAccessor made key with
  | none => cases heap.objects.length <;> rfl
  | setter closure => rfl
  | getterOnly => rfl

theorem removed_iff (plain : FactsPlain facts heap.classes)
    (gone : Gone heap address key object table keys) :
    Removed facts cells heap address key object ↔ NotDescribed facts heap object key := by
  constructor
  · intro removed
    obtain ⟨attributes, described⟩ := gone.attributes
    constructor
    · have stringly (symbol : Nat) : Value.obj (.string key) ≠ .obj (.cell .symbol symbol) := nofun
      have stored := removed.computed (.obj (.string key)) .undefined rfl stringly
      rw [storedAt_opSetIndex gone rfl stringly .undefined described] at stored
      rw [described, show attributes = CS_PROP_DEFAULT from
        congrArg Stored.attributes (Option.some.inj stored)]
    · cases ordinary_ : isProtoKey key with
      | true => exact Or.inl rfl
      | false =>
          right
          intro klass held holder
          have alone : chainAccessor (chainAlone facts heap address object none) key
              (heap.objects.length + 1) (some address) = some .none := by
            rw [chainAccessor_link]
            unfold chainAlone
            rw [setObject_here gone.bound]
            unfold ownAccessor ObjObject.undescribed
            simp only [held, Option.filter_some, holder, Option.bind_eq_bind, Option.bind_some]
            cases heap.objects.length <;> rfl
          have created := removed.creates none ⟨key, emptyCache⟩ .undefined rfl ordinary_ alone
          obtain ⟨made, here, fine⟩ := plain klass holder
          have free := setAnswer_taken gone { object with prototype := none } rfl rfl rfl ordinary_
            (chainAccessor_holder gone held here fine) created
          obtain ⟨getter, setter⟩ := holderAccessor_none.mp free
          unfold csClassFindGetter csClassFindSetter
          rw [fine.find here ObjClass.getters fine.getters, getter,
            fine.find here ObjClass.setters fine.setters, setter]
          exact ⟨rfl, rfl⟩
  · intro nothing
    have alike := undescribed_alike plain nothing
    have mode : ∀ prototype : Option Nat,
        ({ object with prototype := prototype } : ObjObject).layout = .dictionary table keys :=
      fun _ => gone.mode
    constructor
    · intro prototype site named
      exact (alike prototype).getAnswer gone.bound named
    · intro site named ordinary_ common classless
      exact ((alike none).getAnswer gone.bound named).trans
        (getAnswer_unlinked gone named ordinary_ common classless)
    · intro prototype site value named
      exact (alike prototype).setAnswer gone.bound named (mode prototype) value
    · intro prototype site value named ordinary_ free
      exact ((alike prototype).setAnswer gone.bound named (mode prototype) value).trans
        (setAnswer_free gone (ObjObject.undescribed facts { object with prototype := prototype })
          rfl rfl named ordinary_ free value rfl)
    · intro index value named stringly
      exact storedAt_opSetIndex gone named stringly value nothing.1

end

/-! ### Deletes -/

def PropertyOp.deletes (cells : Cells) (address : Nat) (key : ObjString) : PropertyOp → Prop
  | .deleteProperty target name => target = address ∧ name = key
  | .deleteIndex target index => target = address ∧ objectKeyFor cells index = key ∧
      ∀ symbol, index ≠ .obj (.cell .symbol symbol)
  | _ => False

section

variable {cells : Cells} {heap after : PropertyHeap} {address : Nat} {key : ObjString}
  {object : ObjObject} {value : Value}

private theorem deleteProperty_gone (sound : heap.Sound)
    (here : heap.objects[address]? = some object) (unfrozen : object.frozen = false)
    (own : csObjectGet heap.shapes object key = some (some value))
    (ran : deleteProperty heap address object key = some after) :
    ∃ table keys, after = setObject heap address
        { object with layout := .dictionary table keys } ∧
      Gone after address key { object with layout := .dictionary table keys } table keys := by
  have before := sound.objects address object here
  have held : ownOf heap.shapes object key = some value := by
    unfold ownOf
    rw [own]
    rfl
  obtain ⟨layout, flag, deleted, leftSound, left⟩ := csObjectDelete_sound sound.tree before key
  unfold deleteProperty at ran
  simp only [deleted, Option.bind_eq_bind, Option.bind_some] at ran
  cases ran
  cases layout with
  | slots shape values =>
      -- Without a change of layout the key would still be there.
      have same := csObjectDelete_layout deleted rfl
      rw [← same] at left
      have still : ownOf heap.shapes object key = none := by
        rw [left, Function.update_self]
      rw [held] at still
      cases still
  | dictionary table keys =>
      obtain ⟨items, holds⟩ := leftSound.bag
      have tableWf : table.WellFormed := holds.1
      have missing : table.lookup key = none := by
        have gone : ownOf heap.shapes { object with layout := .dictionary table keys } key =
            none := by rw [left, Function.update_self]
        have asked : (csTableGet table key).join = none := gone
        rw [csTableGet_eq tableWf] at asked
        exact asked
      have bound := (List.getElem?_eq_some_iff.mp here).1
      refine ⟨table, keys, rfl, setObject_here bound _, rfl, tableWf, ?_, unfrozen, ?_⟩
      · rw [csTableGet_eq tableWf, missing]
      · exact ⟨_, csObjectAttributes_eq leftSound.attributes key⟩

theorem deletes_gone {op : PropertyOp} (sound : heap.Sound)
    (here : heap.objects[address]? = some object)
    (own : csObjectGet heap.shapes object key = some (some value))
    (deletes : op.deletes cells address key)
    (ran : stepProperty cells heap op = some (after, .done (.bool true))) :
    ∃ table keys, after = setObject heap address
        { object with layout := .dictionary table keys } ∧
      Gone after address key { object with layout := .dictionary table keys } table keys := by
  cases op with
  | deleteProperty target name =>
      obtain ⟨rfl, rfl⟩ := deletes
      simp only [stepProperty, opDeleteProperty, here, Option.bind_eq_bind, Option.bind_some] at ran
      split at ran
      · cases ran
      · rename_i unfrozen
        obtain ⟨attributes, _, ran⟩ := Option.bind_eq_some_iff.mp ran
        split at ran
        · cases ran
        · obtain ⟨gone, deleted, finished⟩ := Option.bind_eq_some_iff.mp ran
          cases finished
          exact deleteProperty_gone sound here (Bool.eq_false_iff.mpr unfrozen) own deleted
  | deleteIndex target index =>
      obtain ⟨rfl, rfl, stringly⟩ := deletes
      simp only [stepProperty, opDeleteIndex, here, Option.bind_eq_bind, Option.bind_some] at ran
      split at ran
      · cases ran
      · rename_i unfrozen
        obtain ⟨gone, deleted, finished⟩ := Option.bind_eq_some_iff.mp ran
        cases finished
        exact deleteProperty_gone sound here (Bool.eq_false_iff.mpr unfrozen) own deleted
  | _ => cases deletes

/-- A delete that answers true, of a property an object has: it is really gone
exactly if the key had the default attributes and no accessor was ever made for
it on the class of the object's accessors. -/
theorem delete_removes_iff {ops : List AccessorOp} {state : AccessorHeap} {op : PropertyOp}
    (isMethod : Value → Bool) (reached : runAccessors cells ops .initial = some state)
    (here : state.heap.objects[address]? = some object)
    (own : csObjectGet state.heap.shapes object key = some (some value))
    (deletes : op.deletes cells address key)
    (ran : stepProperty cells state.heap op = some (after, .done (.bool true))) :
    ∃ now, after.objects[address]? = some now ∧
      (Removed (state.facts isMethod) cells after address key now ↔
        NotDescribed (state.facts isMethod) state.heap object key) := by
  have fine := runAccessors_fine cells AccessorHeap.initial_fine reached
  obtain ⟨table, keys, rfl, gone⟩ := deletes_gone fine.linked.sound here own deletes ran
  have plain : FactsPlain (state.facts isMethod) state.heap.classes :=
    fun holder listed => fine.plain holder (of_decide_eq_true listed)
  exact ⟨_, gone.here, removed_iff plain gone⟩

end

private def bareCells : Cells :=
  { bigints := fun _ => { negative := false, limbs := [] }
    symbolKey := fun _ => { chars := ascii "#symbol" }
    keyText := fun _ => { chars := [] } }

private def keyName : ObjString := { chars := ascii "x" }

private def written (getter : Bool) : List AccessorOp :=
  .write (.newObject { chars := ascii "object" } none) ::
    if getter then [.objectAccessor 1 true keyName 7]
    else [.write (.setIndex 1 (.obj (.string keyName)) (.bool true))]

private def writtenHeap (getter : Bool) : AccessorHeap :=
  (runAccessors bareCells (written getter) .initial).getD .initial

private theorem written_reached (getter : Bool) :
    runAccessors bareCells (written getter) .initial = some (writtenHeap getter) := by
  cases getter <;> decide +kernel

private def writtenObject (getter : Bool) : ObjObject :=
  ((writtenHeap getter).heap.objects[1]?).getD (csObjectNew keyName)

private def deletedHeap (getter : Bool) : PropertyHeap :=
  ((stepProperty bareCells (writtenHeap getter).heap (.deleteProperty 1 keyName)).map
    Prod.fst).getD .initial

private theorem written_deleted (getter : Bool) :
    (writtenHeap getter).heap.objects[1]? = some (writtenObject getter) ∧
      csObjectGet (writtenHeap getter).heap.shapes (writtenObject getter) keyName =
        some (some (if getter then objectValue accessorMarker else .bool true)) ∧
      stepProperty bareCells (writtenHeap getter).heap (.deleteProperty 1 keyName) =
        some (deletedHeap getter, .done (.bool true)) := by
  cases getter <;> decide +kernel

theorem delete_removes_iff_written :
    ∃ now, (deletedHeap false).objects[1]? = some now ∧
      Removed ((writtenHeap false).facts fun _ => false) bareCells (deletedHeap false) 1 keyName
        now := by
  obtain ⟨here, own, ran⟩ := written_deleted false
  have deletes : PropertyOp.deletes bareCells 1 keyName (.deleteProperty 1 keyName) := ⟨rfl, rfl⟩
  obtain ⟨now, nowHere, exactly⟩ := delete_removes_iff (fun _ => false) (written_reached false)
    here own deletes ran
  refine ⟨now, nowHere, exactly.mpr ⟨by decide +kernel, Or.inr ?_⟩⟩
  intro klass held
  have classless : (writtenObject false).klass = none := by decide +kernel
  rw [classless] at held
  cases held

/-- The getter of a literal still answers. -/
theorem deleted_getter_answers :
    ¬∀ (cells : Cells) (isMethod : Value → Bool) (ops : List AccessorOp) (state : AccessorHeap)
        (op : PropertyOp) (address : Nat) (key : ObjString) (object : ObjObject) (value : Value)
        (attributes : Nat) (after : PropertyHeap),
      runAccessors cells ops .initial = some state →
      state.heap.objects[address]? = some object →
      csObjectGet state.heap.shapes object key = some (some value) →
      csObjectAttributes object key = some attributes →
      attributes &&& CS_PROP_CONFIGURABLE ≠ 0 →
      op.deletes cells address key →
      stepProperty cells state.heap op = some (after, .done (.bool true)) →
      ∃ now, after.objects[address]? = some now ∧
        Removed (state.facts isMethod) cells after address key now := by
  intro claim
  obtain ⟨here, own, ran⟩ := written_deleted true
  obtain ⟨now, nowHere, removed⟩ := claim bareCells (fun _ => false) (written true)
    (writtenHeap true) (.deleteProperty 1 keyName) 1 keyName (writtenObject true) _
    CS_PROP_DEFAULT (deletedHeap true) (written_reached true) here own (by decide +kernel)
    (by decide) ⟨rfl, rfl⟩ ran
  have same : now = ((deletedHeap true).objects[1]?).getD (csObjectNew keyName) := by
    rw [nowHere]
    rfl
  subst same
  have answered := removed.absent ⟨keyName, emptyCache⟩ rfl (by decide) (by decide)
    (by decide +kernel)
  revert answered
  decide +kernel

end CScript
