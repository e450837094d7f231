/-
Reading a property by a computed key.

A dotted read and a computed one find a property by walks of their own.  The
computed one takes what the nearest object of the prototype chain has stored
under the key, and asks nothing else of the chain: not its classes, not the
link itself, and not whether what it found is the stand-in of an accessor.
-/

import CScript.Runtime.AccessorHolders

namespace CScript

/-! ### `OP_GET_INDEX` -/

/-- Own properties first, then the chain. -/
def csObjectGetInherited (heap : PropertyHeap) (key : ObjString) :
    Nat → Option Nat → Option (Option Value)
  | _, none => some none
  | 0, some _ => none
  | fuel + 1, some address => do
      let link ← heap.objects[address]?
      match ← csObjectGet heap.shapes link key with
      | some found => return some found
      | none => csObjectGetInherited heap key fuel link.prototype

/-- `OP_GET_INDEX`, on an object. -/
def opGetIndex (cells : Cells) (heap : PropertyHeap) (address : Nat) (index : Value) :
    Option ReadAnswer :=
  match index with
  | .obj (.cell .symbol symbol) => do
      let object ← heap.objects[address]?
      let found ← csObjectGetPrivate object (cells.symbolKey symbol)
      return .value (found.getD .undefined)
  | key => do
      let found ← csObjectGetInherited heap (objectKeyFor cells key) (heap.objects.length + 1)
        (some address)
      return .value (found.getD .undefined)

/-! ### Looking along a prototype chain -/

/-- The nearest object of a chain that is looked for; a chain longer than the
number of objects never ends. -/
def nearest (objects : List ObjObject) (sought : ObjObject → Bool) :
    Nat → Option Nat → Option (Option ObjObject)
  | _, none => some none
  | 0, some _ => none
  | fuel + 1, some address => do
      let link ← objects[address]?
      if sought link then return some link
      else nearest objects sought fuel link.prototype

def PropertyHeap.nearest (heap : PropertyHeap) (sought : ObjObject → Bool) (address : Nat) :
    Option (Option ObjObject) :=
  CScript.nearest heap.objects sought (heap.objects.length + 1) (some address)

def PropertyHeap.stores (heap : PropertyHeap) (name : ObjString) (link : ObjObject) : Bool :=
  (ownOf heap.shapes link name).isSome

def PropertyHeap.declares (heap : PropertyHeap) (name : ObjString) (link : ObjObject) : Bool :=
  link.klass.any (fun klass =>
    !(decide (csClassFindGetter heap.classes klass name = some none) &&
      decide (csClassFindMethod heap.classes klass name = some none)))

section

variable (facts : ReadFacts)

/-- The class that made the object, or the function `new` was applied to. -/
def builderOf (link : ObjObject) : Option Value :=
  match link.klass.filter (fun klass => !facts.isAccessorHolder klass) with
  | some klass => some (.obj (.cell .class_ klass))
  | none => ownPrivateOf link { chars := ascii "#constructor" }

/-- What a chain stores under `constructor` is what built its objects. -/
def StoresBuilder (heap : PropertyHeap) (name : ObjString) (address : Nat) : Prop :=
  ∃ stored built : Option ObjObject,
    heap.nearest (heap.stores name) address = some stored ∧
    heap.nearest (fun link => (builderOf facts link).isSome) address = some built ∧
    (stored.bind (fun link => ownOf heap.shapes link name)).getD .undefined =
      (built.bind (builderOf facts)).getD .undefined ∧
    (built.bind (builderOf facts)).getD .undefined ≠ objectValue accessorMarker

/-- The object has a prototype, and its chain stores that under `__proto__`. -/
def StoresPrototype (heap : PropertyHeap) (name : ObjString) (address : Nat)
    (object : ObjObject) : Prop :=
  ∃ (above : Nat) (link : ObjObject), object.prototype = some above ∧ above ≠ accessorMarker ∧
    heap.nearest (heap.stores name) address = some (some link) ∧
    ownOf heap.shapes link name = some (objectValue above)

def StoresPlain (heap : PropertyHeap) (name : ObjString) (link : ObjObject) : Prop :=
  ∃ value, ownOf heap.shapes link name = some value ∧ value ≠ objectValue accessorMarker ∧
    facts.isMethod value = false

def StoresData (heap : PropertyHeap) (name : ObjString) (fuel : Nat) (link : Option Nat) : Prop :=
  ∃ answering : Option ObjObject,
    nearest heap.objects (fun link => heap.stores name link || heap.declares name link) fuel link =
      some answering ∧
    ∀ link ∈ answering, StoresPlain facts heap name link

def StoredPlainly (heap : PropertyHeap) (name : ObjString) (address : Nat) (object : ObjObject) :
    Prop :=
  match ownOf heap.shapes object name with
  | some value => value ≠ objectValue accessorMarker
  | none =>
      if name.chars = ascii "constructor" then StoresBuilder facts heap name address
      else if isProtoKey name then StoresPrototype heap name address object
      else StoresData facts heap name (heap.objects.length + 1) (some address)

end

/-! ### What the walks find -/

section

variable {facts : ReadFacts} {heap : PropertyHeap} {address : Nat} {object : ObjObject}
  {name : ObjString} {cells : Cells}

theorem csObjectGet_sound (sound : heap.Sound) (here : heap.objects[address]? = some object)
    (name : ObjString) :
    csObjectGet heap.shapes object name = some (ownOf heap.shapes object name) := by
  obtain ⟨items, holds⟩ := (sound.objects address object here).bag
  rw [ownOf_eq sound.tree holds]
  exact csObjectGet_eq sound.tree holds name

theorem csObjectGetPrivate_sound (sound : heap.Sound)
    (here : heap.objects[address]? = some object) (name : ObjString) :
    csObjectGetPrivate object name = some (ownPrivateOf object name) := by
  unfold ownPrivateOf csObjectGetPrivate
  cases own : object.privates with
  | none => rfl
  | some table =>
      simp only [csTableGet_eq ((sound.objects address object here).privates table own),
        Option.join_some]

theorem csObjectGetInherited_nearest (sound : heap.Sound) (name : ObjString) (fuel : Nat)
    (link : Option Nat) :
    csObjectGetInherited heap name fuel link =
      (nearest heap.objects (heap.stores name) fuel link).map
        (fun found => found.bind (fun link => ownOf heap.shapes link name)) := by
  induction fuel generalizing link with
  | zero => cases link <;> rfl
  | succ fuel ih =>
      cases link with
      | none => rfl
      | some at_ =>
          unfold csObjectGetInherited nearest
          cases here : heap.objects[at_]? with
          | none => rfl
          | some link =>
              simp only [Option.bind_eq_bind, Option.bind_some, csObjectGet_sound sound here]
              cases own : ownOf heap.shapes link name with
              | none =>
                  have passed : heap.stores name link = false := by
                    rw [PropertyHeap.stores, own]
                    rfl
                  simp only [passed, Bool.false_eq_true, if_false]
                  exact ih link.prototype
              | some found =>
                  have stops : heap.stores name link = true := by
                    rw [PropertyHeap.stores, own]
                    rfl
                  simp only [stops, if_true, Option.pure_def, Option.map_some, Option.bind_some,
                    own]

theorem opGetIndex_string (cells : Cells) (name : ObjString) (address : Nat) :
    opGetIndex cells heap address (.obj (.string name)) =
      (csObjectGetInherited heap name (heap.objects.length + 1) (some address)).map
        (fun found => .value (found.getD .undefined)) := by
  simp only [opGetIndex, objectKeyFor]
  cases csObjectGetInherited heap name (heap.objects.length + 1) (some address) <;> rfl

theorem opGetIndex_nearest (sound : heap.Sound) (cells : Cells) (name : ObjString)
    (address : Nat) :
    opGetIndex cells heap address (.obj (.string name)) =
      (heap.nearest (heap.stores name) address).map (fun found =>
        .value ((found.bind (fun link => ownOf heap.shapes link name)).getD .undefined)) := by
  rw [opGetIndex_string, csObjectGetInherited_nearest sound, Option.map_map]
  rfl

theorem constructorOf_nearest (sound : heap.Sound) (fuel : Nat) (link : Option Nat) :
    constructorOf facts heap fuel link =
      (nearest heap.objects (fun link => (builderOf facts link).isSome) fuel link).map
        (fun found => (found.bind (builderOf facts)).getD .undefined) := by
  induction fuel generalizing link with
  | zero => cases link <;> rfl
  | succ fuel ih =>
      cases link with
      | none => rfl
      | some at_ =>
          unfold constructorOf nearest
          cases here : heap.objects[at_]? with
          | none => rfl
          | some link =>
              simp only [Option.bind_eq_bind, Option.bind_some,
                csObjectGetPrivate_sound sound here]
              cases made : link.klass.filter (fun klass => !facts.isAccessorHolder klass) with
              | some klass =>
                  simp only [builderOf, made, Option.isSome_some, if_true, Option.pure_def,
                    Option.map_some, Option.bind_some, Option.getD_some]
              | none =>
                  cases owner : ownPrivateOf link { chars := ascii "#constructor" } with
                  | some owner =>
                      simp only [builderOf, made, owner, Option.isSome_some, if_true,
                        Option.pure_def, Option.map_some, Option.bind_some, Option.getD_some]
                  | none =>
                      simp only [builderOf, made, owner, Option.isSome_none, Bool.false_eq_true,
                        if_false]
                      exact ih link.prototype

theorem linkMember_undeclared {link : ObjObject} (undeclared : heap.declares name link = false)
    (receiver : Nat) : linkMember heap link name receiver = some none := by
  unfold PropertyHeap.declares at undeclared
  unfold linkMember
  cases made : link.klass with
  | none => rfl
  | some klass =>
      rw [made] at undeclared
      simp only [Option.any_some, Bool.not_eq_false', Bool.and_eq_true,
        decide_eq_true_eq] at undeclared
      simp only [undeclared.1, undeclared.2, Option.bind_eq_bind, Option.bind_some, Option.pure_def,
        Option.map_none]

theorem linkMember_declared {link : ObjObject} (declared : heap.declares name link = true)
    {receiver : Nat} {member : Option ReadAnswer}
    (found : linkMember heap link name receiver = some member) :
    ∃ answer, member = some answer ∧ ∀ value, answer ≠ .value value := by
  unfold PropertyHeap.declares at declared
  unfold linkMember at found
  cases made : link.klass with
  | none =>
      rw [made] at declared
      cases declared
  | some klass =>
      rw [made] at declared
      simp only [made] at found
      obtain ⟨getter, gets, found⟩ := Option.bind_eq_some_iff.mp found
      cases getter with
      | some getter =>
          cases found
          exact ⟨_, rfl, fun value wrong => by cases wrong⟩
      | none =>
          obtain ⟨method, methods, found⟩ := Option.bind_eq_some_iff.mp found
          cases found
          cases method with
          | some method => exact ⟨_, rfl, fun value wrong => by cases wrong⟩
          | none =>
              rw [Option.any_some, gets, methods] at declared
              cases declared

theorem dataProperty_sound (sound : heap.Sound) (here : heap.objects[address]? = some object)
    (name : ObjString) :
    dataProperty heap object name =
      some ((ownOf heap.shapes object name).filter (fun value => !csVMIsAccessorSlot value)) := by
  unfold dataProperty
  rw [csObjectGet_sound sound here]
  rfl

/-! ### Agreement -/

def Agreed (dotted indexed : Option ReadAnswer) : Prop :=
  ∃ answer, dotted = some answer ∧ indexed = some answer ∧
    answer ≠ .value (objectValue accessorMarker)

theorem agreed_values {dotted indexed : Value} :
    Agreed (some (.value dotted)) (some (.value indexed)) ↔
      indexed = dotted ∧ dotted ≠ objectValue accessorMarker := by
  constructor
  · rintro ⟨answer, dottedSame, indexedSame, shown⟩
    cases dottedSame
    cases indexedSame
    exact ⟨rfl, fun wrong => shown (congrArg ReadAnswer.value wrong)⟩
  · rintro ⟨rfl, shown⟩
    exact ⟨.value indexed, rfl, rfl, fun wrong => shown (ReadAnswer.value.inj wrong)⟩

/-- The loop of `propertyReadSlow` beside that of `csObjectGetInherited`, for an
object that has nothing of its own under the name. -/
theorem readChain_agreed (sound : heap.Sound) (here : heap.objects[address]? = some object)
    (lacking : ownOf heap.shapes object name = none) (fuel : Nat) (link : Option Nat) :
    Agreed (readChain facts heap name address fuel link)
        ((csObjectGetInherited heap name fuel link).map
          (fun found => .value (found.getD .undefined))) ↔
      StoresData facts heap name fuel link := by
  have ended : Agreed (some (.value .undefined)) (some (.value .undefined)) ↔
      ∃ answering : Option ObjObject, some none = some answering ∧
        ∀ link ∈ answering, StoresPlain facts heap name link := by
    refine ⟨fun _ => ⟨none, rfl, fun link wrong => by cases wrong⟩, fun _ => ?_⟩
    exact agreed_values.mpr ⟨rfl, by decide⟩
  have stuck : ∀ indexed, Agreed none indexed ↔ ∃ answering : Option ObjObject,
      none = some answering ∧ ∀ link ∈ answering, StoresPlain facts heap name link := by
    intro indexed
    constructor
    · rintro ⟨answer, wrong, _⟩
      cases wrong
    · rintro ⟨answering, wrong, _⟩
      cases wrong
  unfold StoresData at *
  induction fuel generalizing link with
  | zero =>
      cases link with
      | none => exact ended
      | some at_ => exact stuck _
  | succ fuel ih =>
      cases link with
      | none => exact ended
      | some at_ =>
          unfold readChain csObjectGetInherited nearest
          cases linkHere : heap.objects[at_]? with
          | none => exact stuck _
          | some link =>
              simp only [Option.bind_eq_bind, Option.bind_some, csObjectGet_sound sound linkHere,
                dataProperty_sound sound linkHere]
              cases own : ownOf heap.shapes link name with
              | some found =>
                  have other : at_ ≠ address := by
                    rintro rfl
                    rw [here] at linkHere
                    cases linkHere
                    rw [lacking] at own
                    cases own
                  have stops : heap.stores name link = true := by
                    rw [PropertyHeap.stores, own]
                    rfl
                  simp only [if_neg other, stops, Bool.true_or, if_true, Option.pure_def,
                    Option.map_some, Option.getD_some]
                  constructor
                  · rintro ⟨answer, dotted, indexed, shown⟩
                    cases indexed
                    have data : found ≠ objectValue accessorMarker :=
                      fun wrong => shown (congrArg ReadAnswer.value wrong)
                    refine ⟨some link, rfl, fun answering same => ?_⟩
                    cases same
                    refine ⟨found, own, data, ?_⟩
                    simp only [Option.filter, csVMIsAccessorSlot, decide_eq_false data,
                      Bool.not_false, if_true] at dotted
                    unfold bindIfMethod at dotted
                    cases method : facts.isMethod found with
                    | false => rfl
                    | true =>
                        rw [if_pos method] at dotted
                        cases dotted
                  · rintro ⟨answering, same, plain⟩
                    cases same
                    obtain ⟨value, stored, data, unbound⟩ := plain link rfl
                    rw [own] at stored
                    cases stored
                    simp only [Option.filter, csVMIsAccessorSlot, decide_eq_false data,
                      Bool.not_false, if_true, bindIfMethod, unbound, Bool.false_eq_true, if_false]
                    exact agreed_values.mpr ⟨rfl, data⟩
              | none =>
                  have passes : heap.stores name link = false := by
                    rw [PropertyHeap.stores, own]
                    rfl
                  simp only [Option.filter_none, ite_self, passes, Bool.false_or]
                  cases declared : heap.declares name link with
                  | false =>
                      simp only [linkMember_undeclared declared, Bool.false_eq_true, if_false,
                        Option.bind_some]
                      exact ih link.prototype
                  | true =>
                      simp only [if_true, Option.pure_def]
                      constructor
                      · rintro ⟨answer, dotted, indexed, _⟩
                        obtain ⟨member, found, dotted⟩ := Option.bind_eq_some_iff.mp dotted
                        obtain ⟨called, rfl, never⟩ := linkMember_declared declared found
                        cases dotted
                        obtain ⟨value, _, same⟩ := Option.map_eq_some_iff.mp indexed
                        exact absurd same.symm (never _)
                      · rintro ⟨answering, same, plain⟩
                        cases same
                        obtain ⟨value, stored, _⟩ := plain link rfl
                        rw [own] at stored
                        cases stored

theorem propertyReadSlow_own (sound : heap.Sound) (here : heap.objects[address]? = some object)
    {site : Site} {value : Value} (own : ownOf heap.shapes object site.name = some value)
    (data : value ≠ objectValue accessorMarker) :
    (propertyReadSlow facts heap site address object).map Prod.snd = some (.value value) := by
  have got := csObjectGet_sound sound here site.name
  rw [own] at got
  have around : readAround facts heap site.name address object = some (.value value) := by
    unfold readAround
    simp only [dataProperty_sound sound here, own, Option.filter, csVMIsAccessorSlot,
      decide_eq_false data, Bool.not_false, if_true, Option.bind_eq_bind, Option.bind_some,
      Option.pure_def]
  unfold propertyReadSlow
  cases mode : object.layout with
  | dictionary table keys =>
      rw [around]
      rfl
  | slots shape values =>
      simp only [csObjectGet, mode] at got
      obtain ⟨layout, layoutHere, got⟩ := Option.bind_eq_some_iff.mp got
      obtain ⟨found, looked, got⟩ := Option.bind_eq_some_iff.mp got
      cases found with
      | none => cases got
      | some slot =>
          obtain ⟨written, inside, got⟩ := Option.bind_eq_some_iff.mp got
          obtain ⟨held, filled, got⟩ := Option.bind_eq_some_iff.mp got
          cases got
          subst filled
          simp only [layoutHere, looked, inside, Option.bind_eq_bind, Option.bind_some,
            Option.pure_def, Option.map_some]

theorem propertyReadSlow_lacking (sound : heap.Sound)
    (here : heap.objects[address]? = some object) {site : Site}
    (lacking : ownOf heap.shapes object site.name = none) :
    (propertyReadSlow facts heap site address object).map Prod.snd =
      readAround facts heap site.name address object := by
  have got := csObjectGet_sound sound here site.name
  rw [lacking] at got
  have around : ∀ cache : PropertyCache,
      ((readAround facts heap site.name address object).map
        (fun answer => (cache, answer))).map Prod.snd =
      readAround facts heap site.name address object := by
    intro cache
    rw [Option.map_map]
    exact Option.map_id'
  unfold propertyReadSlow
  cases mode : object.layout with
  | dictionary table keys => exact around site.cache
  | slots shape values =>
      simp only [csObjectGet, mode] at got
      obtain ⟨layout, layoutHere, got⟩ := Option.bind_eq_some_iff.mp got
      obtain ⟨found, looked, got⟩ := Option.bind_eq_some_iff.mp got
      cases found with
      | none =>
          simp only [layoutHere, looked, Option.bind_eq_bind, Option.bind_some]
          exact around site.cache
      | some slot =>
          obtain ⟨written, _, got⟩ := Option.bind_eq_some_iff.mp got
          obtain ⟨held, _, got⟩ := Option.bind_eq_some_iff.mp got
          cases got

/-! ### Names that are not looked up by a dotted read -/

theorem constructor_agreed (sound : heap.Sound) (name : ObjString) (address : Nat) :
    Agreed ((constructorOf facts heap (heap.objects.length + 1) (some address)).map .value)
        (opGetIndex cells heap address (.obj (.string name))) ↔
      StoresBuilder facts heap name address := by
  rw [constructorOf_nearest sound, opGetIndex_nearest sound, Option.map_map]
  unfold StoresBuilder PropertyHeap.nearest
  cases nearest heap.objects (fun link => (builderOf facts link).isSome)
      (heap.objects.length + 1) (some address) with
  | none =>
      constructor
      · rintro ⟨answer, wrong, _⟩
        cases wrong
      · rintro ⟨stored, built, _, wrong, _⟩
        cases wrong
  | some built =>
      cases nearest heap.objects (heap.stores name) (heap.objects.length + 1) (some address) with
      | none =>
          constructor
          · rintro ⟨answer, _, wrong, _⟩
            cases wrong
          · rintro ⟨stored, other, wrong, _⟩
            cases wrong
      | some stored =>
          constructor
          · intro agreed
            obtain ⟨same, shown⟩ := agreed_values.mp agreed
            exact ⟨stored, built, rfl, rfl, same, shown⟩
          · rintro ⟨one, other, storedSame, builtSame, same, shown⟩
            cases storedSame
            cases builtSame
            exact agreed_values.mpr ⟨same, shown⟩

theorem nearest_alone (here : heap.objects[address]? = some object)
    (lacking : ownOf heap.shapes object name = none) (alone : object.prototype = none) :
    heap.nearest (heap.stores name) address = some none := by
  have passes : heap.stores name object = false := by
    rw [PropertyHeap.stores, lacking]
    rfl
  unfold PropertyHeap.nearest nearest
  simp only [here, Option.bind_eq_bind, Option.bind_some, passes, Bool.false_eq_true, if_false,
    alone]
  cases heap.objects.length <;> rfl

theorem prototype_agreed (sound : heap.Sound) (here : heap.objects[address]? = some object)
    (lacking : ownOf heap.shapes object name = none) :
    Agreed (some (.value (object.prototype.elim .null objectValue)))
        (opGetIndex cells heap address (.obj (.string name))) ↔
      StoresPrototype heap name address object := by
  rw [opGetIndex_nearest sound]
  unfold StoresPrototype
  constructor
  · rintro ⟨answer, dotted, indexed, shown⟩
    cases dotted
    obtain ⟨found, searched, same⟩ := Option.map_eq_some_iff.mp indexed
    have read := ReadAnswer.value.inj same
    cases linked : object.prototype with
    | none =>
        rw [nearest_alone here lacking linked] at searched
        cases searched
        rw [linked] at read
        cases read
    | some above =>
        rw [linked] at read shown
        cases found with
        | none => cases read
        | some link =>
            refine ⟨above, link, rfl, fun marked => shown (by rw [marked]; rfl), searched, ?_⟩
            cases own : ownOf heap.shapes link name with
            | none =>
                rw [Option.bind_some, own] at read
                cases read
            | some stored =>
                rw [Option.bind_some, own] at read
                exact congrArg some read
  · rintro ⟨above, link, linked, unmarked, searched, stored⟩
    rw [searched, linked]
    simp only [Option.map_some, Option.bind_some, stored, Option.getD_some, Option.elim_some]
    refine agreed_values.mpr ⟨rfl, fun wrong => unmarked ?_⟩
    simpa [objectValue] using wrong

theorem opGetProperty_answer {state : CachedHeap} (fine : state.Fine) {reader : Nat}
    {site : Site} (siteHere : state.readers[reader]? = some site)
    (here : state.heap.objects[address]? = some object) :
    (opGetProperty facts state reader address).map Prod.snd =
      (propertyReadSlow facts state.heap site address object).map Prod.snd := by
  have transparent : Transparent facts state (.get reader address) :=
    get_transparent fine reader address
  have same := congrArg (Option.map Prod.snd) transparent
  rw [Option.map_map, Option.map_map] at same
  have uncached : readUncached facts state reader address =
      (propertyReadSlow facts state.heap { site with cache := emptyCache } address object).map
        (fun taught =>
          (state.teach reader { site with cache := emptyCache } taught.1, taught.2)) := by
    unfold readUncached readAndLearn
    simp only [siteHere, here, Option.bind_eq_bind, Option.bind_some]
    cases propertyReadSlow facts state.heap { site with cache := emptyCache } address object <;> rfl
  rw [uncached, Option.map_map] at same
  rw [propertyReadSlow_emptied]
  exact same

theorem opGetProperty_heap {state after : CachedHeap} {reader : Nat} {answer : ReadAnswer}
    (got : opGetProperty facts state reader address = some (after, answer)) :
    after.heap = state.heap := by
  unfold opGetProperty at got
  obtain ⟨site, _, got⟩ := Option.bind_eq_some_iff.mp got
  obtain ⟨object, _, got⟩ := Option.bind_eq_some_iff.mp got
  split at got
  · obtain ⟨value, _, got⟩ := Option.bind_eq_some_iff.mp got
    cases got
    rfl
  · obtain ⟨taught, _, got⟩ := Option.bind_eq_some_iff.mp got
    cases got
    rfl

theorem reads_agree_iff {state : CachedHeap} (fine : state.Fine) {reader : Nat} {site : Site}
    (siteHere : state.readers[reader]? = some site)
    (here : state.heap.objects[address]? = some object) :
    Agreed ((opGetProperty facts state reader address).map Prod.snd)
        (opGetIndex cells state.heap address (.obj (.string site.name))) ↔
      StoredPlainly facts state.heap site.name address object := by
  have sound := fine.heap.sound
  rw [opGetProperty_answer fine siteHere here]
  unfold StoredPlainly
  cases own : ownOf state.heap.shapes object site.name with
  | some value =>
      have indexed : opGetIndex cells state.heap address (.obj (.string site.name)) =
          some (.value value) := by
        rw [opGetIndex_string, csObjectGetInherited]
        simp only [here, Option.bind_eq_bind, Option.bind_some, csObjectGet_sound sound here, own]
        rfl
      rw [indexed]
      constructor
      · rintro ⟨answer, _, same, shown⟩ marked
        cases same
        exact shown (congrArg ReadAnswer.value marked)
      · intro data
        rw [propertyReadSlow_own sound here own data]
        exact agreed_values.mpr ⟨rfl, data⟩
  | none =>
      have data : dataProperty state.heap object site.name = some none := by
        rw [dataProperty_sound sound here, own]
        rfl
      rw [propertyReadSlow_lacking sound here own]
      unfold readAround
      simp only [data, Option.bind_eq_bind, Option.bind_some]
      split
      · exact constructor_agreed sound site.name address
      · split
        · exact prototype_agreed sound here own
        · rw [opGetIndex_string]
          exact readChain_agreed sound here own _ _

end

/-! ### Runs -/

structure ReadHeap where
  cached : CachedHeap
  holders : List Nat
  deriving DecidableEq, Repr

def ReadHeap.initial : ReadHeap :=
  { cached := CachedHeap.initial, holders := [] }

def ReadHeap.accessors (state : ReadHeap) : AccessorHeap :=
  { heap := state.cached.heap, holders := state.holders }

def ReadHeap.facts (state : ReadHeap) (isMethod : Value → Bool) : ReadFacts :=
  state.accessors.facts isMethod

def ReadHeap.write (state : ReadHeap) (after : AccessorHeap) : ReadHeap :=
  { cached := { state.cached with heap := after.heap }, holders := after.holders }

inductive ReadOp where
  | write (op : AccessorOp)
  | newReader (name : ObjString)
  | getProperty (reader receiver : Nat)
  deriving DecidableEq, Repr

section

variable (cells : Cells) (isMethod : Value → Bool)

def stepReads (state : ReadHeap) : ReadOp → Option ReadHeap
  | .write op => (stepAccessors cells state.accessors op).map state.write
  | .newReader name =>
      (stepCached (state.facts isMethod) cells state.cached (.newReader name)).map
        (fun cached => { state with cached := cached })
  | .getProperty reader receiver =>
      (stepCached (state.facts isMethod) cells state.cached (.getProperty reader receiver)).map
        (fun cached => { state with cached := cached })

def runReads : List ReadOp → ReadHeap → Option ReadHeap
  | [], state => some state
  | op :: rest, state => do
      let after ← stepReads cells isMethod state op
      runReads rest after

end

structure ReadHeap.Fine (state : ReadHeap) : Prop where
  cached : state.cached.Fine
  plain : HoldersPlain state.holders state.cached.heap.classes

theorem ReadHeap.initial_fine : ReadHeap.initial.Fine where
  cached := CScript.initial_fine
  plain := AccessorHeap.initial_fine.plain

section

variable {cells : Cells} {isMethod : Value → Bool}

theorem stepAccessors_grow {state after : AccessorHeap} (fine : state.Fine) {op : AccessorOp}
    (ran : stepAccessors cells state op = some after) :
    ShapesGrow state.heap.shapes after.heap.shapes := by
  cases op with
  | write op =>
      simp only [stepAccessors] at ran
      split at ran
      · cases ran
      · obtain ⟨⟨heap, outcome⟩, stepped, finished⟩ := Option.bind_eq_some_iff.mp ran
        have grow := (stepProperty_linked cells fine.linked stepped).2
        dsimp only at finished
        split at finished <;> cases finished <;> exact grow
  | method klass name closure =>
      simp only [stepAccessors] at ran
      split at ran
      · cases ran
      · obtain ⟨heap, stepped, finished⟩ := Option.map_eq_some_iff.mp ran
        cases finished
        obtain ⟨holder, _, stepped⟩ := Option.bind_eq_some_iff.mp stepped
        obtain ⟨set, _, stepped⟩ := Option.bind_eq_some_iff.mp stepped
        cases stepped
        exact ShapesGrow.refl _
  | objectAccessor target isGetter name closure =>
      obtain ⟨heap, stepped, finished⟩ := Option.map_eq_some_iff.mp ran
      cases finished
      unfold opObjectAccessor at stepped
      obtain ⟨object, _, stepped⟩ := Option.bind_eq_some_iff.mp stepped
      obtain ⟨holder, _, stepped⟩ := Option.bind_eq_some_iff.mp stepped
      obtain ⟨getters, _, stepped⟩ := Option.bind_eq_some_iff.mp stepped
      obtain ⟨setters, _, stepped⟩ := Option.bind_eq_some_iff.mp stepped
      obtain ⟨left, _, stepped⟩ := Option.bind_eq_some_iff.mp stepped
      obtain ⟨⟨shapes, marked⟩, put, stepped⟩ := Option.bind_eq_some_iff.mp stepped
      cases stepped
      exact (csObjectPut_grow fine.linked.sound.tree put).1

theorem stepReads_fine {state after : ReadHeap} (fine : state.Fine) {op : ReadOp}
    (ran : stepReads cells isMethod state op = some after) : after.Fine := by
  cases op with
  | write op =>
      obtain ⟨written, stepped, finished⟩ := Option.map_eq_some_iff.mp ran
      cases finished
      have before : state.accessors.Fine := ⟨fine.cached.heap, fine.plain⟩
      have kept := stepAccessors_fine cells before stepped
      have grow := stepAccessors_grow before stepped
      exact ⟨⟨kept.linked, fun index site here =>
        (fine.cached.readers index site here).grow grow⟩, kept.plain⟩
  | newReader name =>
      cases ran
      have stepped : stepCached (state.facts isMethod) cells state.cached (.newReader name) =
        some _ := rfl
      exact ⟨stepCached_fine fine.cached stepped, fine.plain⟩
  | getProperty reader receiver =>
      obtain ⟨cached, stepped, finished⟩ := Option.map_eq_some_iff.mp ran
      cases finished
      refine ⟨stepCached_fine fine.cached stepped, ?_⟩
      obtain ⟨⟨reached, answer⟩, got, stepped⟩ := Option.map_eq_some_iff.mp stepped
      cases stepped
      rw [show reached.heap = state.cached.heap from opGetProperty_heap got]
      exact fine.plain

theorem runReads_fine {state after : ReadHeap} (fine : state.Fine) {ops : List ReadOp}
    (ran : runReads cells isMethod ops state = some after) : after.Fine := by
  induction ops generalizing state with
  | nil =>
      cases ran
      exact fine
  | cons op rest ih =>
      obtain ⟨middle, stepped, ran⟩ := Option.bind_eq_some_iff.mp ran
      exact ih (stepReads_fine fine stepped) ran

/-- In every state a run reaches, a dotted and a computed read of an object have
the same answer, and never the stand-in, exactly where the property is stored
plainly. -/
theorem computedRead_agrees_iff {ops : List ReadOp} {state : ReadHeap}
    (ran : runReads cells isMethod ops ReadHeap.initial = some state)
    {reader address : Nat} {site : Site} {object : ObjObject}
    (siteHere : state.cached.readers[reader]? = some site)
    (here : state.cached.heap.objects[address]? = some object) :
    Agreed ((opGetProperty (state.facts isMethod) state.cached reader address).map Prod.snd)
        (opGetIndex cells state.cached.heap address (.obj (.string site.name))) ↔
      StoredPlainly (state.facts isMethod) state.cached.heap site.name address object :=
  reads_agree_iff (runReads_fine ReadHeap.initial_fine ran).cached siteHere here

end

private def unboundMethods : Value → Bool := fun _ => false

private def plainTexts : Cells :=
  { bigints := fun _ => { negative := false, limbs := [] }
    symbolKey := fun _ => { chars := ascii "symbol" }
    keyText := fun _ => { chars := [] } }

private def readX : ObjString := { chars := ascii "x" }

/-- An object that inherits from one with a property `x`: a value, or the getter
of a literal. -/
private def inheriting (getter : Bool) : List ReadOp :=
  [.newReader readX, .write (.write (.newObject { chars := ascii "object" } none)),
    if getter then .write (.objectAccessor 1 true readX 7)
    else .write (.write (.setIndex 1 (.obj (.string readX)) (.bool true))),
    .write (.write (.newObject { chars := ascii "object" } (some 1)))]

private theorem inheriting_reached (getter : Bool) :
    ∃ state object, runReads plainTexts unboundMethods (inheriting getter) ReadHeap.initial =
        some state ∧
      state.cached.readers[0]? = some { name := readX, cache := emptyCache } ∧
      state.cached.heap.objects[2]? = some object ∧
      opGetIndex plainTexts state.cached.heap 2 (.obj (.string readX)) =
        some (.value (if getter then objectValue accessorMarker else .bool true)) ∧
      (opGetProperty (state.facts unboundMethods) state.cached 0 2).map Prod.snd =
        some (if getter then .call (.obj (.cell .closure 7)) 2 else .value (.bool true)) := by
  have passes : (runReads plainTexts unboundMethods (inheriting getter) ReadHeap.initial).any
      (fun state => (state.cached.heap.objects[2]?).any (fun _ =>
        decide (state.cached.readers[0]? = some { name := readX, cache := emptyCache }) &&
          (decide (opGetIndex plainTexts state.cached.heap 2 (.obj (.string readX)) =
            some (.value (if getter then objectValue accessorMarker else .bool true))) &&
          decide ((opGetProperty (state.facts unboundMethods) state.cached 0 2).map Prod.snd =
            some (if getter then .call (.obj (.cell .closure 7)) 2
              else .value (.bool true)))))) = true := by
    cases getter <;> decide
  obtain ⟨state, ran, holds⟩ := (Option.any_eq_true _ _).mp passes
  obtain ⟨object, here, holds⟩ := (Option.any_eq_true _ _).mp holds
  obtain ⟨readers, holds⟩ := Bool.and_eq_true_iff.mp holds
  obtain ⟨indexed, dotted⟩ := Bool.and_eq_true_iff.mp holds
  exact ⟨state, object, ran, of_decide_eq_true readers, here, of_decide_eq_true indexed,
    of_decide_eq_true dotted⟩

theorem computedRead_agrees_iff_inherited :
    ∃ state object, runReads plainTexts unboundMethods (inheriting false) ReadHeap.initial =
        some state ∧
      state.cached.heap.objects[2]? = some object ∧
      StoredPlainly (state.facts unboundMethods) state.cached.heap readX 2 object := by
  obtain ⟨state, object, ran, readers, here, indexed, dotted⟩ := inheriting_reached false
  refine ⟨state, object, ran, here, (computedRead_agrees_iff ran readers here).mp ?_⟩
  rw [indexed, dotted]
  exact agreed_values.mpr ⟨rfl, by decide⟩

/-- The getter of a prototype runs for `o.x`, and `o["x"]` is the stand-in. -/
theorem standIn_read :
    ¬∀ (cells : Cells) (isMethod : Value → Bool) (ops : List ReadOp) (state : ReadHeap),
      runReads cells isMethod ops ReadHeap.initial = some state →
      ∀ (reader address : Nat) (site : Site) (object : ObjObject),
        state.cached.readers[reader]? = some site →
        state.cached.heap.objects[address]? = some object →
        Agreed ((opGetProperty (state.facts isMethod) state.cached reader address).map Prod.snd)
          (opGetIndex cells state.cached.heap address (.obj (.string site.name))) := by
  intro claim
  obtain ⟨state, object, ran, readers, here, indexed, dotted⟩ := inheriting_reached true
  obtain ⟨answer, _, same, shown⟩ := claim plainTexts unboundMethods _ state ran 0 2 _ object
    readers here
  rw [indexed] at same
  cases same
  exact shown rfl

end CScript
