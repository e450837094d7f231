/-
Reading a property through the inline cache of a site.

Each instruction that reads or writes a property has a cache of its own, so the
sites that read are kept apart from those that write.
-/

import CScript.Runtime.PropertyOps

namespace CScript

/-! ### What a read looks at -/

structure ReadFacts where
  isAccessorHolder : Nat → Bool
  isMethod : Value → Bool

inductive ReadAnswer where
  | value (value : Value)
  /-- `csBoundMethodNew`. -/
  | bound (receiver : Nat) (method : Value)
  /-- The getter runs with this receiver. -/
  | call (getter : Value) (receiver : Nat)
  deriving DecidableEq, Repr

def csClassFindMethod (classes : List ObjClass) (klass : Nat) (name : ObjString) :
    Option (Option Value) :=
  findAccessor classes ObjClass.methods name (classes.length + 1) (some klass)

section

variable (facts : ReadFacts)

def bindIfMethod (receiver : Nat) (found : Value) : ReadAnswer :=
  if facts.isMethod found then .bound receiver found else .value found

/-- `constructor`: the class of the nearest link, or the function `new` was
applied to. -/
def constructorOf (heap : PropertyHeap) : Nat → Option Nat → Option Value
  | _, none => some .undefined
  | 0, some _ => none
  | fuel + 1, some address => do
      let link ← heap.objects[address]?
      match link.klass.filter (fun klass => !facts.isAccessorHolder klass) with
      | some klass => return .obj (.cell .class_ klass)
      | none => do
          match ← csObjectGetPrivate link { chars := ascii "#constructor" } with
          | some owner => return owner
          | none => constructorOf heap fuel link.prototype

def dataProperty (heap : PropertyHeap) (object : ObjObject) (name : ObjString) :
    Option (Option Value) := do
  let stored ← csObjectGet heap.shapes object name
  return stored.filter (fun value => !csVMIsAccessorSlot value)

def linkMember (heap : PropertyHeap) (link : ObjObject) (name : ObjString) (receiver : Nat) :
    Option (Option ReadAnswer) :=
  match link.klass with
  | none => some none
  | some klass => do
      match ← csClassFindGetter heap.classes klass name with
      | some getter => return some (.call getter receiver)
      | none => do
          let method ← csClassFindMethod heap.classes klass name
          return method.map (.bound receiver)

/-- The loop of `propertyReadSlow` up the prototype chain. -/
def readChain (heap : PropertyHeap) (name : ObjString) (receiver : Nat) :
    Nat → Option Nat → Option ReadAnswer
  | _, none => some (.value .undefined)
  | 0, some _ => none
  | fuel + 1, some address => do
      let link ← heap.objects[address]?
      -- The object's own data properties have been looked at.
      let data ← if address = receiver then some none else dataProperty heap link name
      match data with
      | some found => return bindIfMethod facts receiver found
      | none => do
          match ← linkMember heap link name receiver with
          | some answer => return answer
          | none => readChain heap name receiver fuel link.prototype

/-- What `propertyReadSlow` does once the shape does not have the name. -/
def readAround (heap : PropertyHeap) (name : ObjString) (address : Nat) (object : ObjObject) :
    Option ReadAnswer := do
  match ← dataProperty heap object name with
  | some found => return .value found
  | none =>
      if name.chars = ascii "constructor" then
        (constructorOf facts heap (heap.objects.length + 1) (some address)).map .value
      else if isProtoKey name then
        return .value (object.prototype.elim .null objectValue)
      else readChain facts heap name address (heap.objects.length + 1) (some address)

/-- `propertyReadSlow` on an object: what the site has cached afterwards, and
the answer. -/
def propertyReadSlow (heap : PropertyHeap) (site : Site) (address : Nat) (object : ObjObject) :
    Option (PropertyCache × ReadAnswer) :=
  match object.layout with
  | .dictionary _ _ =>
      (readAround facts heap site.name address object).map (fun answer => (site.cache, answer))
  | .slots shape values => do
      let layout ← heap.shapes[shape]?
      match ← csShapeLookup layout site.name with
      | some slot => do
          let written ← values[slot]?
          let value ← written
          return ({ site.cache with shape := shape, slot := slot }, .value value)
      | none =>
          (readAround facts heap site.name address object).map
            (fun answer => (site.cache, answer))

/-- The test and the load of the fast path; the inner option is a slot that was
never written. -/
def readFast (object : ObjObject) (cache : PropertyCache) : Option (Option Value) :=
  match object.layout with
  | .dictionary _ _ => none
  | .slots shape values =>
      if shape = cache.shape then some values[cache.slot]?.join else none

/-! ### The heap and the sites that read -/

structure CachedHeap where
  heap : PropertyHeap
  readers : List Site
  deriving DecidableEq, Repr

def CachedHeap.initial : CachedHeap :=
  { heap := PropertyHeap.initial, readers := [] }

def CachedHeap.teach (state : CachedHeap) (index : Nat) (site : Site) (cache : PropertyCache) :
    CachedHeap :=
  { state with readers := state.readers.set index { site with cache := cache } }

def readAndLearn (state : CachedHeap) (index : Nat) (site : Site) (address : Nat)
    (object : ObjObject) : Option (CachedHeap × ReadAnswer) := do
  let (cache, answer) ← propertyReadSlow facts state.heap site address object
  return (state.teach index site cache, answer)

/-- `OP_GET_PROPERTY` and `OP_GET_LOCAL_PROPERTY`, on an object. -/
def opGetProperty (state : CachedHeap) (index address : Nat) :
    Option (CachedHeap × ReadAnswer) := do
  let site ← state.readers[index]?
  let object ← state.heap.objects[address]?
  match readFast object site.cache with
  | some written => do
      let value ← written
      return (state, .value value)
  | none => readAndLearn facts state index site address object

inductive CacheOp where
  /-- An operation that writes, or makes something. -/
  | write (op : PropertyOp)
  | method (klass : Nat) (name : ObjString) (closure : Nat)
  | newReader (name : ObjString)
  | getProperty (reader receiver : Nat)
  deriving Repr

/-- `OP_METHOD` while a class is declared. -/
def opMethod (heap : PropertyHeap) (klass : Nat) (name : ObjString) (closure : Nat) :
    Option PropertyHeap := do
  let holder ← heap.classes[klass]?
  let (methods, _) ← csTableSet holder.methods name (.obj (.cell .closure closure))
  return { heap with classes := heap.classes.set klass { holder with methods := methods } }

def stepCached (cells : Cells) (state : CachedHeap) : CacheOp → Option CachedHeap
  | .write op =>
      (stepProperty cells state.heap op).map (fun answered => { state with heap := answered.1 })
  | .method klass name closure =>
      (opMethod state.heap klass name closure).map (fun heap => { state with heap := heap })
  | .newReader name =>
      some { state with readers := state.readers ++ [{ name := name, cache := emptyCache }] }
  | .getProperty reader receiver =>
      (opGetProperty facts state reader receiver).map Prod.fst

def runCached (cells : Cells) : List CacheOp → CachedHeap → Option CachedHeap
  | [], state => some state
  | op :: rest, state => do
      let after ← stepCached facts cells state op
      runCached cells rest after

end

end CScript
