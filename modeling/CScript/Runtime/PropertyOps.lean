/-
The operations that write an object's properties.

A heap is what these operations share: the shapes, the objects, the classes
their accessors live on, one inline cache for each property site of the code,
and the calls of `Object.assign` that a getter has interrupted.  An operation
that runs a setter or a getter hands over to the program, whose own operations
come next; an operation that reports an error leaves the heap as it was.
-/

import CScript.Runtime.BagRefinement
import CScript.Runtime.Heap

namespace CScript

/-! ### The heap -/

structure Site where
  name : ObjString
  cache : PropertyCache
  deriving DecidableEq, Repr

/-- A call of `Object.assign`: the key it waits for is one whose getter runs. -/
structure AssignFrame where
  target : Nat
  sources : List Value
  place : Nat
  waiting : Option ObjString
  deriving DecidableEq, Repr

structure PropertyHeap where
  shapes : List Shape
  objects : List ObjObject
  classes : List ObjClass
  sites : List Site
  assigns : List AssignFrame
  deriving DecidableEq, Repr

/-- What never changes once it is made: the value of a bigint, the name a
symbol files its properties under, and the text of a value used as a key. -/
structure Cells where
  bigints : BigIntCells
  symbolKey : Nat → ObjString
  keyText : Value → ObjString

inductive PropertyAnswer where
  | done (value : Value)
  | failed (message : List UInt8)
  | call (callee receiver : Value) (arguments : List Value)
  deriving DecidableEq, Repr

/-- `vm.absentShape`, which no object has. -/
def absentShape : Nat := 1

/-- `vm.accessorMarker`, which no program holds. -/
def accessorMarker : Nat := 0

def objectValue (address : Nat) : Value :=
  .obj (.cell .object address)

def PropertyHeap.initial : PropertyHeap :=
  { shapes := [csShapeNewRoot, csShapeNewRoot]
    objects := [csObjectNew { chars := ascii "<accessor>" }]
    classes := []
    sites := []
    assigns := [] }

def csObjectRegister (heap : PropertyHeap) (object : ObjObject) : PropertyHeap :=
  { heap with objects := heap.objects ++ [object] }

def csClassNew (name : ObjString) (superclass : Option Nat) : ObjClass :=
  { name := name
    superclass := superclass
    initializer := none
    fieldInit := none
    methods := csTableInit
    statics := csTableInit
    getters := csTableInit
    staticGetters := csTableInit
    staticSetters := csTableInit
    setters := csTableInit }

def CS_INSTANCE_RESERVED_SLOTS : Nat := 4

def csInstanceNew (klass : Nat) (name : ObjString) : ObjObject :=
  csObjectReserveSlots { csObjectNew name with klass := some klass } CS_INSTANCE_RESERVED_SLOTS

def setObject (heap : PropertyHeap) (address : Nat) (object : ObjObject) : PropertyHeap :=
  { heap with objects := heap.objects.set address object }

/-! ### Attributes and private properties -/

def CS_PROP_WRITABLE : Nat := 1
def CS_PROP_ENUMERABLE : Nat := 2
def CS_PROP_CONFIGURABLE : Nat := 4
def CS_PROP_DEFAULT : Nat := CS_PROP_WRITABLE ||| CS_PROP_ENUMERABLE ||| CS_PROP_CONFIGURABLE

def csObjectAttributes (object : ObjObject) (key : ObjString) : Option Nat :=
  match object.attributes with
  | none => some CS_PROP_DEFAULT
  | some table => do
      match ← csTableGet table key with
      | none => return CS_PROP_DEFAULT
      | some stored => do
          let number ← stored.asNumber
          return number.toNat

def csObjectSetAttributes (object : ObjObject) (key : ObjString) (attributes : Nat) :
    Option ObjObject :=
  match object.attributes with
  | none =>
      if attributes = CS_PROP_DEFAULT then some object
      else do
        let (table, _) ← csTableSet csTableInit key (.number (Double.ofNat attributes))
        return { object with attributes := some table }
  | some table => do
      let (after, _) ← csTableSet table key (.number (Double.ofNat attributes))
      return { object with attributes := some after }

def csObjectIsEnumerable (object : ObjObject) (key : ObjString) : Option Bool := do
  let attributes ← csObjectAttributes object key
  return decide (attributes &&& CS_PROP_ENUMERABLE ≠ 0)

def csObjectGetPrivate (object : ObjObject) (key : ObjString) : Option (Option Value) :=
  match object.privates with
  | none => some none
  | some table => csTableGet table key

def csObjectPutPrivate (object : ObjObject) (key : ObjString) (value : Value) :
    Option ObjObject := do
  let (after, _) ← csTableSet (object.privates.getD csTableInit) key value
  return { object with privates := some after }

def csObjectDeletePrivate (object : ObjObject) (key : ObjString) : Option ObjObject :=
  match object.privates with
  | none => some object
  | some table => do
      let (after, _) ← csTableDelete table key
      return { object with privates := some after }

/-! ### Accessors and prototypes -/

/-- Up the superclass chain.  A walk longer than the number of classes never
ends. -/
def findAccessor (classes : List ObjClass) (accessors : ObjClass → Table) (name : ObjString) :
    Nat → Option Nat → Option (Option Value)
  | _, none => some none
  | 0, some _ => none
  | fuel + 1, some address => do
      let klass ← classes[address]?
      match ← csTableGet (accessors klass) name with
      | some accessor => return some accessor
      | none => findAccessor classes accessors name fuel klass.superclass

def csClassFindGetter (classes : List ObjClass) (klass : Nat) (name : ObjString) :
    Option (Option Value) :=
  findAccessor classes ObjClass.getters name (classes.length + 1) (some klass)

def csClassFindSetter (classes : List ObjClass) (klass : Nat) (name : ObjString) :
    Option (Option Value) :=
  findAccessor classes ObjClass.setters name (classes.length + 1) (some klass)

inductive ChainAccessor where
  | setter (closure : Value)
  | getterOnly
  | none
  deriving DecidableEq, Repr

def classAccessor (classes : List ObjClass) (klass : Nat) (name : ObjString) :
    Option ChainAccessor := do
  match ← csClassFindSetter classes klass name with
  | some setter => return .setter setter
  | none => do
      let getter ← csClassFindGetter classes klass name
      return if getter.isSome then .getterOnly else .none

/-- The loop of `propertyWriteSlow` up the prototype chain. -/
def chainAccessor (heap : PropertyHeap) (name : ObjString) :
    Nat → Option Nat → Option ChainAccessor
  | _, none => some .none
  | 0, some _ => none
  | fuel + 1, some address => do
      let object ← heap.objects[address]?
      match object.klass with
      | none => chainAccessor heap name fuel object.prototype
      | some klass => do
          match ← classAccessor heap.classes klass name with
          | .none => chainAccessor heap name fuel object.prototype
          | found => return found

/-- The loop of `csObjectSetPrototype`: whether the chain meets the object. -/
def chainMeets (objects : List ObjObject) (object : Nat) : Nat → Option Nat → Option Bool
  | _, none => some false
  | 0, some _ => none
  | fuel + 1, some address => do
      if address = object then return true
      else do
        let at_ ← objects[address]?
        chainMeets objects object fuel at_.prototype

/-- The inner option is the refusal of a chain that would loop. -/
def csObjectSetPrototype (heap : PropertyHeap) (address : Nat) (object : ObjObject)
    (prototype : Nat) : Option (Option PropertyHeap) := do
  let meets ← chainMeets heap.objects address (heap.objects.length + 1) (some prototype)
  if meets then return none
  else return some (setObject heap address { object with prototype := some prototype })

/-! ### Assignment -/

def isProtoKey (name : ObjString) : Bool :=
  decide (name.chars = ascii "__proto__")

def csValueTypeName : Value → List UInt8
  | .number _ => ascii "number"
  | .bool _ => ascii "boolean"
  | .undefined => ascii "undefined"
  | .null => ascii "null"
  | .obj (.string _) => ascii "string"
  | .obj (.cell .native _) => ascii "function"
  | .obj (.cell .function _) => ascii "function"
  | .obj (.cell .closure _) => ascii "function"
  | .obj (.cell .boundMethod _) => ascii "function"
  | .obj (.cell .class_ _) => ascii "function"
  | .obj (.cell .symbol _) => ascii "symbol"
  | .obj (.cell .bigint _) => ascii "bigint"
  | .obj (.cell _ _) => ascii "object"

def badPrototype (value : Value) : PropertyAnswer :=
  .failed (ascii "a prototype must be an object or null, got " ++ csValueTypeName value)

def loopingPrototype : PropertyAnswer :=
  .failed (ascii "that prototype is already in this object's chain, " ++
    ascii "which would make every lookup on it loop")

/-- What assigning to `__proto__` and `Object.setPrototypeOf` share. -/
def relink (heap : PropertyHeap) (address : Nat) (object : ObjObject) (prototype : Value)
    (answer : Value) : Option (PropertyHeap × PropertyAnswer) :=
  match prototype with
  | .null => some (setObject heap address { object with prototype := none }, .done answer)
  | .undefined => some (setObject heap address { object with prototype := none }, .done answer)
  | .obj (.cell .object above) => do
      match ← csObjectSetPrototype heap address object above with
      | none => return (heap, loopingPrototype)
      | some linked => return (linked, .done answer)
  | other => some (heap, badPrototype other)

/-- `object->shape`, which is null in dictionary mode. -/
def ObjObject.shape (object : ObjObject) : Option Nat :=
  match object.layout with
  | .slots shape _ => some shape
  | .dictionary _ _ => none

/-- `none` is the answer false, which leaves the store to the slow path. -/
def csVMStoreCached (object : ObjObject) (cache : PropertyCache) (value : Value) :
    Option ObjObject :=
  match object.layout with
  | .dictionary _ _ => none
  | .slots shape values =>
      match cache.added with
      | none => some { object with layout := .slots shape (values.set cache.slot (some value)) }
      | some added =>
          if values.length ≤ cache.slot then none
          else some { object with
            layout := .slots added (values.set cache.slot (some value)) }

/-- What a site learns from a store: this shape, that slot and, for a property
the store added, the shape it became. -/
def learn (shapes : List Shape) (site : Site) (before : Option Nat) (target : ObjObject) :
    Option PropertyCache :=
  match target.layout with
  | .dictionary _ _ => some site.cache
  | .slots shape _ => do
      let layout ← shapes[shape]?
      match ← csShapeLookup layout site.name with
      | none => return site.cache
      | some slot =>
          if before = some shape then
            return { shape := shape, slot := slot, added := none }
          else do
            let before ← before
            return { shape := before, slot := slot, added := some shape }

/-- The end of `propertyWriteSlow`: the store itself. -/
def storeSlow (heap : PropertyHeap) (index : Nat) (site : Site) (address : Nat)
    (object : ObjObject) (value : Value) : Option (PropertyHeap × PropertyAnswer) := do
  let attributes ← csObjectAttributes object site.name
  if attributes &&& CS_PROP_WRITABLE = 0 then
    return (heap, .failed (ascii "'" ++ site.name.chars ++
      ascii "' is read-only and cannot be assigned to"))
  else do
    let (shapes, target) ← csObjectPut heap.shapes object site.name value
    let cache ← learn shapes site object.shape target
    return ({ heap with
              shapes := shapes
              objects := heap.objects.set address target
              sites := heap.sites.set index { site with cache := cache } },
            .done value)

/-- `propertyWriteSlow` on an object; the branches before it are for a regex, a
class and a function, which hold no property bag. -/
def propertyWriteSlow (heap : PropertyHeap) (index : Nat) (site : Site) (address : Nat)
    (object : ObjObject) (value : Value) : Option (PropertyHeap × PropertyAnswer) :=
  if object.frozen then
    some (heap, .failed (ascii "'" ++ object.name.chars ++ ascii "." ++ site.name.chars ++
      ascii "' cannot be changed: the object is frozen"))
  else if isProtoKey site.name then relink heap address object value value
  else do
    match ← chainAccessor heap site.name (heap.objects.length + 1) (some address) with
    | .setter closure => return (heap, .call closure (objectValue address) [value])
    | .getterOnly =>
        return (heap, .failed (ascii "'" ++ site.name.chars ++
          ascii "' has only a getter and cannot be assigned to"))
    | .none => storeSlow heap index site address object value

def storeFast (object : ObjObject) (cache : PropertyCache) (value : Value) :
    Option ObjObject :=
  if object.shape = some cache.shape then csVMStoreCached object cache value else none

/-- `OP_SET_PROPERTY` and `OP_SET_PROPERTY_POP`, on an object. -/
def opSetProperty (heap : PropertyHeap) (index : Nat) (address : Nat) (value : Value) :
    Option (PropertyHeap × PropertyAnswer) := do
  let site ← heap.sites[index]?
  let object ← heap.objects[address]?
  match storeFast object site.cache value with
  | some stored => return (setObject heap address stored, .done value)
  | none => propertyWriteSlow heap index site address object value

/-! ### Indexed assignment and deletes -/

section

variable (cells : Cells)

def objectKeyFor : Value → ObjString
  | .obj (.string string) => string
  | .obj (.cell .symbol address) => cells.symbolKey address
  | key => cells.keyText key

/-- `csObjectPut` on an object of the heap. -/
def putProperty (heap : PropertyHeap) (address : Nat) (object : ObjObject) (key : ObjString)
    (value : Value) : Option PropertyHeap := do
  let (shapes, after) ← csObjectPut heap.shapes object key value
  return { heap with shapes := shapes, objects := heap.objects.set address after }

/-- `OP_SET_INDEX`, on an object. -/
def opSetIndex (heap : PropertyHeap) (address : Nat) (index value : Value) :
    Option (PropertyHeap × PropertyAnswer) := do
  let object ← heap.objects[address]?
  match index with
  | .obj (.cell .symbol symbol) => do
      let after ← csObjectPutPrivate object (cells.symbolKey symbol) value
      return (setObject heap address after, .done value)
  | key =>
      if object.frozen then
        return (heap, .failed (ascii "'" ++ object.name.chars ++ ascii "." ++
          (objectKeyFor cells key).chars ++ ascii "' cannot be changed: the object is frozen"))
      else do
        let after ← putProperty heap address object (objectKeyFor cells key) value
        return (after, .done value)

def frozenDelete (object : ObjObject) : PropertyAnswer :=
  .failed (ascii "'" ++ object.name.chars ++
    ascii "' is frozen, so its properties cannot be deleted")

/-- `csObjectDelete` on an object of the heap. -/
def deleteProperty (heap : PropertyHeap) (address : Nat) (object : ObjObject)
    (key : ObjString) : Option PropertyHeap := do
  let (after, _) ← csObjectDelete heap.shapes object key
  return setObject heap address after

/-- `OP_DELETE_PROPERTY`, on an object. -/
def opDeleteProperty (heap : PropertyHeap) (address : Nat) (name : ObjString) :
    Option (PropertyHeap × PropertyAnswer) := do
  let object ← heap.objects[address]?
  if object.frozen then return (heap, frozenDelete object)
  else do
    let attributes ← csObjectAttributes object name
    if attributes &&& CS_PROP_CONFIGURABLE = 0 then
      return (heap, .failed (ascii "'" ++ name.chars ++
        ascii "' is not configurable and cannot be deleted"))
    else do
      let after ← deleteProperty heap address object name
      return (after, .done (.bool true))

/-- `OP_DELETE_INDEX`, on an object. -/
def opDeleteIndex (heap : PropertyHeap) (address : Nat) (index : Value) :
    Option (PropertyHeap × PropertyAnswer) := do
  let object ← heap.objects[address]?
  if object.frozen then return (heap, frozenDelete object)
  else
    match index with
    | .obj (.cell .symbol symbol) => do
        let after ← csObjectDeletePrivate object (cells.symbolKey symbol)
        return (setObject heap address after, .done (.bool true))
    | key => do
        let after ← deleteProperty heap address object (objectKeyFor cells key)
        return (after, .done (.bool true))

/-! ### `Object.assign` -/

def csVMIsAccessorSlot (value : Value) : Bool :=
  decide (value = objectValue accessorMarker)

inductive OwnProperty where
  | value (value : Value)
  | getter (closure : Value)
  deriving DecidableEq, Repr

/-- `csVMReadOwnProperty`, up to the call of the getter. -/
def csVMReadOwnProperty (heap : PropertyHeap) (object : ObjObject) (key : ObjString) :
    Option OwnProperty := do
  match ← csObjectGet heap.shapes object key with
  | none => return .value .undefined
  | some stored =>
      if csVMIsAccessorSlot stored then
        match object.klass with
        | none => return .value .undefined
        | some klass => do
            match ← csClassFindGetter heap.classes klass key with
            | none => return .value .undefined
            | some getter => return .getter getter
      else return .value stored

/-- What one turn of the loops of `objectAssign` comes to. -/
inductive AssignTurn where
  | finished
  | advance (frame : AssignFrame)
  | put (key : ObjString) (value : Value)
  | call (getter : Value) (source : Nat) (key : ObjString)
  deriving DecidableEq, Repr

def AssignFrame.next (frame : AssignFrame) : AssignFrame :=
  { frame with place := frame.place + 1, waiting := none }

def AssignFrame.nextSource (frame : AssignFrame) : AssignFrame :=
  { frame with sources := frame.sources.tail, place := 0, waiting := none }

/-- The read half of the inner loop, at a place the source has. -/
def assignKey (heap : PropertyHeap) (frame : AssignFrame) (address : Nat)
    (source : ObjObject) : Option AssignTurn := do
  let key ← csObjectKeyAt heap.shapes source frame.place
  let enumerable ← csObjectIsEnumerable source key
  if enumerable then
    match ← csVMReadOwnProperty heap source key with
    | .value value => return .put key value
    | .getter getter => return .call getter address key
  else return .advance frame.next

def assignTurn (heap : PropertyHeap) (frame : AssignFrame) : Option AssignTurn :=
  match frame.sources with
  | [] => some .finished
  | .obj (.cell .object address) :: _ => do
      let source ← heap.objects[address]?
      let count ← csObjectCount heap.shapes source
      if frame.place < count then assignKey heap frame address source
      else return .advance frame.nextSource
  | _ :: _ => some (.advance frame.nextSource)

/-- The write half of the inner loop; nothing about the target is asked. -/
def assignPut (heap : PropertyHeap) (frame : AssignFrame) (rest : List AssignFrame)
    (key : ObjString) (value : Value) : Option (PropertyHeap × PropertyAnswer) := do
  let target ← heap.objects[frame.target]?
  let after ← putProperty { heap with assigns := frame.next :: rest } frame.target target key value
  return (after, .done value)

/-- The call itself: the loops run turn by turn from here. -/
def objectAssign (heap : PropertyHeap) (arguments : List Value) : PropertyHeap × PropertyAnswer :=
  match arguments with
  | .obj (.cell .object target) :: sources =>
      ({ heap with
         assigns := { target := target, sources := sources, place := 0, waiting := none } ::
           heap.assigns },
       .done (objectValue target))
  | _ => (heap, .failed (ascii "Object.assign expects a target object"))

/-- One turn of the innermost call, unless it waits for a getter. -/
def assignStep (heap : PropertyHeap) : Option (PropertyHeap × PropertyAnswer) :=
  match heap.assigns with
  | [] => none
  | frame :: rest =>
      match frame.waiting with
      | some _ => none
      | none => do
          match ← assignTurn heap frame with
          | .finished =>
              return ({ heap with assigns := rest }, .done (objectValue frame.target))
          | .advance after => return ({ heap with assigns := after :: rest }, .done .undefined)
          | .put key value => assignPut heap frame rest key value
          | .call getter source key =>
              return ({ heap with assigns := { frame with waiting := some key } :: rest },
                .call getter (objectValue source) [])

/-- The getter the innermost call waits for has answered. -/
def assignResume (heap : PropertyHeap) (value : Value) : Option (PropertyHeap × PropertyAnswer) :=
  match heap.assigns with
  | [] => none
  | frame :: rest =>
      match frame.waiting with
      | none => none
      | some key => assignPut heap frame rest key value

/-- The getter failed, and `Object.assign` with it. -/
def assignAbandon (heap : PropertyHeap) : Option (PropertyHeap × PropertyAnswer) :=
  match heap.assigns with
  | [] => none
  | _ :: rest => some ({ heap with assigns := rest }, .done .undefined)

/-! ### `Object.defineProperty` -/

def csValueIsTruthy : Value → Bool
  | .number number => !number.isZero && !number.isNaN
  | .bool b => b
  | .null => false
  | .undefined => false
  | .obj (.string string) => decide (0 < string.chars.length)
  | .obj (.cell .bigint address) => !csBigIsZero (cells.bigints address)
  | .obj _ => true

def readMember (heap : PropertyHeap) (descriptor : ObjObject) (name : String) :
    Option (Option Value) :=
  csObjectGet heap.shapes descriptor { chars := ascii name }

/-- `readFlag` into a flag that is false so far. -/
def readFlag (heap : PropertyHeap) (descriptor : ObjObject) (name : String) : Option Bool := do
  let flag ← readMember heap descriptor name
  return flag.any (csValueIsTruthy cells)

def isClosure : Value → Bool
  | .obj (.cell .closure _) => true
  | _ => false

def isCallable : Value → Bool
  | .obj (.cell .closure _) => true
  | .obj (.cell .native _) => true
  | .obj (.cell .boundMethod _) => true
  | _ => false

structure Descriptor where
  getter : Option Value
  setter : Option Value
  value : Option Value
  writable : Bool
  enumerable : Bool
  configurable : Bool
  deriving DecidableEq, Repr

def readDescriptor (heap : PropertyHeap) (descriptor : ObjObject) : Option Descriptor := do
  let getter ← readMember heap descriptor "get"
  let setter ← readMember heap descriptor "set"
  let value ← readMember heap descriptor "value"
  let writable ← readFlag cells heap descriptor "writable"
  let enumerable ← readFlag cells heap descriptor "enumerable"
  let configurable ← readFlag cells heap descriptor "configurable"
  return { getter := getter
           setter := setter
           value := value
           writable := writable
           enumerable := enumerable
           configurable := configurable }

def given (member : Option Value) : Option Value :=
  member.filter (fun value => decide (value ≠ .undefined))

def accessorAttributes (described : Descriptor) : Nat :=
  (if described.enumerable then CS_PROP_ENUMERABLE else 0) |||
    (if described.configurable then CS_PROP_CONFIGURABLE else 0)

def dataAttributes (described : Descriptor) : Nat :=
  (if described.writable then CS_PROP_WRITABLE else 0) ||| accessorAttributes described

def setAccessor (accessor : Option Value) (table : Table) (key : ObjString) : Option Table :=
  match accessor with
  | none => some table
  | some closure => (csTableSet table key closure).map Prod.fst

/-- The class of the object, made for it alone when it had none. -/
def holderClass (classes : List ObjClass) (object : ObjObject) :
    List ObjClass × ObjObject × Nat :=
  match object.klass with
  | some klass => (classes, object, klass)
  | none =>
      (classes ++ [csClassNew object.name none], { object with klass := some classes.length },
        classes.length)

def deleteStored (shapes : List Shape) (object : ObjObject) (key : ObjString)
    (present : Bool) : Option ObjObject :=
  if present then (csObjectDelete shapes object key).map Prod.fst else some object

def defineAccessor (heap : PropertyHeap) (address : Nat) (object : ObjObject) (key : ObjString)
    (present : Bool) (described : Descriptor) : Option PropertyHeap := do
  let emptied ← deleteStored heap.shapes object key present
  let (classes, held, klass) := holderClass heap.classes emptied
  let holder ← classes[klass]?
  let getters ← setAccessor (given described.getter) holder.getters key
  let setters ← setAccessor (given described.setter) holder.setters key
  let left ← csObjectLeaveShapeMode heap.shapes held
  let (shapes, marked) ← csObjectPut heap.shapes left key (objectValue accessorMarker)
  let after ← csObjectSetAttributes marked key (accessorAttributes described)
  return { heap with
    shapes := shapes
    objects := heap.objects.set address after
    classes := classes.set klass { holder with getters := getters, setters := setters } }

def leaveIfReadOnly (shapes : List Shape) (object : ObjObject) (described : Descriptor) :
    Option ObjObject :=
  if described.writable then some object else csObjectLeaveShapeMode shapes object

def defineData (heap : PropertyHeap) (address : Nat) (object : ObjObject) (key : ObjString)
    (existing : Option Value) (described : Descriptor) : Option PropertyHeap := do
  let value := described.value.getD (existing.getD .undefined)
  let left ← leaveIfReadOnly heap.shapes object described
  let (shapes, put) ← csObjectPut heap.shapes left key value
  let after ← csObjectSetAttributes put key (dataAttributes described)
  return { heap with shapes := shapes, objects := heap.objects.set address after }

def accessorComplaint (described : Descriptor) : Option (List UInt8) :=
  if (given described.getter).any (fun value => !isCallable value) then
    some (ascii "a descriptor's 'get' must be a function")
  else if (given described.setter).any (fun value => !isCallable value) then
    some (ascii "a descriptor's 'set' must be a function")
  else if (given described.getter).any (fun value => !isClosure value) ||
      (given described.setter).any (fun value => !isClosure value) then
    some (ascii "a descriptor's accessor must be a function written in CScript")
  else none

/-- `defineOne` once the object is known to allow it. -/
def defineAllowed (heap : PropertyHeap) (address : Nat) (object descriptor : ObjObject)
    (key : ObjString) (existing : Option Value) : Option (PropertyHeap × PropertyAnswer) := do
  let described ← readDescriptor cells heap descriptor
  let isAccessor := described.getter.isSome || described.setter.isSome
  if isAccessor && described.value.isSome then
    return (heap, .failed (ascii "a property descriptor cannot have both a value and an accessor"))
  else if isAccessor then
    match accessorComplaint described with
    | some complaint => return (heap, .failed complaint)
    | none => do
        let after ← defineAccessor heap address object key existing.isSome described
        return (after, .done (objectValue address))
  else do
    let after ← defineData heap address object key existing described
    return (after, .done (objectValue address))

/-- `Object.defineProperty` through `defineOne`, on an object and a string. -/
def objectDefineProperty (heap : PropertyHeap) (address : Nat) (key : ObjString)
    (describedBy : Value) : Option (PropertyHeap × PropertyAnswer) := do
  let object ← heap.objects[address]?
  match describedBy with
  | .obj (.cell .object describing) => do
      let descriptor ← heap.objects[describing]?
      if object.frozen then
        return (heap, .failed (ascii "'" ++ object.name.chars ++
          ascii "' is frozen, so its properties cannot be redefined"))
      else do
        let existing ← csObjectGet heap.shapes object key
        let attributes ← csObjectAttributes object key
        if existing.isSome && decide (attributes &&& CS_PROP_CONFIGURABLE = 0) then
          return (heap, .failed (ascii "'" ++ key.chars ++
            ascii "' is not configurable and cannot be redefined"))
        else defineAllowed cells heap address object descriptor key existing
  | other =>
      return (heap, .failed (ascii "a property descriptor must be an object, got " ++
        csValueTypeName other))

/-! ### Prototypes and freezing -/

def objectSetPrototypeOf (heap : PropertyHeap) (address : Nat) (prototype : Value) :
    Option (PropertyHeap × PropertyAnswer) := do
  let object ← heap.objects[address]?
  relink heap address object prototype (objectValue address)

def objectFreeze (heap : PropertyHeap) (address : Nat) : Option (PropertyHeap × PropertyAnswer) := do
  let object ← heap.objects[address]?
  return (setObject heap address { object with frozen := true }, .done (objectValue address))

/-! ### One operation after another -/

inductive PropertyOp where
  | newObject (name : ObjString) (prototype : Option Nat)
  | newClass (name : ObjString) (superclass : Option Nat)
  | newAccessor (klass : Nat) (isGetter : Bool) (name : ObjString) (closure : Nat)
  | newInstance (klass : Nat)
  | newSite (name : ObjString)
  | setProperty (site receiver : Nat) (value : Value)
  | setIndex (target : Nat) (index value : Value)
  | deleteProperty (target : Nat) (name : ObjString)
  | deleteIndex (target : Nat) (index : Value)
  | assign (arguments : List Value)
  | assignStep
  | assignResume (value : Value)
  | assignAbandon
  | defineProperty (target : Nat) (key : ObjString) (describedBy : Value)
  | setPrototypeOf (target : Nat) (prototype : Value)
  | freeze (target : Nat)
  deriving DecidableEq, Repr

/-- `OP_GETTER` and `OP_SETTER` while a class is declared. -/
def opAccessor (heap : PropertyHeap) (klass : Nat) (isGetter : Bool) (name : ObjString)
    (closure : Nat) : Option PropertyHeap := do
  let holder ← heap.classes[klass]?
  let accessor : Value := .obj (.cell .closure closure)
  if isGetter then
    let (getters, _) ← csTableSet holder.getters name accessor
    return { heap with classes := heap.classes.set klass { holder with getters := getters } }
  else
    let (setters, _) ← csTableSet holder.setters name accessor
    return { heap with classes := heap.classes.set klass { holder with setters := setters } }

/-- `OP_NEW`, up to the constructor. -/
def opNew (heap : PropertyHeap) (klass : Nat) : Option PropertyHeap := do
  let holder ← heap.classes[klass]?
  return csObjectRegister heap (csInstanceNew klass holder.name)

def emptyCache : PropertyCache :=
  { shape := absentShape, slot := 0, added := none }

def stepProperty (heap : PropertyHeap) : PropertyOp → Option (PropertyHeap × PropertyAnswer)
  | .newObject name prototype =>
      some (csObjectRegister heap { csObjectNew name with prototype := prototype },
        .done (objectValue heap.objects.length))
  | .newClass name superclass =>
      some ({ heap with classes := heap.classes ++ [csClassNew name superclass] },
        .done (.obj (.cell .class_ heap.classes.length)))
  | .newAccessor klass isGetter name closure =>
      (opAccessor heap klass isGetter name closure).map (fun after => (after, .done .undefined))
  | .newInstance klass =>
      (opNew heap klass).map (fun after => (after, .done (objectValue heap.objects.length)))
  | .newSite name =>
      some ({ heap with sites := heap.sites ++ [{ name := name, cache := emptyCache }] },
        .done .undefined)
  | .setProperty site receiver value => opSetProperty heap site receiver value
  | .setIndex target index value => opSetIndex cells heap target index value
  | .deleteProperty target name => opDeleteProperty heap target name
  | .deleteIndex target index => opDeleteIndex cells heap target index
  | .assign arguments => some (objectAssign heap arguments)
  | .assignStep => assignStep heap
  | .assignResume value => assignResume heap value
  | .assignAbandon => assignAbandon heap
  | .defineProperty target key describedBy =>
      objectDefineProperty cells heap target key describedBy
  | .setPrototypeOf target prototype => objectSetPrototypeOf heap target prototype
  | .freeze target => objectFreeze heap target

def runProperties : List PropertyOp → PropertyHeap → Option PropertyHeap
  | [], heap => some heap
  | op :: rest, heap => do
      let (after, _) ← stepProperty cells heap op
      runProperties rest after

end

end CScript
