/-
The heap and the roots, as the collector sees them.

Every object a program has made is a cell on one list, with what it holds by
kind.  A pointer to a cell is the cell's kind and address; a string is its own
bytes.  Each kind keeps the fields the collector follows or prunes, in the
order it follows them, and the machine keeps its root fields in the order they
are marked.
-/

import CScript.Foundation.Marking
import CScript.Native.Map
import CScript.Runtime.BigInt
import CScript.Runtime.ObjectBag

namespace CScript

open Foundation

/-! ### What each kind of object holds -/

/-- What one property site learned: `added` is the layout a store that adds the
property leads to. -/
structure PropertyCache where
  shape : Nat
  slot : Nat
  added : Option Nat
  deriving DecidableEq, Repr

structure CallFrame where
  closure : Nat
  newTarget : Value
  deriving DecidableEq, Repr

structure Reaction where
  onFulfilled : Value
  onRejected : Value
  result : Option Nat
  combineState : Option Nat
  fiber : Option Nat
  deriving DecidableEq, Repr

structure ObjClass where
  name : ObjString
  superclass : Option Nat
  initializer : Option Nat
  fieldInit : Option Nat
  methods : Table
  statics : Table
  getters : Table
  staticGetters : Table
  staticSetters : Table
  setters : Table
  deriving DecidableEq, Repr

structure ObjFiber where
  stack : List Value
  frames : List CallFrame
  openUpvalues : List Nat
  promise : Option Nat
  generator : Option Nat
  caller : Option Nat
  deriving DecidableEq, Repr

structure ObjModule where
  namespaceView : Option Nat
  path : ObjString
  body : Option Nat
  globals : Table
  globalConsts : Table
  exports : Table
  deriving DecidableEq, Repr

structure ObjFunction where
  name : Option ObjString
  module_ : Option Nat
  constants : List Value
  propertyCaches : List PropertyCache
  deriving DecidableEq, Repr

inductive Body where
  | string
  | native (name : ObjString) (statics : Option Nat)
  | object (object : ObjObject)
  | shape (shape : Shape)
  | class_ (klass : ObjClass)
  | boundMethod (receiver : Value) (method : Obj) (presets : Option Nat)
  | regex (source flags : ObjString)
  | map (map : ObjMap)
  | fiber (fiber : ObjFiber)
  | date
  | bigint (value : BigInt)
  | symbol (description : Option ObjString) (key : ObjString)
  | generator (fiber pendingResult : Option Nat) (yielded : Value)
  | promise (value : Value) (reactions : List Reaction)
  | module_ (module_ : ObjModule)
  | function (function : ObjFunction)
  | upvalue (closed : Value) (home : Option Nat)
  | closure (function : Nat) (prototype : Option Nat) (upvalues : List Nat)
  | array (extras : Option Table) (elements : List Value)
  deriving DecidableEq, Repr

structure Cell where
  object : Obj
  body : Body
  deriving DecidableEq, Repr

/-! ### Pointers that may be null -/

def ofValue : Value → List Obj
  | .obj object => [object]
  | _ => []

def ofString (string : Option ObjString) : List Obj :=
  (string.map Obj.string).toList

def ofCell (type : ObjType) (address : Option Nat) : List Obj :=
  (address.map (Obj.cell type)).toList

/-- `csTableMark`: every slot's key and value, empty slots included. -/
def csTableMark (table : Table) : List Obj :=
  table.entries.flatMap (fun entry => ofString entry.key ++ ofValue entry.value)

/-! ### The references of an object -/

def findBody (objects : List Cell) (object : Obj) : Option Body :=
  (objects.find? (fun cell => decide (cell.object = object))).map Cell.body

def findShape (objects : List Cell) (address : Nat) : Option Shape :=
  match findBody objects (.cell .shape address) with
  | some (.shape shape) => some shape
  | _ => none

def slotReferences : Nat → List (Option Value) → Option (List Obj)
  | 0, _ => some []
  | slots + 1, some value :: values => do
      let rest ← slotReferences slots values
      return ofValue value ++ rest
  | _ + 1, _ => none

def symbolReferences (symbolsByKey : Table) : List Entry → Option (List Obj)
  | [] => some []
  | entry :: rest =>
      match entry.key with
      | none => symbolReferences symbolsByKey rest
      | some key => do
          let symbol ← csTableGet symbolsByKey key
          let later ← symbolReferences symbolsByKey rest
          return (symbol.map ofValue).getD [] ++ later

def layoutReferences (objects : List Cell) : Layout → Option (List Obj)
  | .slots address values => do
      let shape ← findShape objects address
      let held ← slotReferences shape.slotCount values
      return .cell .shape address :: held
  | .dictionary table keys => some (csTableMark table ++ keys.map Obj.string)

def privateReferences (symbolsByKey : Table) : Option Table → Option (List Obj)
  | none => some []
  | some privates => do
      let symbols ← symbolReferences symbolsByKey privates.entries
      return csTableMark privates ++ symbols

def objectReferences (objects : List Cell) (symbolsByKey : Table) (object : ObjObject) :
    Option (List Obj) := do
  let held ← layoutReferences objects object.layout
  let privates ← privateReferences symbolsByKey object.privates
  return .string object.name :: ofCell .class_ object.klass ++
    ofCell .object object.prototype ++ held ++
    (object.attributes.map csTableMark).getD [] ++ privates

def csShapeBlacken (shape : Shape) : List Obj :=
  ofCell .shape shape.parent ++ ofString shape.key ++
    (shape.keys.take shape.slotCount).map Obj.string

def classReferences (klass : ObjClass) : List Obj :=
  .string klass.name :: ofCell .class_ klass.superclass ++ ofCell .closure klass.initializer ++
    ofCell .closure klass.fieldInit ++ csTableMark klass.methods ++ csTableMark klass.statics ++
    csTableMark klass.getters ++ csTableMark klass.staticGetters ++
    csTableMark klass.staticSetters ++ csTableMark klass.setters

def mapReferences (map : ObjMap) : List Obj :=
  if map.isWeak then []
  else (compactEntries map.entries).flatMap
    (fun entry => ofValue entry.key ++ ofValue entry.value)

def frameReferences (frame : CallFrame) : List Obj :=
  .cell .closure frame.closure :: ofValue frame.newTarget

def fiberReferences (fiber : ObjFiber) : List Obj :=
  fiber.stack.flatMap ofValue ++ fiber.frames.flatMap frameReferences ++
    fiber.openUpvalues.map (Obj.cell .upvalue) ++ ofCell .promise fiber.promise ++
    ofCell .generator fiber.generator ++ ofCell .fiber fiber.caller

def reactionReferences (reaction : Reaction) : List Obj :=
  ofValue reaction.onFulfilled ++ ofValue reaction.onRejected ++
    ofCell .promise reaction.result ++ ofCell .array reaction.combineState ++
    ofCell .fiber reaction.fiber

def moduleReferences (module_ : ObjModule) : List Obj :=
  ofCell .object module_.namespaceView ++ .string module_.path ::
    ofCell .function module_.body ++ csTableMark module_.globals ++
    csTableMark module_.globalConsts ++ csTableMark module_.exports

def functionReferences (function : ObjFunction) : List Obj :=
  ofString function.name ++ ofCell .module_ function.module_ ++
    function.constants.flatMap ofValue

/-- `csObjectBlacken`: what it marks, in order.  Marking a null pointer does
nothing, so null pointers are left out. -/
def csObjectBlacken (objects : List Cell) (symbolsByKey : Table) : Body → Option (List Obj)
  | .string => some []
  | .native name statics => some (.string name :: ofCell .object statics)
  | .object object => objectReferences objects symbolsByKey object
  | .shape shape => some (csShapeBlacken shape)
  | .class_ klass => some (classReferences klass)
  | .boundMethod receiver method presets =>
      some (ofValue receiver ++ method :: ofCell .array presets)
  | .regex source flags => some [.string source, .string flags]
  | .map map => some (mapReferences map)
  | .fiber fiber => some (fiberReferences fiber)
  | .date => some []
  | .bigint _ => some []
  | .symbol description key => some (ofString description ++ [.string key])
  | .generator fiber pendingResult yielded =>
      some (ofCell .fiber fiber ++ ofCell .promise pendingResult ++ ofValue yielded)
  | .promise value reactions =>
      some (ofValue value ++ reactions.flatMap reactionReferences)
  | .module_ module_ => some (moduleReferences module_)
  | .function function => some (functionReferences function)
  | .upvalue closed home => some (ofValue closed ++ ofCell .fiber home)
  | .closure function prototype upvalues =>
      some (.cell .function function :: ofCell .object prototype ++
        upvalues.map (Obj.cell .upvalue))
  | .array extras elements =>
      some ((extras.map csTableMark).getD [] ++ elements.flatMap ofValue)

/-! ### The machine -/

structure Microtask where
  callback : Value
  argument : Value
  result : Option Nat
  combineState : Option Nat
  fiber : Option Nat
  deriving DecidableEq, Repr

/-- The fields `markRoots` reads, in its order; the queues hold only what is
still waiting.  `promiseNatives`, `compilerFunctions` and `jitReferences` are
what the three other modules mark of their own. -/
structure Roots where
  stack : List Value
  jitRoots : List (List Value)
  frames : List CallFrame
  openUpvalues : List Nat
  pendingException : Option Value
  pendingNewTarget : Value
  accessorMarker : Option Nat
  microtasks : List Microtask
  timers : List Value
  rejected : List Nat
  promiseNatives : List Nat
  promiseMethods : Table
  mapMethods : Table
  generatorMethods : Table
  numberMethods : Table
  functionMethods : Table
  dateMethods : Table
  weakMethods : Table
  symbolMethods : Table
  bigintMethods : Table
  symbolRegistry : Table
  iteratorSymbol : Option Nat
  asyncIteratorSymbol : Option Nat
  regexMethods : Table
  builtins : Table
  builtinConsts : Table
  modules : Table
  mainModule : Option Nat
  currentFiber : Option Nat
  arrayMethods : Table
  stringMethods : Table
  tempRoots : List Obj
  compilerFunctions : List Nat
  jitReferences : List Obj
  deriving Repr

/-- `strings` and `symbolsByKey` are weak; `absentShape` is a root and what an
empty inline cache holds. -/
structure VM where
  objects : List Cell
  marking : Marking Obj
  roots : Roots
  strings : Table
  symbolsByKey : Table
  absentShape : Nat

def microtaskReferences (task : Microtask) : List Obj :=
  ofValue task.callback ++ ofValue task.argument ++ ofCell .promise task.result ++
    ofCell .array task.combineState ++ ofCell .fiber task.fiber

/-- What `markRoots` marks, in order. -/
def rootReferences (roots : Roots) (absentShape : Nat) : List Obj :=
  roots.stack.flatMap ofValue ++ roots.jitRoots.flatMap (fun range => range.flatMap ofValue) ++
    roots.frames.flatMap frameReferences ++ roots.openUpvalues.map (Obj.cell .upvalue) ++
    (roots.pendingException.map ofValue).getD [] ++ ofValue roots.pendingNewTarget ++
    [.cell .shape emptyShape] ++ ofCell .object roots.accessorMarker ++
    [.cell .shape absentShape] ++ roots.microtasks.flatMap microtaskReferences ++
    roots.timers.flatMap ofValue ++ roots.rejected.map (Obj.cell .promise) ++
    roots.promiseNatives.map (Obj.cell .native) ++ csTableMark roots.promiseMethods ++
    csTableMark roots.mapMethods ++ csTableMark roots.generatorMethods ++
    csTableMark roots.numberMethods ++ csTableMark roots.functionMethods ++
    csTableMark roots.dateMethods ++ csTableMark roots.weakMethods ++
    csTableMark roots.symbolMethods ++ csTableMark roots.bigintMethods ++
    csTableMark roots.symbolRegistry ++ ofCell .symbol roots.iteratorSymbol ++
    ofCell .symbol roots.asyncIteratorSymbol ++ csTableMark roots.regexMethods ++
    csTableMark roots.builtins ++ csTableMark roots.builtinConsts ++
    csTableMark roots.modules ++ ofCell .module_ roots.mainModule ++
    ofCell .fiber roots.currentFiber ++ csTableMark roots.arrayMethods ++
    csTableMark roots.stringMethods ++ roots.tempRoots ++
    roots.compilerFunctions.map (Obj.cell .function) ++ roots.jitReferences

def VM.isMarked (vm : VM) (object : Obj) : Bool :=
  vm.marking.isMarked object

def bigintCells (objects : List Cell) : BigIntCells :=
  fun address =>
    match findBody objects (.cell .bigint address) with
    | some (.bigint value) => value
    | _ => { limbs := [], negative := false }

end CScript
