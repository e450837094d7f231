/-
The doors into compiled code, and when one starts what the interpreter would.

Each call path asks the compiler in its own way, after a different part of the
interpreter's prologue.  A call answered by compiled code starts with the frame
the interpreter's door would have pushed exactly where it passes the checks that
door makes, and what each path leaves out is what the condition has to add.
-/

import CScript.Jit.Tiering

namespace CScript.Jit

/-! ### The doors -/

/-- The ways a call reaches a closure.  `memberCall` is a static method or a
call through `super`, and `callbackBound` a bound method called from a native. -/
inductive Door where
  | call
  | fromCompiled
  | boundMethod (receiver : Value) (presets : List Value)
  | callback
  | callbackBound (receiver : Value)
  | method (receiver : Value)
  | memberCall (receiver : Value)
  | constructFunction (built : Value)
  | constructClass (instance_ : Value)
  deriving Repr

/-- What a door leaves: the start of a call the interpreter goes on with, or
what compiled code made of it. -/
inductive DoorResult where
  | started (start : Start)
  | answered (out : Value)
  | deoptimised (start : Start) (slots : List Value) (offset height : Nat)
  | failed
  deriving Repr

def callMethod (vm : VM) (function : ObjFunction) (receiver : Value) (args : List FrameSlot) :
    Start :=
  if function.isGenerator then callGeneratorFunction function receiver args
  else if function.isAsync then callAsyncFunction function receiver args
  else csVMCallClosureWith vm function receiver args true

def notAConstructor (function : ObjFunction) : List UInt8 :=
  ascii "'new' needs a class or an ordinary function, and " ++
    (if function.isGenerator then ascii "a generator" else ascii "an async function") ++
    ascii " is neither"

def isOrdinary (function : ObjFunction) : Bool :=
  !function.isGenerator && !function.isAsync

/-- A call the compiler was offered, and what is done where it declines. -/
def offered (result : JitRunResult) (declined : Start) : DoorResult :=
  match result with
  | .declined => .started declined
  | .answered out => .answered out
  | .deoptimised start slots offset height => .deoptimised start slots offset height
  | .failed => .failed

/-- `OP_NEW` on a function. -/
def constructFunction (hot : List HotEntry) (vm : VM) (function : ObjFunction) (built : Value)
    (args : List Value) : DoorResult :=
  if isOrdinary function then
    offered (csJitTryRun hot vm function built built args)
      (csVMCallClosureWith vm function built (args.map .value) true)
  else .started (.error (notAConstructor function))

/-- `OP_NEW` on a class whose constructor is `function`. -/
def constructClass (hot : List HotEntry) (vm : VM) (function : ObjFunction) (instance_ : Value)
    (args : List Value) : DoorResult :=
  offered (csJitTryRun hot vm function instance_ instance_ args)
    (callMethod vm function instance_ (args.map .value))

/-- The body is run, and does not abandon the call: the addresses it holds are
good, there is room to announce its frame, and it leaves by a way out it has. -/
def Finishes (vm : VM) (entry : HotEntry) (ir : IrFunction) (receiver : Value)
    (args : List Value) : Prop :=
  match entry.code with
  | some code =>
      assumptionsHold vm.heap code.toCodeGlobals = true ∧ vm.jitRootRanges < CS_JIT_ROOT_MAX ∧
        ∀ (index : Nat) (left : List Value),
          code.entry (entryFrame ir.slotCount receiver args) = .exited index left →
            index < code.exits.length
  | none =>
      vm.jitRootRanges + 2 ≤ CS_JIT_ROOT_MAX ∧
        entry.interpret (interpretFrame ir.slotCount args) ≠ none

structure Enters (hot : List HotEntry) (vm : VM) (function : ObjFunction) (receiver : Value)
    (args : List Value) (entry : HotEntry) (ir : IrFunction) : Prop where
  runnable : isRunnable function = true
  found : hotEntry hot function = some entry
  lowered : entry.ir = some ir
  allowed : entryAllowed vm.heap entry ir function receiver args = true
  finishes : Finishes vm entry ir receiver args

def interpretedSlotZero (function : ObjFunction) (callee : Value) : Door → Value
  | .method receiver => receiver
  | .constructFunction built => built
  | .constructClass instance_ => instance_
  | _ => slotZeroOf function callee false

def bodySlotZero (entry : HotEntry) (receiver : Value) : Value :=
  match entry.code with
  | some _ => receiver
  | none => .undefined

def restSlot (function : ObjFunction) : Nat :=
  function.paramCount - 1 + 1

/-- The checks of the interpreter's door: the body is run at once, the arguments
have the types and the number the parameters ask for, a rest parameter's slot is
out of the body's reach, a frame can be pushed, and slot 0 is what the
interpreter would put there. -/
structure Passes (vm : VM) (function : ObjFunction) (callee : Value) (args : List Value)
    (door : Door) (receiver : Value) (entry : HotEntry) (ir : IrFunction) : Prop where
  ordinary : isOrdinary function = true
  typed : parameterTypesHold function (args.map .value) = none
  supplied : function.arity ≤ args.length
  fits : function.hasRest = false → args.length ≤ function.paramCount
  gathers : function.hasRest = true → ir.slotCount ≤ restSlot function
  room : vm.frameCount ≠ vm.frameCapacity
  slotZero : ir.slotCount ≠ 0 →
    bodySlotZero entry receiver = interpretedSlotZero function callee door

/-! ### The interpreter's frame -/

theorem padded_length (args : List FrameSlot) (count : Nat) (fits : args.length ≤ count) :
    (padded args count).length = count := by
  unfold padded
  rw [List.length_append, List.length_replicate]
  omega

theorem Enters.unique {hot : List HotEntry} {vm : VM} {function : ObjFunction}
    {receiver : Value} {args : List Value} {entry other : HotEntry} {ir body : IrFunction}
    (enters : Enters hot vm function receiver args entry ir)
    (also : Enters hot vm function receiver args other body) : other = entry ∧ body = ir := by
  have entries : other = entry := Option.some.inj (also.found.symm.trans enters.found)
  subst entries
  exact ⟨rfl, Option.some.inj (also.lowered.symm.trans enters.lowered)⟩

/-- `twice(x: number) { return x + x }`, a class method with machine code. -/
def twice : ObjFunction :=
  { address := 0, name := some ⟨ascii "twice"⟩, arity := 1, paramCount := 1, hasRest := false
    isAsync := false, isMethod := true, isGenerator := false, usesThis := false
    paramTypes := some [.number], observedParams := none, returnType := .number
    jitState := .compiled, jitSlot := some 0 }

end CScript.Jit
