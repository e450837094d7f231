/-
Captured locals on one stack: upvalues, the list of the open ones, and what opens
and closes them.

An upvalue points at a slot while the local is on the stack, and at its own cell
afterwards.  Instructions that only push or only pop are one action each, whatever
they compute.
-/

import CScript.Foundation.DescendingList
import CScript.Runtime.Value
import Mathlib.Logic.Function.Basic

namespace CScript.Upvalues

open Foundation.DescendingList

/-! ### The machine -/

/-- Where `location` points: a slot of the stack, or the upvalue's own `closed`. -/
inductive Location where
  | slot (slot : Nat)
  | closed
  deriving DecidableEq, Repr

structure ObjUpvalue where
  location : Location
  closed : Value
  deriving DecidableEq, Repr

structure CallFrame where
  closure : Nat
  slots : Nat
  deriving DecidableEq, Repr

structure ExceptionHandler where
  frameCount : Nat
  stackTop : Nat
  deriving DecidableEq, Repr

/-- `openUpvalues` is the list the `next` fields make, and `closures` the upvalues
of each closure; frames and handlers come innermost first.  `frame` is the one the
interpreter loop runs, which it holds beside the array of frames. -/
structure VM where
  slots : Nat → Value
  stackTop : Nat
  stackCapacity : Nat
  upvalues : Nat → ObjUpvalue
  upvalueCount : Nat
  openUpvalues : List Nat
  closures : List (List Nat)
  frames : List CallFrame
  handlers : List ExceptionHandler
  frame : CallFrame

def VM.slotOf (vm : VM) (upvalue : Nat) : Nat :=
  match (vm.upvalues upvalue).location with
  | .slot slot => slot
  | .closed => 0

/-- `*upvalue->location`. -/
def VM.read (vm : VM) (upvalue : Nat) : Value :=
  match (vm.upvalues upvalue).location with
  | .slot slot => vm.slots slot
  | .closed => (vm.upvalues upvalue).closed

def VM.write (vm : VM) (upvalue : Nat) (value : Value) : VM :=
  match (vm.upvalues upvalue).location with
  | .slot slot => { vm with slots := Function.update vm.slots slot value }
  | .closed =>
      { vm with
        upvalues := Function.update vm.upvalues upvalue { location := .closed, closed := value } }

def VM.upvalueOf (vm : VM) (closure index : Nat) : Option Nat :=
  (vm.closures[closure]?).bind (fun upvalues => upvalues[index]?)

/-! ### Capturing and closing -/

/-- A new upvalue that points at a slot, in no list yet. -/
def csUpvalueNew (vm : VM) (slot : Nat) : VM :=
  { vm with
    upvalues := Function.update vm.upvalues vm.upvalueCount
      { location := .slot slot, closed := .undefined }
    upvalueCount := vm.upvalueCount + 1 }

/-- The list is walked past what is above `local_`; what is there is shared, and a
new upvalue goes in where the walk stops. -/
def captureUpvalue (vm : VM) (local_ : Nat) : Nat × VM :=
  let (upvalue, openUpvalues) := place vm.slotOf local_ vm.upvalueCount vm.openUpvalues
  if upvalue = vm.upvalueCount then (upvalue, { csUpvalueNew vm local_ with openUpvalues })
  else (upvalue, vm)

/-- The body of the `while` of `closeUpvalues`. -/
def closeUpvalue (vm : VM) (upvalue : Nat) : VM :=
  { vm with
    upvalues := Function.update vm.upvalues upvalue
      { location := .closed, closed := vm.read upvalue } }

def closeFrom (vm : VM) (last : Nat) : List Nat → VM
  | [] => { vm with openUpvalues := [] }
  | upvalue :: rest =>
      if last ≤ vm.slotOf upvalue then closeFrom (closeUpvalue vm upvalue) last rest
      else { vm with openUpvalues := upvalue :: rest }

def closeUpvalues (vm : VM) (last : Nat) : VM :=
  closeFrom vm last vm.openUpvalues

/-! ### Instructions -/

def resetStack (vm : VM) : VM :=
  { vm with stackTop := 0, frames := [], handlers := [], openUpvalues := [] }

def csVMPush (vm : VM) (value : Value) : VM :=
  if vm.stackTop ≥ vm.stackCapacity then resetStack vm
  else
    { vm with
      slots := Function.update vm.slots vm.stackTop value, stackTop := vm.stackTop + 1 }

/-- The pairs `OP_CLOSURE` is followed by: a local of this frame, or an upvalue of
its closure. -/
def captureAll (vm : VM) : List (Bool × Nat) → Option (VM × List Nat)
  | [] => some (vm, [])
  | (true, index) :: rest =>
      let (upvalue, captured) := captureUpvalue vm (vm.frame.slots + index)
      (captureAll captured rest).map (fun (after, upvalues) => (after, upvalue :: upvalues))
  | (false, index) :: rest =>
      (vm.upvalueOf vm.frame.closure index).bind (fun upvalue =>
        (captureAll vm rest).map (fun (after, upvalues) => (after, upvalue :: upvalues)))

def opClosure (vm : VM) (captures : List (Bool × Nat)) : Option VM :=
  (captureAll (csVMPush vm (.obj (.cell .closure vm.closures.length))) captures).map
    (fun (after, upvalues) => { after with closures := after.closures ++ [upvalues] })

/-- What is at or above `last` goes, and `value` is left in its place. -/
def leaveAt (vm : VM) (last : Nat) (value : Value) : VM :=
  csVMPush { closeUpvalues vm last with stackTop := last } value

def popFrame (vm : VM) (frames : List CallFrame) : VM :=
  { vm with frames, frame := frames.headD vm.frame }

/-- Returning past a `try` abandons its handler. -/
def abandonHandlers (vm : VM) : VM :=
  { vm with
    handlers := vm.handlers.dropWhile (fun handler => vm.frames.length ≤ handler.frameCount) }

def opReturn (vm : VM) : Option VM :=
  match vm.frames with
  | [] => none
  | _ :: callers =>
      let result := vm.slots (vm.stackTop - 1)
      some (popFrame (leaveAt (abandonHandlers vm) vm.frame.slots result) callers)

/-- The frames a throw escapes, closing what their locals were captured into. -/
def discardFrames (vm : VM) (frameCount : Nat) : List CallFrame → VM
  | [] => { vm with frames := [] }
  | frame :: callers =>
      if frameCount < callers.length + 1 then
        discardFrames (closeUpvalues vm frame.slots) frameCount callers
      else { vm with frames := frame :: callers }

def takeHandler (vm : VM) : VM :=
  { vm with handlers := vm.handlers.tail }

/-- A throw that no handler of this loop takes leaves the machine to an outer one. -/
def performThrow (vm : VM) (thrown : Value) (baseFrame : Nat) : VM :=
  match vm.handlers with
  | [] => vm
  | handler :: _ =>
      if handler.frameCount ≤ baseFrame then vm
      else
        let discarded := discardFrames (takeHandler vm) handler.frameCount vm.frames
        leaveAt (popFrame discarded discarded.frames) handler.stackTop thrown

inductive Action where
  | push (value : Value)
  | pop (count : Nat)
  | setLocal (index : Nat)
  | closure (captures : List (Bool × Nat))
  | getUpvalue (index : Nat)
  | setUpvalue (index : Nat)
  | closeUpvalue
  | call (closure argCount : Nat)
  | return_
  | try_
  | endTry
  | throw (thrown : Value) (baseFrame : Nat)
  deriving Repr

def step (vm : VM) : Action → Option VM
  | .push value => some (csVMPush vm value)
  | .pop count => some { vm with stackTop := vm.stackTop - count }
  | .setLocal index =>
      some { vm with
        slots := Function.update vm.slots (vm.frame.slots + index) (vm.slots (vm.stackTop - 1)) }
  | .closure captures => opClosure vm captures
  | .getUpvalue index =>
      (vm.upvalueOf vm.frame.closure index).map (fun upvalue => csVMPush vm (vm.read upvalue))
  | .setUpvalue index =>
      (vm.upvalueOf vm.frame.closure index).map
        (fun upvalue => vm.write upvalue (vm.slots (vm.stackTop - 1)))
  | .closeUpvalue =>
      let closed := closeUpvalues vm (vm.stackTop - 1)
      some { closed with stackTop := vm.stackTop - 1 }
  | .call closure argCount =>
      let frame := { closure, slots := vm.stackTop - argCount - 1 }
      some { vm with frames := frame :: vm.frames, frame }
  | .return_ => opReturn vm
  | .try_ =>
      let handler := { frameCount := vm.frames.length, stackTop := vm.stackTop }
      some { vm with handlers := handler :: vm.handlers }
  | .endTry => some (takeHandler vm)
  | .throw thrown baseFrame => some (performThrow vm thrown baseFrame)

/-! ### What an action releases and writes -/

def Releases (vm : VM) (slot : Nat) : Action → Prop
  | .push _ | .getUpvalue _ | .closure _ => vm.stackCapacity ≤ vm.stackTop
  | .closeUpvalue => vm.stackTop - 1 ≤ slot
  | .return_ => vm.frame.slots ≤ slot ∨ vm.stackCapacity ≤ vm.frame.slots
  | .throw _ baseFrame =>
      ∃ handler outer, vm.handlers = handler :: outer ∧ baseFrame < handler.frameCount ∧
        (handler.stackTop ≤ slot ∨ vm.stackCapacity ≤ handler.stackTop ∨
          ∃ frame ∈ vm.frames.take (vm.frames.length - handler.frameCount), frame.slots ≤ slot)
  | _ => False

inductive Cell where
  | slot (slot : Nat)
  | closed (upvalue : Nat)
  deriving DecidableEq, Repr

def VM.cell (vm : VM) (upvalue : Nat) : Cell :=
  match (vm.upvalues upvalue).location with
  | .slot slot => .slot slot
  | .closed => .closed upvalue

def Writes (vm : VM) (cell : Cell) : Action → Prop
  | .push _ | .getUpvalue _ | .closure _ => cell = .slot vm.stackTop
  | .setLocal index => cell = .slot (vm.frame.slots + index)
  | .setUpvalue index => ∃ upvalue, vm.upvalueOf vm.frame.closure index = some upvalue ∧
      cell = vm.cell upvalue
  | .return_ => cell = .slot vm.frame.slots
  | .throw _ _ => ∃ handler ∈ vm.handlers.head?, cell = .slot handler.stackTop
  | _ => False

end CScript.Upvalues
