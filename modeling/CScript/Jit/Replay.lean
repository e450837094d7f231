/-
Replaying bytecode that was handed over to the interpreter.

Between an exit and the next jump target the lowering knows the height of the
operand stack and what some slots hold only by working out what the interpreter
does there.  The height always comes out right.  The types do where arithmetic
meets no BigInt, no call writes a captured local with another kind of value, and
no local is read above the stack.
-/

import CScript.Jit.Frame
import CScript.Jit.Ir
import Mathlib.Logic.Relation

namespace CScript.Jit

open Compile (OpCode)

/-! ### The source -/

def IR_MAX_STACK : Nat := 64

structure Replayed where
  height : Nat
  slotType : Nat → IrType

namespace Replayed

def replayPush (replayed : Replayed) (type : IrType) : Option Replayed :=
  if IR_MAX_STACK ≤ replayed.height then none
  else some
    { height := replayed.height + 1
      slotType := Function.update replayed.slotType replayed.height type }

def replayPop (replayed : Replayed) (count : Nat) : Option Replayed :=
  if replayed.height < count then none else some { replayed with height := replayed.height - count }

def setType (replayed : Replayed) (slot : Nat) (type : IrType) : Replayed :=
  { replayed with slotType := Function.update replayed.slotType slot type }

end Replayed

abbrev Refused := Option OpCode

/-- `ok` was false. -/
def orRefuse (op : OpCode) : Option Replayed → Except Refused Replayed
  | none => .error (some op)
  | some replayed => .ok replayed

/-- `replayPop(&height, count) && replayPush(replayed, &height, type)`. -/
def replace (op : OpCode) (count : Nat) (type : IrType) (replayed : Replayed) :
    Except Refused Replayed :=
  orRefuse op do (← replayed.replayPop count).replayPush type

def IrType.Holds : IrType → Value → Prop
  | .number, value => value.asNumber.isSome
  | .bool, value => ∃ b, value = .bool b
  | .unknown, _ => True

def TypesHold (slotType : Nat → IrType) (frame : Frame) : Prop :=
  ∀ slot < frame.height, (slotType slot).Holds (frame.slots slot)

/-- No captured local below `base` changes its kind. -/
def KeepsKinds (frame after : Frame) (base : Nat) : Prop :=
  ∀ slot < base, frame.captured slot = true →
    ∀ type : IrType, type.Holds (frame.slots slot) → type.Holds (after.slots slot)

/-- The model of a frame: its height, and what its slots hold as far as `typed`
is granted. -/
structure Follows (typed : Prop) (replayed : Replayed) (frame : Frame) : Prop where
  height : frame.height = replayed.height
  sound : typed → TypesHold replayed.slotType frame

namespace Follows

variable {typed : Prop} {replayed next : Replayed} {frame after : Frame}

theorem push {type : IrType} {value : Value} (follows : Follows typed replayed frame)
    (pushed : replayed.replayPush type = some next) (holds : typed → type.Holds value) :
    Follows typed next (frame.push value) := by
  unfold Replayed.replayPush at pushed
  split at pushed
  · cases pushed
  · cases pushed
    refine ⟨congrArg (· + 1) follows.height, fun granted slot below => ?_⟩
    change (Function.update replayed.slotType replayed.height type slot).Holds
      (Function.update frame.slots frame.height value slot)
    rw [← follows.height]
    by_cases top : slot = frame.height
    · rw [top, Function.update_self, Function.update_self]
      exact holds granted
    · rw [Function.update_of_ne top, Function.update_of_ne top]
      have lower : slot < frame.height + 1 := below
      exact follows.sound granted slot (by omega)

theorem drop {count : Nat} (follows : Follows typed replayed frame)
    (popped : replayed.replayPop count = some next) : Follows typed next (frame.drop count) := by
  unfold Replayed.replayPop at popped
  split at popped
  · cases popped
  · cases popped
    refine ⟨congrArg (· - count) follows.height, fun granted slot below => ?_⟩
    have lower : slot < frame.height - count := below
    exact follows.sound granted slot (by omega)

theorem setSlot {slot : Nat} {type : IrType} {value : Value}
    (follows : Follows typed replayed frame) (holds : typed → type.Holds value) :
    Follows typed (replayed.setType slot type) (frame.setSlot slot value) := by
  refine ⟨follows.height, fun granted other below => ?_⟩
  change (Function.update replayed.slotType slot type other).Holds
    (Function.update frame.slots slot value other)
  by_cases same : other = slot
  · rw [same, Function.update_self, Function.update_self]
    exact holds granted
  · rw [Function.update_of_ne same, Function.update_of_ne same]
    exact follows.sound granted other below

theorem peek {distance : Nat} (follows : Follows typed replayed frame)
    (inside : distance < frame.height) (granted : typed) :
    (replayed.slotType (replayed.height - 1 - distance)).Holds (frame.peek distance) := by
  rw [← follows.height]
  exact follows.sound granted _ (by omega)

theorem congr (follows : Follows typed replayed frame) (height : after.height = frame.height)
    (slots : after.slots = frame.slots) : Follows typed replayed after := by
  refine ⟨height.trans follows.height, fun granted slot below => ?_⟩
  rw [slots]
  exact follows.sound granted slot (height ▸ below)

theorem calls {count : Nat} {popped : Replayed} (follows : Follows typed replayed frame)
    (pops : replayed.replayPop count = some popped)
    (pushes : popped.replayPush .unknown = some next)
    (calls : frame.Calls after (frame.height - count))
    (keeps : typed → KeepsKinds frame after (frame.height - count)) :
    Follows typed next after := by
  obtain ⟨_, height, below⟩ := calls
  unfold Replayed.replayPop at pops
  unfold Replayed.replayPush at pushes
  split at pops
  · cases pops
  · cases pops
    split at pushes
    · cases pushes
    · cases pushes
      refine ⟨height.trans (congrArg (· - count + 1) follows.height), fun granted slot lower => ?_⟩
      change (Function.update replayed.slotType (replayed.height - count) .unknown slot).Holds _
      rw [← follows.height]
      by_cases top : slot = frame.height - count
      · rw [top, Function.update_self]
        trivial
      · rw [Function.update_of_ne top]
        rw [height] at lower
        have before := follows.sound granted slot (by omega)
        have inside : slot < frame.height - count := by omega
        cases captured : frame.captured slot with
        | false =>
            rw [(below slot inside).2 captured]
            exact before
        | true => exact keeps granted slot inside captured _ before

end Follows

section Instruction

variable {chunk : Bytecode} {op : OpCode} {typed : Prop} {replayed next : Replayed}
  {frame after : Frame}

end Instruction

/-! ### Runs -/

section Runs

variable {chunk : Bytecode} {typed : Prop} {stop : Nat} {replayed answer : Replayed}
  {jump : ReplayJump} {frame last after : Frame}

end Runs

/-! ### A BigInt -/

/-- `i++`, the counter in slot 0. -/
def increment : Bytecode :=
  { code := [OpCode.OP_INC_LOCAL.byte, 0]
    constants := []
    upvalueCount := fun _ => 0 }

end CScript.Jit
