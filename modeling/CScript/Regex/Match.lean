/-
Running a compiled pattern: a backtracking machine.

One configuration is one turn of the loop of `matchFrom`.  A lookaround calls
`matchFrom` again on the same program and slots, so a configuration has the
calls that wait for an answer besides the one that runs.
-/

import CScript.Regex.Compile

namespace CScript

/-! ### Configurations -/

structure Thread where
  pc : Nat
  sp : Int
  trail : Nat
  deriving DecidableEq, Repr

structure TrailEntry where
  slot : Nat
  value : Int
  deriving DecidableEq, Repr

abbrev Slots : Type := Nat → Int

/-- One call of `matchFrom`; threads and trail have their newest entry first. -/
structure Activation where
  pc : Nat
  sp : Int
  threads : List Thread
  trail : List TrailEntry
  stopOp : ReOp
  deriving DecidableEq, Repr

/-- A call that waits for the body of a lookaround: where it goes on, and the
slots it puts back when the assertion does not hold.  A lookbehind also has the
place its body started at. -/
structure Caller where
  frame : Activation
  negated : Bool
  continuation : Nat
  saved : Slots
  behind : Option Int

structure Config where
  frame : Activation
  callers : List Caller
  slots : Slots

inductive MatchStep where
  | running (config : Config)
  | finished (matched : Bool) (endSp : Int) (slots : Slots)
  /-- A read of a byte the subject does not have. -/
  | outsideSubject
  /-- A program counter or a class the program does not have. -/
  | outsideProgram

def newActivation (pc : Nat) (sp : Int) (stopOp : ReOp) : Activation :=
  { pc := pc, sp := sp, threads := [], trail := [], stopOp := stopOp }

/-! ### Backtracking and returning -/

def unwind (height : Nat) : List TrailEntry → Slots → List TrailEntry × Slots
  | [], slots => ([], slots)
  | entry :: trail, slots =>
      if height < (entry :: trail).length then
        unwind height trail (Function.update slots entry.slot entry.value)
      else (entry :: trail, slots)

inductive Resumed where
  /-- It goes on, or starts its body again and waits. -/
  | again (frame : Activation) (waiting : Option Caller) (slots : Slots)
  | backtracks (frame : Activation) (slots : Slots)

def Caller.conclude (caller : Caller) (held : Bool) (slots : Slots) : Resumed :=
  let wanted := !caller.negated
  let slots := if held && wanted then slots else caller.saved
  let frame := { caller.frame with pc := caller.continuation }
  if held = wanted then .again frame none slots else .backtracks frame slots

def Caller.resume (caller : Caller) (matched : Bool) (endSp : Int) (slots : Slots) : Resumed :=
  match caller.behind with
  | none => caller.conclude matched slots
  | some start =>
      if matched && decide (endSp = caller.frame.sp) then caller.conclude true slots
      else if 0 < start then
        .again (newActivation (caller.frame.pc + 1) (start - 1) .lookEnd)
          (some { caller with behind := some (start - 1) }) caller.saved
      else caller.conclude false caller.saved

/-- The most recent alternative of the innermost call that has one. -/
def backtrack (frame : Activation) (slots : Slots) : List Caller → MatchStep
  | [] =>
      match frame.threads with
      | [] => .finished false frame.sp slots
      | thread :: threads =>
          let (trail, slots) := unwind thread.trail frame.trail slots
          .running
            { frame := { frame with pc := thread.pc, sp := thread.sp, threads := threads
                                    trail := trail }
              callers := []
              slots := slots }
  | caller :: callers =>
      match frame.threads with
      | [] =>
          match caller.resume false frame.sp slots with
          | .again frame waiting slots =>
              .running { frame := frame, callers := waiting.toList ++ callers, slots := slots }
          | .backtracks frame slots => backtrack frame slots callers
      | thread :: threads =>
          let (trail, slots) := unwind thread.trail frame.trail slots
          .running
            { frame := { frame with pc := thread.pc, sp := thread.sp, threads := threads
                                    trail := trail }
              callers := caller :: callers
              slots := slots }

/-- The call that runs has matched. -/
def succeed (frame : Activation) (slots : Slots) : List Caller → MatchStep
  | [] => .finished true frame.sp slots
  | caller :: callers =>
      match caller.resume true frame.sp slots with
      | .again frame waiting slots =>
          .running { frame := frame, callers := waiting.toList ++ callers, slots := slots }
      | .backtracks frame slots => backtrack frame slots callers

/-! ### One turn of the loop -/

section

variable (regex : Regex) (subject : List UInt8)

def byteAt (sp : Int) : Option UInt8 :=
  if sp < 0 then none else subject[sp.toNat]?

def sameByte (a b : UInt8) (ignoreCase : Bool) : Bool :=
  if a = b then true
  else if !ignoreCase then false
  else
    (if isUpper a then a + 32 else a) = (if isUpper b then b + 32 else b)

/-- The loop of a back-reference; `none` is a read outside the subject. -/
def sameSpan (sp start : Int) : Nat → Option Bool
  | 0 => some true
  | span + 1 => do
      let here ← byteAt subject sp
      let there ← byteAt subject start
      if sameByte here there regex.ignoreCase then sameSpan (sp + 1) (start + 1) span
      else return false

/-- Go on behind the instruction, or backtrack when it failed. -/
def proceed (config : Config) (alive : Bool) (sp : Int) : MatchStep :=
  if alive then
    .running { config with frame := { config.frame with pc := config.frame.pc + 1, sp := sp } }
  else backtrack { config.frame with pc := config.frame.pc + 1 } config.slots config.callers

def takeByte (config : Config) (accepts : UInt8 → Bool) : MatchStep :=
  if (subject.length : Int) ≤ config.frame.sp then proceed config false config.frame.sp
  else
    match byteAt subject config.frame.sp with
    | none => .outsideSubject
    | some c => proceed config (accepts c) (config.frame.sp + 1)

def takeAny (config : Config) : MatchStep :=
  if regex.dotAll then
    proceed config (decide (config.frame.sp < subject.length)) (config.frame.sp + 1)
  else takeByte subject config (fun c => c ≠ '\n'.toUInt8)

/-- `sp > 0 && …` and `sp < length && …`; `none` is a read outside. -/
def byteTest (inside : Bool) (sp : Int) (test : UInt8 → Bool) : Option Bool :=
  if inside then (byteAt subject sp).map test else some false

def stepBackref (config : Config) (group : Nat) : MatchStep :=
  let start := config.slots (group * 2)
  let finish := config.slots (group * 2 + 1)
  if start < 0 || finish < 0 then proceed config true config.frame.sp
  else
    let span := finish - start
    if (subject.length : Int) < cInt (config.frame.sp + span) then
      proceed config false config.frame.sp
    else
      match sameSpan regex subject config.frame.sp start span.toNat with
      | none => .outsideSubject
      | some alive => proceed config alive (config.frame.sp + span)

/-- Both lookarounds call `matchFrom` on their body, a lookbehind not before the
start of the subject. -/
def stepLook (config : Config) (inst : ReInst) (behind : Option Int) : MatchStep :=
  let caller : Caller :=
    { frame := config.frame, negated := inst.x ≠ 0, continuation := inst.y
      saved := config.slots, behind := behind }
  if behind.any (fun start => start < 0) then
    match caller.conclude false config.slots with
    | .again frame _ slots => .running { frame := frame, callers := config.callers, slots := slots }
    | .backtracks frame slots => backtrack frame slots config.callers
  else
    .running
      { frame := newActivation (config.frame.pc + 1) config.frame.sp .lookEnd
        callers := caller :: config.callers
        slots := config.slots }

def stepSave (config : Config) (slot : Nat) : MatchStep :=
  .running
    { config with
      frame := { config.frame with
        pc := config.frame.pc + 1
        trail := { slot := slot, value := config.slots slot } :: config.frame.trail }
      slots := Function.update config.slots slot config.frame.sp }

def stepSplit (config : Config) (inst : ReInst) : MatchStep :=
  .running
    { config with
      frame := { config.frame with
        pc := inst.x
        threads := { pc := inst.y, sp := config.frame.sp
                     trail := config.frame.trail.length } :: config.frame.threads } }

def stepAssert (config : Config) (holds : Option Bool) : MatchStep :=
  match holds with
  | none => .outsideSubject
  | some alive => proceed config alive config.frame.sp

def assertBol (sp : Int) : Option Bool :=
  if sp = 0 then some true
  else byteTest subject regex.multiline (sp - 1) (fun c => c = '\n'.toUInt8)

def assertEol (sp : Int) : Option Bool :=
  if sp = subject.length then some true
  else byteTest subject regex.multiline sp (fun c => c = '\n'.toUInt8)

def assertWord (sp : Int) (wanted : Bool) : Option Bool := do
  let before ← byteTest subject (decide (0 < sp)) (sp - 1) csRegexIsWordByte
  let after ← byteTest subject (decide (sp < subject.length)) sp csRegexIsWordByte
  return (before != after) = wanted

def stepEnd (config : Config) (op : ReOp) : MatchStep :=
  if op = config.frame.stopOp then succeed config.frame config.slots config.callers
  else backtrack config.frame config.slots config.callers

def stepInst (config : Config) (inst : ReInst) : MatchStep :=
  match inst.op with
  | .char => takeByte subject config (fun c => c = UInt8.ofNat inst.x)
  | .any => takeAny regex subject config
  | .class_ =>
      match regex.classes[inst.x]? with
      | none => .outsideProgram
      | some set => takeByte subject config (csRegexClassHas set)
  | .backref => stepBackref regex subject config inst.x
  | .look => stepLook config inst none
  | .lookbehind => stepLook config inst (some config.frame.sp)
  | .assertBol => stepAssert config (assertBol regex subject config.frame.sp)
  | .assertEol => stepAssert config (assertEol regex subject config.frame.sp)
  | .assertWord => stepAssert config (assertWord subject config.frame.sp (inst.x = 1))
  | .save => stepSave config inst.x
  | .split => stepSplit config inst
  | .jump => .running { config with frame := { config.frame with pc := inst.x } }
  | .lookEnd => stepEnd config .lookEnd
  | .match_ => stepEnd config .match_

def stepMatch (config : Config) : MatchStep :=
  match regex.code[config.frame.pc]? with
  | none => .outsideProgram
  | some inst => stepInst regex subject config inst

/-! ### A whole call -/

/-- `matchFrom` on the whole program, with no group set. -/
def matchStart (at_ : Nat) : Config :=
  { frame := newActivation 0 at_ .match_, callers := [], slots := fun _ => -1 }

inductive MatchResult where
  | exhausted
  | answered (matched : Bool) (slots : Slots) (steps : Nat)
  | outsideSubject
  | outsideProgram

/-- The loop, with the steps that are left before it gives up. -/
def runMatch : Nat → Config → MatchResult
  | 0, _ => .exhausted
  | steps + 1, config =>
      match stepMatch regex subject config with
      | .running next => runMatch steps next
      | .finished matched _ slots => .answered matched slots steps
      | .outsideSubject => .outsideSubject
      | .outsideProgram => .outsideProgram

structure RegexMatch where
  /-- The start and the end of each group, or -1. -/
  groups : List (Int × Int)
  deriving DecidableEq, Repr

def readGroups (slots : Slots) : RegexMatch :=
  { groups := (List.range regex.groupCount).map
      (fun group => (slots (group * 2), slots (group * 2 + 1))) }

inductive SearchResult where
  | found (result : RegexMatch)
  | missing
  | outOfSteps
  | outsideSubject
  | outsideProgram
  deriving DecidableEq, Repr

/-- The leftmost scan: `places` start positions from `at_` on, on one budget. -/
def searchFrom : Nat → Nat → Nat → SearchResult
  | 0, _, _ => .missing
  | places + 1, at_, steps =>
      match runMatch regex subject steps (matchStart at_) with
      | .exhausted => .outOfSteps
      | .answered true slots _ => .found (readGroups regex slots)
      | .answered false _ left => searchFrom places (at_ + 1) left
      | .outsideSubject => .outsideSubject
      | .outsideProgram => .outsideProgram

def csRegexSearch (start : Nat) : SearchResult :=
  searchFrom regex subject (subject.length + 1 - start) start CS_REGEX_MAX_STEPS

end

end CScript
