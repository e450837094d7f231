/-
`replace` and `replaceAll` with a pattern.

The result is built in a buffer that is reserved from an estimate once a match.
Every write is recorded with the length and the capacity there were before it;
a read outside the subject ends the call as undefined.  Sizes do not wrap and
every allocation succeeds.  A replacer is user code, so its answer may depend on
the turn as well as on its arguments.
-/

import CScript.Regex.Match
import Mathlib.Algebra.Group.Int.Defs

namespace CScript.RegexReplace

/-! ### The buffer -/

/-- `bytes` are written behind the first `length` of `capacity`. -/
structure Write where
  length : Nat
  bytes : Nat
  capacity : Nat
  deriving DecidableEq, Repr

structure Buffer where
  out : List UInt8
  capacity : Nat
  writes : List Write
  deriving DecidableEq, Repr

def Buffer.length (buffer : Buffer) : Nat :=
  buffer.out.length

def Buffer.record (buffer : Buffer) (bytes : Nat) : Buffer :=
  { buffer with
    writes := { length := buffer.length, bytes := bytes, capacity := buffer.capacity } ::
      buffer.writes }

/-- `out[length++] = c`, or a `memcpy` of known bytes. -/
def Buffer.put (buffer : Buffer) (bytes : List UInt8) : Buffer :=
  { buffer.record bytes.length with out := buffer.out ++ bytes }

def Buffer.reserve (buffer : Buffer) (needed capacity : Nat) : Buffer :=
  if buffer.capacity < needed then { buffer with capacity := capacity } else buffer

/-- `(size_t)value` of an `int`. -/
def sizeT (value : Int) : Nat :=
  if 0 ≤ value then value.toNat else (value + 2 ^ 64).toNat

def span (subject : List UInt8) (start finish : Int) : List UInt8 :=
  (subject.take finish.toNat).drop start.toNat

def SpanOf (subject : List UInt8) (start finish : Int) : Prop :=
  0 ≤ start ∧ start ≤ finish ∧ finish ≤ subject.length

instance (subject : List UInt8) (start finish : Int) :
    Decidable (SpanOf subject start finish) :=
  inferInstanceAs (Decidable (0 ≤ start ∧ start ≤ finish ∧ finish ≤ subject.length))

/-- `memcpy(out + length, subject->chars + start, (size_t)(finish - start))`.
The error is a copy that leaves the subject. -/
def copySpan (subject : List UInt8) (start finish : Int) (buffer : Buffer) :
    Except Buffer Buffer :=
  if SpanOf subject start finish then .ok (buffer.put (span subject start finish))
  else .error (buffer.record (sizeT (finish - start)))

/-! ### The template -/

def groupOf (result : RegexMatch) (group : Nat) : Int × Int :=
  result.groups.getD group (-1, -1)

def csRegexNameCount (regex : Regex) : Nat :=
  regex.names.length

/-- The names end at their first NUL; `none` is -1. -/
def csRegexGroupNamed (regex : Regex) (name : List UInt8) : Option Nat :=
  (regex.names.find? fun entry => entry.name.takeWhile (fun c => c ≠ 0) = name).map
    ReGroupName.group

inductive TemplateUnit where
  | character (c : UInt8)
  | whole
  | group (group : Nat)
  | nothing
  deriving DecidableEq, Repr

/-- The unit that begins with `c`, and how many of the characters behind it
belong to it. -/
def templateUnit (regex : Regex) (c : UInt8) : List UInt8 → TemplateUnit × Nat
  | [] => (.character c, 0)
  | next :: behind =>
      if c ≠ '$'.toUInt8 then (.character c, 0)
      else if next = '$'.toUInt8 then (.character '$'.toUInt8, 1)
      else if next = '&'.toUInt8 then (.whole, 1)
      else if '1'.toUInt8 ≤ next ∧ next ≤ '9'.toUInt8 then
        (.group (next - '0'.toUInt8).toNat, 1)
      else if next = '<'.toUInt8 then
        let name := behind.takeWhile (fun c => c ≠ '>'.toUInt8)
        let named := decide (0 < csRegexNameCount regex)
        if !named || decide (behind.length ≤ name.length) then (.character c, 0)
        else
          match csRegexGroupNamed regex name with
          | none => (.nothing, name.length + 2)
          | some group => (.group group, name.length + 2)
      else (.character c, 0)

section

variable (regex : Regex) (subject : List UInt8) (result : RegexMatch)

def writeUnit (buffer : Buffer) : TemplateUnit → Except Buffer Buffer
  | .character c => .ok (buffer.put [c])
  | .whole => copySpan subject (groupOf result 0).1 (groupOf result 0).2 buffer
  | .group group =>
      if group < result.groups.length ∧ 0 ≤ (groupOf result group).1 then
        copySpan subject (groupOf result group).1 (groupOf result group).2 buffer
      else .ok buffer
  | .nothing => .ok buffer

/-- The loop over the template, which first passes the characters that are part
of the unit before. -/
def writeTemplate : Nat → List UInt8 → Buffer → Except Buffer Buffer
  | _, [], buffer => .ok buffer
  | used + 1, _ :: template, buffer => writeTemplate used template buffer
  | 0, c :: template, buffer => do
      let (unit, used) := templateUnit regex c template
      let written ← writeUnit subject result buffer unit
      writeTemplate used template written

end

/-! ### The replacer -/

inductive Argument where
  | undefined
  | text (chars : List UInt8)
  | number (value : Int)
  deriving DecidableEq, Repr

/-- `csStringCopy(subject->chars + start, finish - start)`. -/
def copiedText (subject : List UInt8) (start finish : Int) : Option Argument :=
  if SpanOf subject start finish then some (.text (span subject start finish)) else none

/-- The arguments of `callReplacer`, which passes at most thirteen captures;
`none` when a copy leaves the subject. -/
def replacerArguments (subject : List UInt8) (result : RegexMatch) : Option (List Argument) := do
  let whole ← copiedText subject (groupOf result 0).1 (groupOf result 0).2
  let captures ← ((result.groups.drop 1).take 13).mapM fun group =>
    if group.1 < 0 then some .undefined else copiedText subject group.1 group.2
  return whole :: captures ++ [.number (groupOf result 0).1, .text subject]

/-! ### One call -/

structure ObjRegex where
  program : Regex
  source : List UInt8
  global : Bool
  lastIndex : Int

inductive Replacement where
  | text (template : List UInt8)
  /-- The turn, the arguments, and the text returned or the error thrown. -/
  | function (replacer : Nat → List Argument → Except (List UInt8) (List UInt8))

structure Call where
  subject : List UInt8
  regex : ObjRegex
  replacement : Replacement
  all : Bool

/-- `all || regex->global`. -/
def Call.everywhere (call : Call) : Bool :=
  call.all || call.regex.global

structure ReplaceState where
  buffer : Buffer
  place : Int
  turn : Nat

def Call.start (call : Call) : ReplaceState :=
  { buffer := { out := [], capacity := call.subject.length + 16, writes := [] }
    place := 0
    turn := 0 }

def tookTooLong (regex : ObjRegex) : List UInt8 :=
  ascii "regular expression /" ++ regex.source ++ ascii "/ took too long on this input"

inductive TurnResult where
  | next (state : ReplaceState)
  /-- The loop is left. -/
  | leaves (state : ReplaceState)
  | failed (message : List UInt8) (buffer : Buffer)
  | undefined (buffer : Buffer)

/-- `replacement != NULL ? replacement->length : 0`. -/
def Replacement.length : Replacement → Nat
  | .text template => template.length
  | .function _ => 0

/-- What is reserved before a match that starts at `start` is written. -/
def Call.needed (call : Call) (state : ReplaceState) (start : Int) : Nat :=
  state.buffer.length + sizeT (start - state.place) + call.replacement.length +
    call.subject.length

def passEmpty (subject : List UInt8) (result : RegexMatch) (buffer : Buffer) :
    Except Buffer Buffer :=
  let (start, finish) := groupOf result 0
  if finish = start ∧ finish < subject.length then copySpan subject finish (finish + 1) buffer
  else .ok buffer

def nextPlace (result : RegexMatch) : Int :=
  let (start, finish) := groupOf result 0
  if finish = start then finish + 1 else finish

/-- `!everywhere || from > subject->length`. -/
def Call.stops (call : Call) (result : RegexMatch) : Bool :=
  !call.everywhere || decide ((call.subject.length : Int) < nextPlace result)

def Call.advance (call : Call) (result : RegexMatch) (turn : Nat) (buffer : Buffer) :
    TurnResult :=
  match passEmpty call.subject result buffer with
  | .error buffer => .undefined buffer
  | .ok buffer =>
      let state : ReplaceState :=
        { buffer := buffer, place := nextPlace result, turn := turn + 1 }
      if call.stops result then .leaves state else .next state

def Call.expand (call : Call) (result : RegexMatch) (turn : Nat) (buffer : Buffer) :
    TurnResult :=
  match call.replacement with
  | .text template =>
      match writeTemplate call.regex.program call.subject result 0 template buffer with
      | .error buffer => .undefined buffer
      | .ok buffer => call.advance result turn buffer
  | .function replacer =>
      match replacerArguments call.subject result with
      | none => .undefined buffer
      | some arguments =>
          match replacer turn arguments with
          | .error message => .failed message buffer
          | .ok produced =>
              let needed := buffer.length + produced.length + 1
              call.advance result turn ((buffer.reserve needed (needed * 2)).put produced)

/-- One turn of the loop.  A search does not begin before the subject. -/
def replaceTurn (call : Call) (state : ReplaceState) : TurnResult :=
  if state.place < 0 then .undefined state.buffer
  else
    match csRegexSearch call.regex.program call.subject state.place.toNat with
    | .outOfSteps => .failed (tookTooLong call.regex) state.buffer
    | .missing => .leaves state
    | .outsideSubject => .undefined state.buffer
    | .outsideProgram => .undefined state.buffer
    | .found result =>
        let start := (groupOf result 0).1
        let needed := call.needed state start
        let reserved := state.buffer.reserve needed (needed * 2)
        match copySpan call.subject state.place start reserved with
        | .error buffer => .undefined buffer
        | .ok buffer => call.expand result state.turn buffer

inductive ReplaceResult where
  | replaced (text : List UInt8) (lastIndex : Int)
  | failed (message : List UInt8)
  | undefined
  /-- The turns have run out. -/
  | running
  deriving DecidableEq, Repr

def Call.copyRest (call : Call) (state : ReplaceState) : Except Buffer Buffer :=
  if state.place ≤ call.subject.length then
    let needed := state.buffer.length + sizeT (call.subject.length - state.place) + 1
    copySpan call.subject state.place call.subject.length (state.buffer.reserve needed needed)
  else .ok state.buffer

/-- The string made of the buffer has an `int` for its length. -/
def finishReplace (call : Call) (state : ReplaceState) : ReplaceResult × Buffer :=
  match call.copyRest state with
  | .error buffer => (.undefined, buffer)
  | .ok buffer =>
      let length := cInt buffer.length
      if length < 0 then (.undefined, buffer)
      else
        (.replaced (buffer.out.take length.toNat)
          (if call.regex.global then 0 else call.regex.lastIndex), buffer)

/-- The loop, for so many turns. -/
def replaceLoop (call : Call) : Nat → ReplaceState → ReplaceResult × Buffer
  | 0, state => (.running, state.buffer)
  | turns + 1, state =>
      match replaceTurn call state with
      | .next state => replaceLoop call turns state
      | .leaves state => finishReplace call state
      | .failed message buffer => (.failed message, buffer)
      | .undefined buffer => (.undefined, buffer)

/-- The second argument is none when it is missing, and neither a string nor
callable. -/
def csRegexStringReplace (subject : List UInt8) (regex : ObjRegex)
    (replacement : Option Replacement) (all : Bool) (turns : Nat) : ReplaceResult × List Write :=
  match replacement with
  | none => (.failed (ascii "replacing with a pattern needs a string or a function"), [])
  | some replacement =>
      let call : Call :=
        { subject := subject, regex := regex, replacement := replacement, all := all }
      let (result, buffer) := replaceLoop call turns call.start
      (result, buffer.writes)

/-- A test of what a call with a pattern and a template comes to. -/
def comesTo (pattern subject template : String) (global : Bool) (turns : Nat)
    (test : Regex → ReplaceResult × List Write → Bool) : Bool :=
  (csRegexCompile (ascii pattern) noFlags).toOption.any fun program =>
    test program (csRegexStringReplace (ascii subject)
      { program := program, source := ascii pattern, global := global, lastIndex := 0 }
      (some (.text (ascii template))) false turns)

theorem exists_of_comesTo {pattern subject template : String} {global : Bool} {turns : Nat}
    {test : Regex → ReplaceResult × List Write → Bool}
    (passes : comesTo pattern subject template global turns test = true) :
    ∃ program, csRegexCompile (ascii pattern) noFlags = .ok program ∧
      test program (csRegexStringReplace (ascii subject)
        { program := program, source := ascii pattern, global := global, lastIndex := 0 }
        (some (.text (ascii template))) false turns) = true := by
  unfold comesTo at passes
  cases accepted : csRegexCompile (ascii pattern) noFlags with
  | error failure =>
      rw [accepted] at passes
      cases passes
  | ok program =>
      rw [accepted] at passes
      exact ⟨program, rfl, passes⟩

end CScript.RegexReplace
