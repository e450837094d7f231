/-
The two consumers of an iterable, `for...of` and an array pattern.

The loop asks for an iterator and then for one value after the other; a pattern takes what it
needs into a new array first and reads its elements by index.  Everything a program may do in
between is a host, with a world that each call leaves behind.
-/

import CScript.Runtime.Value
import Mathlib.Data.List.Basic

namespace CScript.Iteration

variable {W : Type}

/-! ### What the machine asks of the program -/

/-- Objects, classes, arrays and maps are looked at in a world; a call has no answer when it
throws or fails. -/
structure Host (W : Type) where
  iteratorSymbol : Option ObjString
  csObjectGetPrivate : W → Nat → ObjString → Option Value
  klass : W → Nat → Option Nat
  csClassFindMethod : W → Nat → ObjString → Option Nat
  csObjectGet : W → Nat → ObjString → Option Value
  csObjectGetInherited : W → Nat → ObjString → Option Value
  objectKeyFor : Nat → ObjString
  /-- With the receiver of a bound method. -/
  csVMCallAdapted : W → Value → Option Value → W × Option Value
  csGeneratorNext : W → Nat → W × Option (Value × Bool)
  elements : W → Nat → List Value
  isWeak : W → Nat → Bool
  isSet : W → Nat → Bool
  csMapToArray : W → Nat → List Value
  csValueIsTruthy : W → Value → Bool
  csValueTypeName : W → Value → List UInt8

inductive Report where
  /-- By the program, in a call. -/
  | raised
  | error (message : List UInt8)

inductive Result (A : Type) where
  | ok (value : A)
  | failed (report : Report)
  /-- Something that is no object of the heap is taken for one. -/
  | wild

namespace Result

def map {A B : Type} (f : A → B) : Result A → Result B
  | .ok value => .ok (f value)
  | .failed report => .failed report
  | .wild => .wild

def bind {A B : Type} (result : Result A) (f : A → Result B) : Result B :=
  match result with
  | .ok value => f value
  | .failed report => .failed report
  | .wild => .wild

def Reported {A : Type} : Result A → Prop
  | .failed _ => True
  | _ => False

end Result

def nextName : ObjString := ⟨ascii "next"⟩

def isClosure : Value → Bool
  | .obj (.cell .closure _) => true
  | _ => false

section

variable (host : Host W)

/-! ### The iterator protocol -/

def findIteratorMethod (world : W) : Value → Option Value
  | .obj (.cell .object object) =>
      match host.iteratorSymbol with
      | none => none
      | some key =>
          match host.csObjectGetPrivate world object key with
          | some method => some method
          | none =>
              (host.klass world object).bind fun klass =>
                (host.csClassFindMethod world klass key).map fun method =>
                  .obj (.cell .closure method)
  | _ => none

def callWithReceiver (world : W) (callee receiver : Value) : W × Option Value :=
  host.csVMCallAdapted world callee (if isClosure callee then some receiver else none)

def findNext (world : W) (object : Nat) : Result Value :=
  match host.csObjectGet world object nextName with
  | some next => .ok next
  | none =>
      match host.klass world object with
      | none => .failed (.error (ascii "an iterator must have a 'next' method"))
      | some klass =>
          match host.csClassFindMethod world klass nextName with
          | some method => .ok (.obj (.cell .closure method))
          | none => .wild

def iteratorStep (world : W) : Value → W × Result (Option Value)
  | .obj (.cell .generator generator) =>
      match host.csGeneratorNext world generator with
      | (world, none) => (world, .failed .raised)
      | (world, some (value, done)) => (world, .ok (if done then none else some value))
  | .obj (.cell .object object) =>
      match findNext host world object with
      | .failed report => (world, .failed report)
      | .wild => (world, .wild)
      | .ok next =>
          match callWithReceiver host world next (.obj (.cell .object object)) with
          | (world, none) => (world, .failed .raised)
          | (world, some (.obj (.cell .object record))) =>
              let done := (host.csObjectGet world record ⟨ascii "done"⟩).any
                (host.csValueIsTruthy world)
              let value := (host.csObjectGet world record ⟨ascii "value"⟩).getD .undefined
              (world, .ok (if done then none else some value))
          | (world, some record) =>
              (world, .failed (.error (ascii "'next' must answer with an object, got " ++
                host.csValueTypeName world record)))
  | _ => (world, .failed (.error (ascii "an iterator must have a 'next' method")))

/-! ### The loop -/

inductive Source where
  | items (values : List Value)
  | value (value : Value)

def Source.elements (world : W) : Source → Option (List Value)
  | .items values => some values
  | .value (.obj (.cell .array array)) => some (host.elements world array)
  | .value (.obj (.string string)) =>
      some (string.chars.map fun char => .obj (.string ⟨[char]⟩))
  | _ => none

def weakReport (world : W) (map : Nat) (what : String) : Report :=
  .error (ascii "a " ++ ascii (if host.isSet world map then "WeakSet" else "WeakMap") ++
    ascii " cannot be " ++ ascii what ++
    ascii ": what is left in it depends on when the collector last ran")

/-- `OP_ITER_PREPARE`, of a loop that awaits nothing. -/
def iterPrepare (target : Value) (world : W) : W × Result Source :=
  match findIteratorMethod host world target with
  | some method =>
      match callWithReceiver host world method target with
      | (world, none) => (world, .failed .raised)
      | (world, some iterator) => (world, .ok (.value iterator))
  | none =>
      match target with
      | .obj (.cell .map map) =>
          if host.isWeak world map then
            (world, .failed (weakReport host world map "iterated"))
          else (world, .ok (.items (host.csMapToArray world map)))
      | target => (world, .ok (.value target))

/-- `OP_ITER_STEP`; nothing is answered where the loop is left. -/
def iterStep (source : Source) (index : Nat) (world : W) : W × Result (Option Value) :=
  match source.elements host world with
  | some values => (world, .ok values[index]?)
  | none =>
      match source with
      | .value (.obj (.cell .generator generator)) =>
          match host.csGeneratorNext world generator with
          | (world, none) => (world, .failed .raised)
          | (world, some (value, done)) => (world, .ok (if done then none else some value))
      | .value (.obj (.cell .object object)) =>
          iteratorStep host world (.obj (.cell .object object))
      | .value target =>
          (world, .failed (.error (host.csValueTypeName world target ++ ascii " is not iterable")))
      | .items _ => (world, .ok none)

end

structure Taken (W A : Type) where
  pulls : Nat
  world : W
  result : Result A

def Taken.map {A B : Type} (f : A → B) (taken : Taken W A) : Taken W B :=
  { pulls := taken.pulls, world := taken.world, result := taken.result.map f }

def pullLoop (step : Nat → W → W × Result (Option Value)) :
    Nat → Nat → W → Taken W (List Value × Bool)
  | 0, _, world => { pulls := 0, world := world, result := .ok ([], false) }
  | budget + 1, index, world =>
      match step index world with
      | (world, .ok none) => { pulls := 1, world := world, result := .ok ([], true) }
      | (world, .ok (some value)) =>
          let taken := pullLoop step budget (index + 1) world
          { pulls := taken.pulls + 1
            world := taken.world
            result := taken.result.map fun (values, done) => (value :: values, done) }
      | (world, .failed report) => { pulls := 1, world := world, result := .failed report }
      | (world, .wild) => { pulls := 1, world := world, result := .wild }

/-- A `for...of` that is left after so many values, if not before.  An element that is read is
no pull. -/
def forOf (host : Host W) (target : Value) (budget : Nat) (world : W) :
    Taken W (List Value × Bool) :=
  match iterPrepare host target world with
  | (world, .ok source) =>
      let taken := pullLoop (iterStep host source) budget 0 world
      { taken with pulls := if (source.elements host world).isSome then 0 else taken.pulls }
  | (world, .failed report) => { pulls := 0, world := world, result := .failed report }
  | (world, .wild) => { pulls := 0, world := world, result := .wild }

/-! ### The pattern -/

structure Pattern where
  count : Nat
  hasRest : Bool

/-- The operand that `compileDestructurePattern` gives to `OP_DESTRUCTURE_PREPARE`. -/
def Pattern.wanted (pattern : Pattern) : Nat :=
  if pattern.hasRest ∨ 254 < pattern.count then 255 else pattern.count

def drained (taken : Taken W (List Value × Bool)) : Option (Taken W (List Value × Bool)) :=
  match taken.result with
  | .ok (_, false) => none
  | _ => some taken

section

variable (host : Host W)

/-- The loop of `OP_DESTRUCTURE_PREPARE`, with so much time where it has no bound. -/
def takeLoop (wanted fuel : Nat) (source : Value) (world : W) : Option (Taken W Source) :=
  let step := fun _ world => iteratorStep host world source
  let taken :=
    if wanted = 255 then drained (pullLoop step fuel 0 world)
    else some (pullLoop step wanted 0 world)
  taken.map (Taken.map fun values => .items values.1)

/-- `OP_DESTRUCTURE_PREPARE` -/
def destructurePrepare (wanted fuel : Nat) (target : Value) (world : W) :
    Option (Taken W Source) :=
  match target with
  | .obj (.cell .array _) | .obj (.string _) =>
      some { pulls := 0, world := world, result := .ok (.value target) }
  | .obj (.cell .map map) =>
      if host.isWeak world map then
        some { pulls := 0, world := world
               result := .failed (weakReport host world map "destructured") }
      else
        some { pulls := 0, world := world, result := .ok (.items (host.csMapToArray world map)) }
  | .obj (.cell .generator _) => takeLoop host wanted fuel target world
  | target =>
      match findIteratorMethod host world target with
      | none => some { pulls := 0, world := world, result := .ok (.value target) }
      | some method =>
          match callWithReceiver host world method target with
          | (world, none) => some { pulls := 0, world := world, result := .failed .raised }
          | (world, some (.obj source)) => takeLoop host wanted fuel (.obj source) world
          -- `AS_OBJ` of what is none
          | (world, some _) => some { pulls := 0, world := world, result := .wild }

/-- The values at the first places, with `undefined` behind the last one. -/
def firstOf (count : Nat) (values : List Value) : List Value :=
  (List.range count).map fun i => values.getD i .undefined

/-- `OP_GET_INDEX` at every place but the one of the rest. -/
def readElements (world : W) (source : Source) (count : Nat) : Result (List Value) :=
  match source.elements host world with
  | some values => .ok (firstOf count values)
  | none =>
      match source with
      | .value (.obj (.cell .object object)) =>
          .ok ((List.range count).map fun i =>
            (host.csObjectGetInherited world object (host.objectKeyFor i)).getD .undefined)
      | .value target =>
          if count = 0 then .ok []
          else .failed (.error (ascii "cannot index " ++ host.csValueTypeName world target))
      | .items _ => .ok []

/-- `OP_ARRAY_REST`, whose operand is one byte. -/
def arrayRest (world : W) (source : Source) (count : Nat) : Result (List Value) :=
  match source with
  | .items values => .ok (values.drop (count % 256))
  | .value (.obj (.cell .array array)) =>
      .ok ((host.elements world array).drop (count % 256))
  | .value target =>
      .failed (.error (ascii "cannot destructure " ++ host.csValueTypeName world target ++
        ascii " as an array"))

abbrev Bindings := List Value × Option (List Value)

def readPattern (pattern : Pattern) (world : W) (source : Source) : Result Bindings :=
  (readElements host world source pattern.count).bind fun values =>
    if pattern.hasRest then
      (arrayRest host world source pattern.count).map fun rest => (values, some rest)
    else .ok (values, none)

/-- The code of `compileDestructurePattern`, without default values and patterns inside. -/
def destructure (pattern : Pattern) (fuel : Nat) (target : Value) (world : W) :
    Option (Taken W Bindings) :=
  (destructurePrepare host pattern.wanted fuel target world).map fun taken =>
    { taken with result := taken.result.bind (readPattern host pattern taken.world) }

/-! ### What the pattern is meant to bind -/

/-- The values of a loop that is left when the pattern has enough, or goes on to the end. -/
def expected (pattern : Pattern) (fuel : Nat) (target : Value) (world : W) :
    Option (Taken W Bindings) :=
  if pattern.hasRest then
    (drained (forOf host target fuel world)).map
      (Taken.map fun values =>
        (firstOf pattern.count values.1, some (values.1.drop pattern.count)))
  else
    some ((forOf host target pattern.count world).map fun values =>
      (firstOf pattern.count values.1, none))

def IsIterable (world : W) : Value → Prop
  | .obj (.string _) | .obj (.cell .array _) | .obj (.cell .generator _) => True
  | .obj (.cell .map map) => host.isWeak world map = false
  | target => (findIteratorMethod host world target).isSome

def IsIterator (world : W) : Value → Prop
  | .obj (.cell .generator _) => True
  | .obj (.cell .object object) =>
      (host.csObjectGet world object nextName).isSome ∨
        ∃ klass, host.klass world object = some klass ∧
          (host.csClassFindMethod world klass nextName).isSome
  | _ => False

def AnswersIterator (world : W) (target : Value) : Prop :=
  ∀ method after source, findIteratorMethod host world target = some method →
    callWithReceiver host world method target = (after, some source) →
      IsIterator host after source

def Comes {A : Type} (run : Nat → Option A) (outcome : A) : Prop :=
  ∃ fuel, run fuel = some outcome

/-- The loop and the pattern see the same values and leave the same world behind, or both
report an error; nothing is taken for an object that is none. -/
structure Agree (pattern : Pattern) (target : Value) (world : W) : Prop where
  same : IsIterable host world target → AnswersIterator host world target → ∀ outcome,
    Comes (destructure host pattern · target world) outcome ↔
      Comes (expected host pattern · target world) outcome
  tame : IsIterable host world target → AnswersIterator host world target → ∀ outcome,
    Comes (expected host pattern · target world) outcome → outcome.result ≠ .wild
  reported : ¬(IsIterable host world target ∧ AnswersIterator host world target) →
    (forOf host target 1 world).result.Reported ∧ ∃ outcome,
      Comes (destructure host pattern · target world) outcome ∧ outcome.result.Reported

end

/-! ### Pulling -/

def Ended (taken : Taken W (List Value × Bool)) : Prop :=
  ∀ values, taken.result ≠ .ok (values, false)

variable {step : Nat → W → W × Result (Option Value)}

def Fits (pattern : Pattern) (length : Nat) : Prop :=
  pattern.hasRest = true → pattern.count < 256 ∨ length ≤ pattern.count % 256

section

variable (host : Host W)

def pulled (source : Value) (budget : Nat) (world : W) : Taken W (List Value × Bool) :=
  pullLoop (fun _ world => iteratorStep host world source) budget 0 world

/-- An iterator never loses its `next` to a class without one, and a pattern with more than 254
elements has seen its end when it has them. -/
def GoodSequence (pattern : Pattern) (source : Value) (world : W) : Prop :=
  if pattern.hasRest then
    ∀ fuel, (pulled host source fuel world).result ≠ .wild ∧
      ∀ values, (pulled host source fuel world).result = .ok (values, true) →
        Fits pattern values.length
  else
    (pulled host source pattern.count world).result ≠ .wild ∧
      (pattern.count ≤ 254 ∨ Ended (pulled host source pattern.count world))

def GoodAnswer (pattern : Pattern) (world : W) : Value → Prop
  | .obj (.cell .generator generator) =>
      GoodSequence host pattern (.obj (.cell .generator generator)) world
  | .obj (.cell .object object) =>
      (IsIterator host world (.obj (.cell .object object)) ∧
        GoodSequence host pattern (.obj (.cell .object object)) world) ∨
      (host.csObjectGet world object nextName = none ∧ host.klass world object = none ∧
        pattern.wanted ≠ 0)
  | .obj (.cell .array _) | .obj (.string _) => False
  | .obj _ => pattern.wanted ≠ 0
  | _ => False

def Good (pattern : Pattern) (world : W) : Value → Prop
  | .obj (.string _) => pattern.hasRest = false
  | .obj (.cell .array array) => Fits pattern (host.elements world array).length
  | .obj (.cell .map map) =>
      host.isWeak world map = false → Fits pattern (host.csMapToArray world map).length
  | .obj (.cell .generator generator) =>
      GoodSequence host pattern (.obj (.cell .generator generator)) world
  | .obj (.cell .object object) =>
      match findIteratorMethod host world (.obj (.cell .object object)) with
      | none => pattern.hasRest = true ∧
          (iteratorStep host world (.obj (.cell .object object))).2.Reported
      | some method => ∀ after source,
          callWithReceiver host world method (.obj (.cell .object object)) =
            (after, some source) → GoodAnswer host pattern after source
  | _ => pattern.wanted ≠ 0

variable {host}

theorem agree_of_not {pattern : Pattern} {target : Value} {world : W}
    (other : ¬(IsIterable host world target ∧ AnswersIterator host world target)) :
    Agree host pattern target world ↔
      (forOf host target 1 world).result.Reported ∧ ∃ outcome,
        Comes (destructure host pattern · target world) outcome ∧ outcome.result.Reported :=
  ⟨fun agree => agree.reported other,
    fun reported => ⟨fun iterable answers => absurd ⟨iterable, answers⟩ other,
      fun iterable answers => absurd ⟨iterable, answers⟩ other, fun _ => reported⟩⟩

theorem comes_const {A : Type} {run : Nat → Option A} {result : A}
    (always : ∀ fuel, run fuel = some result) (outcome : A) :
    Comes run outcome ↔ outcome = result := by
  constructor
  · rintro ⟨fuel, is⟩
    exact Option.some.inj (is.symm.trans (always fuel))
  · rintro rfl
    exact ⟨0, always 0⟩

/-! ### Arrays, strings and maps -/

theorem wanted_eq_zero (pattern : Pattern) :
    pattern.wanted = 0 ↔ pattern.count = 0 ∧ pattern.hasRest = false := by
  unfold Pattern.wanted
  cases pattern.hasRest with
  | true => exact iff_of_false (by rw [if_pos (.inl rfl)]; decide) fun both => nomatch both.2
  | false =>
      rw [and_iff_left rfl]
      by_cases many : 254 < pattern.count
      · rw [if_pos (.inr many)]
        omega
      · rw [if_neg (not_or.mpr ⟨Bool.false_ne_true, many⟩)]

theorem forOf_first {target : Value} {source : Source} {world after later : W}
    {report : Report} (prepared : iterPrepare host target world = (after, .ok source))
    (first : iterStep host source 0 after = (later, .failed report)) :
    (forOf host target 1 world).result.Reported := by
  unfold forOf pullLoop
  rw [prepared]
  dsimp only
  rw [first]
  trivial

section answer

variable {pattern : Pattern} {object : Nat} {method : Value} {world after : W}
  (found : findIteratorMethod host world (.obj (.cell .object object)) = some method)

include found

end answer

/-! ### Other values -/

structure Plain (host : Host W) (target : Value) (world : W) : Prop where
  notIterable : ¬IsIterable host world target
  prepared : iterPrepare host target world = (world, .ok (.value target))
  first : ∃ report, iterStep host (.value target) 0 world = (world, .failed report)
  taken : ∀ wanted fuel, destructurePrepare host wanted fuel target world =
    some { pulls := 0, world := world, result := .ok (.value target) }
  reads : ∀ count, ∃ report, readElements host world (.value target) count =
    if count = 0 then .ok [] else .failed report
  rests : ∀ count, ∃ report, arrayRest host world (.value target) count = .failed report

theorem Plain.agree {pattern : Pattern} {target : Value} {world : W}
    (plain : Plain host target world) :
    Agree host pattern target world ↔ pattern.wanted ≠ 0 := by
  obtain ⟨message, first⟩ := plain.first
  have came : ∀ fuel, destructure host pattern fuel target world =
      some { pulls := 0, world := world
             result := readPattern host pattern world (.value target) } := by
    intro fuel
    unfold destructure
    rw [plain.taken]
    rfl
  rw [agree_of_not fun both => plain.notIterable both.1,
    and_iff_right (forOf_first plain.prepared first)]
  simp only [comes_const came, exists_eq_left]
  obtain ⟨indexed, reads⟩ := plain.reads pattern.count
  obtain ⟨sliced, rests⟩ := plain.rests pattern.count
  unfold readPattern
  rw [reads, rests, Ne, wanted_eq_zero]
  by_cases none : pattern.count = 0
  · rw [if_pos none, and_iff_right none]
    cases pattern.hasRest with
    | true => exact iff_of_true trivial fun is => nomatch is
    | false => exact iff_of_false id fun other => other rfl
  · rw [if_neg none]
    exact iff_of_true trivial fun both => none both.1

end

end CScript.Iteration
