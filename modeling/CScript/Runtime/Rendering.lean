/-
Values written as text, in the two ways that differ.

`console.log` shows the structure of a value, and a conversion to a string joins
arrays and shows whatever is inside them.  Both go down into every container they
meet, and neither keeps a record of those it is inside of.
-/

import CScript.Foundation.Descent
import CScript.Runtime.NumberText

namespace CScript.Rendering

open Foundation.Descent
open Foundation.Formatted (decimalDigits)

/-! ### The source -/

inductive Callable where
  | function (name : Option ObjString)
  | class_ (name : ObjString) (superclass : Option ObjString)
  deriving DecidableEq, Repr

inductive Shown (Ref : Type) where
  | null
  | undefined
  | bool (b : Bool)
  | number (n : Double)
  | string (s : ObjString)
  /-- With its decimal text. -/
  | bigint (digits : List UInt8)
  | symbol (description : Option ObjString)
  /-- With its ISO text, unless the date is invalid. -/
  | date (iso : Option (List UInt8))
  | callable (callable : Callable)
  | regex (source flags : ObjString)
  /-- A module, a fiber, a generator: whatever has no text of its own. -/
  | internal
  | array (array : Ref)
  | object (object : Ref)
  | map (map : Ref)
  | promise (promise : Ref)

inductive Slot (Ref : Type) where
  | value (value : Shown Ref)
  /-- The stand-in, and which accessors the class has for the name. -/
  | accessor (getter setter : Bool)

structure Property (Ref : Type) where
  key : ObjString
  enumerable : Bool
  slot : Slot Ref

structure Klass where
  name : ObjString
  isAccessorHolder : Bool

structure ObjectCell (Ref : Type) where
  klass : Option Klass
  builtByConstructor : Bool
  name : Option ObjString
  properties : List (Property Ref)

structure MapEntry (Ref : Type) where
  present : Bool
  key : Shown Ref
  value : Shown Ref

structure MapCell (Ref : Type) where
  isWeak : Bool
  isSet : Bool
  liveCount : Nat
  entries : List (MapEntry Ref)

inductive PromiseCell (Ref : Type) where
  | pending
  | fulfilled (value : Shown Ref)
  | rejected (reason : Shown Ref)

structure Graph (Ref : Type) where
  arrays : Ref → List (Shown Ref)
  objects : Ref → ObjectCell Ref
  maps : Ref → MapCell Ref
  promises : Ref → PromiseCell Ref

def renderCallable : Callable → List UInt8
  | .class_ name superclass =>
      ascii "[class " ++ name.chars ++
        superclass.elim [] (fun above => ascii " extends " ++ above.chars) ++ ascii "]"
  | .function none => ascii "[Function (anonymous)]"
  | .function (some name) => ascii "[Function: " ++ name.chars ++ ascii "]"

def ObjectCell.label {Ref : Type} (object : ObjectCell Ref) : Option ObjString :=
  match object.klass.filter (fun klass => !klass.isAccessorHolder) with
  | some klass => some klass.name
  | none => if object.builtByConstructor then object.name else none

def accessorText (getter setter : Bool) : List UInt8 :=
  if getter && setter then ascii "[Getter/Setter]"
  else if setter then ascii "[Setter]"
  else ascii "[Getter]"

section

variable {Ref : Type} (shortestDigits : Double → Digits)

/-- `csValueToCString` on a value that is no container. -/
def scalarText : Shown Ref → List UInt8
  | .null => ascii "null"
  | .undefined => ascii "undefined"
  | .bool b => if b then ascii "true" else ascii "false"
  | .number n => csValueFormatNumber shortestDigits n
  | .string s => s.chars
  | .bigint digits => digits
  -- `%s` stops at a zero byte.
  | .symbol description =>
      ascii "Symbol(" ++ (description.elim [] ObjString.chars).takeWhile (fun c => c != 0) ++
        ascii ")"
  | .date iso => iso.getD (ascii "Invalid Date")
  | .callable callable => renderCallable callable
  | .regex source flags => ascii "/" ++ source.chars ++ ascii "/" ++ flags.chars
  | _ => ascii "[internal]"

section

variable (append : List UInt8 → Shown Ref → Option (List UInt8))

/-- The loop of `sbAppendArray`. -/
def appendElements : Bool → List UInt8 → List (Shown Ref) → Option (List UInt8)
  | _, out, [] => some out
  | first, out, element :: rest => do
      let out ← append (if first then out else out ++ ascii ", ") element
      appendElements false out rest

def sbAppendArray (out : List UInt8) (elements : List (Shown Ref)) : Option (List UInt8) := do
  let out ← appendElements append true
    (out ++ if elements.isEmpty then ascii "[" else ascii "[ ") elements
  return out ++ if elements.isEmpty then ascii "]" else ascii " ]"

/-- The loop of `sbAppendMap`. -/
def appendEntries (isSet : Bool) : Bool → List UInt8 → List (MapEntry Ref) →
    Option (List UInt8)
  | _, out, [] => some out
  | first, out, entry :: rest =>
      if entry.present then do
        let out ← append (if first then out else out ++ ascii ", ") entry.key
        if isSet then appendEntries isSet false out rest
        else do
          let out ← append (out ++ ascii " => ") entry.value
          appendEntries isSet false out rest
      else appendEntries isSet first out rest

def sbAppendMap (out : List UInt8) (map : MapCell Ref) : Option (List UInt8) :=
  if map.isWeak then
    some (out ++ if map.isSet then ascii "WeakSet \x7b <items unknown> \x7d"
      else ascii "WeakMap \x7b <items unknown> \x7d")
  else
    let out := out ++ (if map.isSet then ascii "Set" else ascii "Map") ++ ascii "(" ++
      decimalDigits map.liveCount ++ ascii ")"
    if map.liveCount = 0 then some (out ++ ascii " \x7b\x7d")
    else do
      let out ← appendEntries append map.isSet true (out ++ ascii " \x7b ") map.entries
      return out ++ ascii " \x7d"

def sbAppendPromise (out : List UInt8) : PromiseCell Ref → Option (List UInt8)
  | .pending => some (out ++ ascii "Promise \x7b <pending> \x7d")
  | .fulfilled value => do
      let out ← append (out ++ ascii "Promise \x7b ") value
      return out ++ ascii " \x7d"
  | .rejected reason => do
      let out ← append (out ++ ascii "Promise \x7b " ++ ascii "<rejected> ") reason
      return out ++ ascii " \x7d"

/-- The loop of `sbAppendObject`, and whether it has yet to write a property. -/
def appendProperties : Bool → List UInt8 → List (Property Ref) → Option (List UInt8 × Bool)
  | first, out, [] => some (out, first)
  | first, out, property :: rest =>
      if property.enumerable then do
        let out := out ++ (if first then ascii " " else ascii ", ") ++ property.key.chars ++
          ascii ": "
        match property.slot with
        | .accessor getter setter =>
            appendProperties false (out ++ accessorText getter setter) rest
        | .value value => do
            let out ← append out value
            appendProperties false out rest
      else appendProperties first out rest

def sbAppendObject (out : List UInt8) (object : ObjectCell Ref) : Option (List UInt8) := do
  let out := out ++ object.label.elim [] (fun label => label.chars ++ ascii " ") ++ ascii "\x7b"
  let (out, first) ← appendProperties append true out object.properties
  return out ++ if first then ascii "\x7d" else ascii " \x7d"

/-- The loop of `sbAppendArrayAsString`: null and undefined join as nothing. -/
def joinElements : Bool → List UInt8 → List (Shown Ref) → Option (List UInt8)
  | _, out, [] => some out
  | first, out, element :: rest =>
      let out := if first then out else out ++ ascii ","
      match element with
      | .null => joinElements false out rest
      | .undefined => joinElements false out rest
      | element => do
          let out ← append out element
          joinElements false out rest

end

variable (graph : Graph Ref)

/-- The fuel is the depth of the C stack. -/
def sbAppendValue : Nat → List UInt8 → Shown Ref → Bool → Option (List UInt8)
  | 0, _, _, _ => none
  | fuel + 1, out, value, quoteStrings =>
      match value with
      | .number n =>
          some (out ++ if quoteStrings then csValueFormatNumberEx shortestDigits n true
            else csValueFormatNumber shortestDigits n)
      | .bigint digits => some (out ++ digits ++ ascii "n")
      | .array array =>
          sbAppendArray (fun out value => sbAppendValue fuel out value true) out
            (graph.arrays array)
      | .object object =>
          sbAppendObject (fun out value => sbAppendValue fuel out value true) out
            (graph.objects object)
      | .promise promise =>
          sbAppendPromise (fun out value => sbAppendValue fuel out value true) out
            (graph.promises promise)
      | .map map =>
          sbAppendMap (fun out value => sbAppendValue fuel out value true) out (graph.maps map)
      | .string s =>
          some (out ++ if quoteStrings then ascii "'" ++ s.chars ++ ascii "'" else s.chars)
      | scalar => some (out ++ scalarText shortestDigits scalar)

def Shown.isNumber : Shown Ref → Bool
  | .number _ => true
  | _ => false

def csValueInspect (fuel : Nat) (value : Shown Ref) : Option (List UInt8) :=
  sbAppendValue shortestDigits graph fuel [] value value.isNumber

/-- `csValueToCString` on a value that is no array. -/
def flatText (fuel : Nat) : Shown Ref → Option (List UInt8)
  | .object object => sbAppendValue shortestDigits graph fuel [] (.object object) false
  | .promise promise => sbAppendValue shortestDigits graph fuel [] (.promise promise) false
  | .map map => sbAppendValue shortestDigits graph fuel [] (.map map) false
  | scalar => some (scalarText shortestDigits scalar)

def sbAppendArrayAsString : Nat → List UInt8 → List (Shown Ref) → Option (List UInt8)
  | 0, _, _ => none
  | fuel + 1, out, elements =>
      joinElements
        (fun out element =>
          match element with
          | .array array => sbAppendArrayAsString fuel out (graph.arrays array)
          | element => (flatText shortestDigits graph fuel element).map (fun text => out ++ text))
        true out elements

def csValueToCString (fuel : Nat) : Shown Ref → Option (List UInt8)
  | .array array => sbAppendArrayAsString shortestDigits graph fuel [] (graph.arrays array)
  | value => flatText shortestDigits graph fuel value

/-! ### What is shown inside a value -/

def Property.shown (property : Property Ref) : List (Shown Ref) :=
  match property.enumerable, property.slot with
  | true, .value value => [value]
  | _, _ => []

def MapEntry.shown (isSet : Bool) (entry : MapEntry Ref) : List (Shown Ref) :=
  if entry.present then if isSet then [entry.key] else [entry.key, entry.value] else []

def MapCell.shown (map : MapCell Ref) : List (Shown Ref) :=
  if map.isWeak ∨ map.liveCount = 0 then [] else map.entries.flatMap (MapEntry.shown map.isSet)

def PromiseCell.shown : PromiseCell Ref → List (Shown Ref)
  | .pending => []
  | .fulfilled value => [value]
  | .rejected reason => [reason]

def Graph.shown : Shown Ref → List (Shown Ref)
  | .array array => graph.arrays array
  | .object object => (graph.objects object).properties.flatMap Property.shown
  | .map map => (graph.maps map).shown
  | .promise promise => (graph.promises promise).shown
  | _ => []

def Graph.Shows (child parent : Shown Ref) : Prop :=
  child ∈ graph.shown parent

end

/-! ### A container is shown when everything inside it is -/

section

variable {Ref : Type} {append : List UInt8 → Shown Ref → Option (List UInt8)}
  {ends : Shown Ref → Bool}

theorem isSome_bind {Inner Outer : Type} (inner : Option Inner) (rest : Inner → Option Outer)
    (later : Bool) (same : ∀ value, (rest value).isSome = later) :
    (inner.bind rest).isSome = (inner.isSome && later) := by
  cases inner with
  | none => rfl
  | some value =>
      rw [Option.bind_some, same value]
      rfl

theorem appendElements_isSome (alike : ∀ out value, (append out value).isSome = ends value)
    (elements : List (Shown Ref)) : ∀ (first : Bool) (out : List UInt8),
    (appendElements append first out elements).isSome = elements.all ends := by
  induction elements with
  | nil => exact fun _ _ => rfl
  | cons element rest ih =>
      intro first out
      unfold appendElements
      rw [List.all_cons, ← alike (if first then out else out ++ ascii ", ") element]
      exact isSome_bind _ _ _ (ih false)

theorem sbAppendArray_isSome (alike : ∀ out value, (append out value).isSome = ends value)
    (out : List UInt8) (elements : List (Shown Ref)) :
    (sbAppendArray append out elements).isSome = elements.all ends := by
  unfold sbAppendArray
  rw [← appendElements_isSome alike elements true
    (out ++ if elements.isEmpty then ascii "[" else ascii "[ ")]
  exact (isSome_bind _ _ true (fun _ => rfl)).trans (Bool.and_true _)

theorem appendEntries_isSome (alike : ∀ out value, (append out value).isSome = ends value)
    (isSet : Bool) (entries : List (MapEntry Ref)) : ∀ (first : Bool) (out : List UInt8),
    (appendEntries append isSet first out entries).isSome =
      (entries.flatMap (MapEntry.shown isSet)).all ends := by
  induction entries with
  | nil => exact fun _ _ => rfl
  | cons entry rest ih =>
      intro first out
      unfold appendEntries
      rw [List.flatMap_cons, List.all_append]
      cases present : entry.present with
      | false =>
          simp only [MapEntry.shown, present, Bool.false_eq_true, if_false, List.all_nil,
            Bool.true_and]
          exact ih first out
      | true =>
          rw [if_pos rfl]
          cases isSet with
          | true =>
              simp only [MapEntry.shown, present, if_true, List.all_cons, List.all_nil,
                Bool.and_true, ← alike (if first then out else out ++ ascii ", ") entry.key]
              exact isSome_bind _ _ _ (ih false)
          | false =>
              simp only [MapEntry.shown, present, if_true, Bool.false_eq_true, if_false,
                List.all_cons, List.all_nil, Bool.and_true, Bool.and_assoc,
                ← alike (if first then out else out ++ ascii ", ") entry.key]
              refine isSome_bind _ _ _ (fun out => ?_)
              rw [← alike (out ++ ascii " => ") entry.value]
              exact isSome_bind _ _ _ (ih false)

theorem sbAppendMap_isSome (alike : ∀ out value, (append out value).isSome = ends value)
    (out : List UInt8) (map : MapCell Ref) :
    (sbAppendMap append out map).isSome = map.shown.all ends := by
  unfold sbAppendMap MapCell.shown
  cases map.isWeak with
  | true => simp only [if_true, true_or, List.all_nil, Option.isSome_some]
  | false =>
      simp only [Bool.false_eq_true, if_false, false_or]
      split
      · rfl
      · rw [← appendEntries_isSome alike map.isSet map.entries true _]
        exact (isSome_bind _ _ true (fun _ => rfl)).trans (Bool.and_true _)

theorem sbAppendPromise_isSome (alike : ∀ out value, (append out value).isSome = ends value)
    (out : List UInt8) (promise : PromiseCell Ref) :
    (sbAppendPromise append out promise).isSome = promise.shown.all ends := by
  cases promise with
  | pending => rfl
  | fulfilled value =>
      unfold sbAppendPromise
      rw [PromiseCell.shown, List.all_cons, ← alike (out ++ ascii "Promise \x7b ") value]
      exact isSome_bind _ _ true (fun _ => rfl)
  | rejected reason =>
      unfold sbAppendPromise
      rw [PromiseCell.shown, List.all_cons,
        ← alike (out ++ ascii "Promise \x7b " ++ ascii "<rejected> ") reason]
      exact isSome_bind _ _ true (fun _ => rfl)

theorem appendProperties_isSome (alike : ∀ out value, (append out value).isSome = ends value)
    (properties : List (Property Ref)) : ∀ (first : Bool) (out : List UInt8),
    (appendProperties append first out properties).isSome =
      (properties.flatMap Property.shown).all ends := by
  induction properties with
  | nil => exact fun _ _ => rfl
  | cons property rest ih =>
      intro first out
      obtain ⟨key, enumerable, slot⟩ := property
      unfold appendProperties
      rw [List.flatMap_cons, List.all_append]
      cases enumerable with
      | false => exact ih first out
      | true =>
          cases slot with
          | accessor getter setter => exact ih false _
          | value value =>
              simp only [if_true, Property.shown, List.all_cons, List.all_nil, Bool.and_true]
              rw [← alike (out ++ (if first then ascii " " else ascii ", ") ++ key.chars ++
                ascii ": ") value]
              exact isSome_bind _ _ _ (ih false)

theorem sbAppendObject_isSome (alike : ∀ out value, (append out value).isSome = ends value)
    (out : List UInt8) (object : ObjectCell Ref) :
    (sbAppendObject append out object).isSome =
      (object.properties.flatMap Property.shown).all ends := by
  unfold sbAppendObject
  rw [← appendProperties_isSome alike object.properties true _]
  exact (isSome_bind _ _ true (fun _ => rfl)).trans (Bool.and_true _)

end

/-! ### `csValueInspect` -/

section

variable {Ref : Type} {shortestDigits : Double → Digits} {graph : Graph Ref}

theorem sbAppendValue_succ {fuel : Nat} {ends : Shown Ref → Bool}
    (alike : ∀ out value, (sbAppendValue shortestDigits graph fuel out value true).isSome =
      ends value) (out : List UInt8) (value : Shown Ref) (quoteStrings : Bool) :
    (sbAppendValue shortestDigits graph (fuel + 1) out value quoteStrings).isSome =
      (graph.shown value).all ends := by
  cases value with
  | array array => exact sbAppendArray_isSome alike out (graph.arrays array)
  | object object => exact sbAppendObject_isSome alike out (graph.objects object)
  | map map => exact sbAppendMap_isSome alike out (graph.maps map)
  | promise promise => exact sbAppendPromise_isSome alike out (graph.promises promise)
  | _ => rfl

variable (shortestDigits graph) in
def Ends (fuel : Nat) (value : Shown Ref) : Bool :=
  (sbAppendValue shortestDigits graph fuel [] value true).isSome

theorem sbAppendValue_isSome (fuel : Nat) : ∀ (out : List UInt8) (value : Shown Ref)
    (quoteStrings : Bool),
    (sbAppendValue shortestDigits graph fuel out value quoteStrings).isSome =
      Ends shortestDigits graph fuel value := by
  induction fuel with
  | zero => exact fun _ _ _ => rfl
  | succ fuel ih =>
      intro out value quoteStrings
      have alike := fun out value => ih out value true
      rw [sbAppendValue_succ alike out value quoteStrings]
      exact (sbAppendValue_succ alike [] value true).symm

theorem ends_succ (fuel : Nat) (value : Shown Ref) :
    Ends shortestDigits graph (fuel + 1) value =
      (graph.shown value).all (Ends shortestDigits graph fuel) :=
  sbAppendValue_succ (fun out value => sbAppendValue_isSome fuel out value true) [] value true

theorem ends_zero (value : Shown Ref) : ¬Ends shortestDigits graph 0 value = true :=
  Bool.false_ne_true

theorem ends_all (fuel : Nat) (value : Shown Ref) :
    Ends shortestDigits graph (fuel + 1) value = true ↔
      ∀ child ∈ graph.shown value, Ends shortestDigits graph fuel child = true := by
  rw [ends_succ, List.all_eq_true]

variable (shortestDigits) in
theorem ends_iff_acc (value : Shown Ref) :
    (∃ fuel, Ends shortestDigits graph fuel value = true) ↔ Acc graph.Shows value := by
  exact @Foundation.Descent.ends_iff_acc _ graph.shown
    (fun fuel value => Ends shortestDigits graph fuel value = true) ends_zero ends_all value

theorem csValueInspect_ends_iff (value : Shown Ref) :
    (∃ fuel text, csValueInspect shortestDigits graph fuel value = some text) ↔
      Acc graph.Shows value := by
  rw [← ends_iff_acc shortestDigits]
  refine exists_congr (fun fuel => ?_)
  rw [← Option.isSome_iff_exists]
  unfold csValueInspect
  rw [sbAppendValue_isSome]

/-! ### `csValueToCString` -/

section

variable {append : List UInt8 → Shown Ref → Option (List UInt8)}

theorem joinElements_appends (elements : List (Shown Ref)) : ∀ (first : Bool) (out : List UInt8),
    (joinElements append first out elements).isSome = true →
      ∀ element ∈ elements, element = .null ∨ element = .undefined ∨
        ∃ out, (append out element).isSome = true := by
  induction elements with
  | nil => exact fun _ _ _ => nofun
  | cons element rest ih =>
      intro first out joined other member
      have appended : element = .null ∨ element = .undefined ∨
          ∃ out after, append out element = some after ∧
            (joinElements append false after rest).isSome = true := by
        cases element with
        | null => exact Or.inl rfl
        | undefined => exact Or.inr (Or.inl rfl)
        | _ =>
            obtain ⟨text, joined⟩ := Option.isSome_iff_exists.mp joined
            obtain ⟨after, one, joined⟩ := Option.bind_eq_some_iff.mp joined
            exact Or.inr (Or.inr ⟨_, after, one, Option.isSome_iff_exists.mpr ⟨text, joined⟩⟩)
      rcases List.mem_cons.mp member with rfl | later
      · rcases appended with null | undefined | ⟨out, after, one, _⟩
        · exact Or.inl null
        · exact Or.inr (Or.inl undefined)
        · exact Or.inr (Or.inr ⟨out, by rw [one]; rfl⟩)
      · rcases appended with rfl | rfl | ⟨_, after, _, joined⟩
        · exact ih false _ joined other later
        · exact ih false _ joined other later
        · exact ih false after joined other later

theorem joinElements_joins (elements : List (Shown Ref))
    (each : ∀ element ∈ elements, ∀ out, (append out element).isSome = true) :
    ∀ (first : Bool) (out : List UInt8), (joinElements append first out elements).isSome = true := by
  induction elements with
  | nil => exact fun _ _ => rfl
  | cons element rest ih =>
      intro first out
      have others := ih (fun other member => each other (List.mem_cons_of_mem element member))
      have appended := each element List.mem_cons_self (if first then out else out ++ ascii ",")
      cases element with
      | null => exact others false _
      | undefined => exact others false _
      | _ =>
          refine (isSome_bind _ _ true (others false)).trans ?_
          rw [appended]
          rfl

end

theorem flatText_ends {fuel : Nat} {value : Shown Ref} (flat : ∀ array, value ≠ .array array)
    (text : (flatText shortestDigits graph fuel value).isSome = true) :
    Ends shortestDigits graph (fuel + 1) value = true := by
  have more : ∀ value : Shown Ref,
      (sbAppendValue shortestDigits graph fuel [] value false).isSome = true →
        Ends shortestDigits graph (fuel + 1) value = true := by
    intro value shown
    rw [sbAppendValue_isSome] at shown
    exact @ends_more _ graph.shown
      (fun fuel value => Ends shortestDigits graph fuel value = true) ends_zero ends_all _ _ shown 1
  cases value with
  | array array => exact absurd rfl (flat array)
  | object object => exact more _ text
  | map map => exact more _ text
  | promise promise => exact more _ text
  | _ => rfl

theorem flatText_of_ends {fuel : Nat} {value : Shown Ref}
    (ended : Ends shortestDigits graph fuel value = true) :
    (flatText shortestDigits graph fuel value).isSome = true := by
  cases value with
  | object object => exact (sbAppendValue_isSome fuel [] _ false).trans ended
  | map map => exact (sbAppendValue_isSome fuel [] _ false).trans ended
  | promise promise => exact (sbAppendValue_isSome fuel [] _ false).trans ended
  | _ => rfl

theorem sbAppendArrayAsString_ends (fuel : Nat) : ∀ (out : List UInt8)
    (elements : List (Shown Ref)),
    (sbAppendArrayAsString shortestDigits graph fuel out elements).isSome = true →
      ∀ element ∈ elements, Ends shortestDigits graph fuel element = true := by
  induction fuel with
  | zero => exact fun _ _ wrong => by cases wrong
  | succ fuel ih =>
      intro out elements joined element member
      unfold sbAppendArrayAsString at joined
      rcases joinElements_appends elements true out joined element member with
        rfl | rfl | ⟨before, text⟩
      · rfl
      · rfl
      · split at text
        · rename_i array
          exact (ends_all fuel _).mpr (ih before (graph.arrays array) text)
        · rename_i flat
          rw [Option.isSome_map] at text
          exact flatText_ends flat text

theorem sbAppendArrayAsString_of_ends (fuel : Nat) : ∀ (out : List UInt8)
    (elements : List (Shown Ref)),
    (∀ element ∈ elements, Ends shortestDigits graph fuel element = true) →
      (sbAppendArrayAsString shortestDigits graph (fuel + 1) out elements).isSome = true := by
  induction fuel with
  | zero =>
      intro out elements each
      cases elements with
      | nil => rfl
      | cons element rest => exact absurd (each element List.mem_cons_self) (ends_zero element)
  | succ fuel ih =>
      intro out elements each
      unfold sbAppendArrayAsString
      refine joinElements_joins elements (fun element member before => ?_) true out
      have ended := each element member
      split
      · exact ih before _ ((ends_all fuel _).mp ended)
      · rw [Option.isSome_map]
        exact flatText_of_ends ended

theorem csValueToCString_ends_iff (value : Shown Ref) :
    (∃ fuel text, csValueToCString shortestDigits graph fuel value = some text) ↔
      Acc graph.Shows value := by
  rw [← ends_iff_acc shortestDigits]
  constructor
  · rintro ⟨fuel, text, shown⟩
    have shown := Option.isSome_iff_exists.mpr ⟨text, shown⟩
    unfold csValueToCString at shown
    split at shown
    · exact ⟨fuel + 1, (ends_all fuel _).mpr (sbAppendArrayAsString_ends fuel [] _ shown)⟩
    · rename_i flat
      exact ⟨fuel + 1, flatText_ends flat shown⟩
  · rintro ⟨fuel, ended⟩
    refine ⟨fuel, Option.isSome_iff_exists.mp ?_⟩
    unfold csValueToCString
    split
    · cases fuel with
      | zero => exact absurd ended (ends_zero _)
      | succ fuel => exact sbAppendArrayAsString_of_ends fuel [] _ ((ends_all fuel _).mp ended)
    · exact flatText_of_ends ended

end

end CScript.Rendering
