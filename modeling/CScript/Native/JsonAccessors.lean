/-
JSON.stringify over objects with accessors.

The containers are a graph that may be shared and cyclic; a getter is a call whose
answer the world decides, so two calls of one may differ.  Every call is kept,
with the place of its object in the walk and whether it answered.
-/

import CScript.Native.JsonAcceptance
import CScript.Runtime.NumberText

namespace CScript.JsonAccessors

open Foundation
open Foundation.JsonGrammar (Characters Derives rfc8259)

/-! ### The source -/

inductive JsonValue (Ref : Type) where
  | null
  | bool (b : Bool)
  | number (n : Double)
  | string (s : ObjString)
  /-- With its ISO text, unless the date is invalid. -/
  | date (iso : Option (List UInt8))
  | array (array : Ref)
  | object (object : Ref)
  | formless

inductive Stored (Ref : Type) where
  | value (value : JsonValue Ref)
  | accessor (getter : Bool)

structure Own (Ref : Type) where
  key : ObjString
  enumerable : Bool
  stored : Stored Ref

structure Heap (Ref World : Type) where
  elements : Ref → List (JsonValue Ref)
  owns : Ref → List (Own Ref)
  /-- A call of a getter: its answer, unless it fails. -/
  getter : Ref → ObjString → World → Option (JsonValue Ref) × World

inductive Step where
  | element (index : Nat)
  | member (index : Nat)
  deriving DecidableEq, Repr

structure Call where
  object : List Step
  index : Nat
  answered : Bool
  deriving DecidableEq, Repr

/-- What a write leaves behind; `calls` are those it made. -/
structure Written (World : Type) where
  world : World
  calls : List Call
  out : List UInt8
  writable : Bool

def JsonValue.hasForm {Ref : Type} : JsonValue Ref → Bool
  | .date none => false
  | .formless => false
  | _ => true

def JsonValue.isContainer {Ref : Type} : JsonValue Ref → Bool
  | .array _ => true
  | .object _ => true
  | _ => false

section

variable {Ref World : Type} (shortestDigits : Double → Digits) (heap : Heap Ref World)

def atomText : JsonValue Ref → List UInt8
  | .null => ascii "null"
  | .bool b => if b then ascii "true" else ascii "false"
  | .number n => if n.isNaN || n.isInf then ascii "null" else csValueFormatNumber shortestDigits n
  | .string s => jsonAppendString [] s.chars
  | .date (some iso) => jsonAppendString [] iso
  | _ => []

def csVMReadOwnProperty (place : List Step) (object : Ref) (index : Nat) (own : Own Ref)
    (world : World) : Option (JsonValue Ref) × World × List Call :=
  match own.stored with
  | .value value => (some value, world, [])
  | .accessor false => (some .formless, world, [])
  | .accessor true =>
      let (answer, world) := heap.getter object own.key world
      (answer, world, [{ object := place, index := index, answered := answer.isSome }])

mutual

def jsonWrite : Nat → List Step → World → List UInt8 → JsonValue Ref → Option (Written World)
  | 0, _, _, _, _ => none
  | fuel + 1, place, world, out, .array array => do
      let written ← writeElements fuel place world (out ++ ascii "[") 0 (heap.elements array)
      return { written with out := written.out ++ ascii "]", writable := true }
  | fuel + 1, place, world, out, .object object => do
      let written ← writeMembers fuel place object world (out ++ ascii "\x7b") true 0
        (heap.owns object)
      -- A getter that failed ends the walk of the object where it stands.
      if written.writable then return { written with out := written.out ++ ascii "\x7d" }
      else return written
  | _ + 1, _, world, out, value =>
      some {
        world := world
        calls := []
        out := out ++ atomText shortestDigits value
        writable := value.hasForm }

def writeElements : Nat → List Step → World → List UInt8 → Nat → List (JsonValue Ref) →
    Option (Written World)
  | 0, _, _, _, _, _ => none
  | _ + 1, _, world, out, _, [] =>
      some { world := world, calls := [], out := out, writable := true }
  | fuel + 1, place, world, out, index, element :: rest => do
      let out := if index > 0 then out ++ ascii "," else out
      let one ← jsonWrite fuel (place ++ [.element index]) world out element
      let out := if one.writable then one.out else one.out ++ ascii "null"
      let others ← writeElements fuel place one.world out (index + 1) rest
      return { others with calls := one.calls ++ others.calls }

def writeMembers : Nat → List Step → Ref → World → List UInt8 → Bool → Nat → List (Own Ref) →
    Option (Written World)
  | 0, _, _, _, _, _, _, _ => none
  | _ + 1, _, _, world, out, _, _, [] =>
      some { world := world, calls := [], out := out, writable := true }
  | fuel + 1, place, object, world, out, first, index, own :: rest =>
      if own.enumerable = false then writeMembers fuel place object world out first (index + 1) rest
      else
        match csVMReadOwnProperty heap place object index own world with
        | (none, world, calls) =>
            some { world := world, calls := calls, out := out, writable := false }
        | (some property, world, calls) => do
            let probe ← jsonWrite fuel (place ++ [.member index]) world [] property
            if probe.writable = false then
              let others ← writeMembers fuel place object probe.world out first (index + 1) rest
              return { others with calls := calls ++ (probe.calls ++ others.calls) }
            else
              let out := if first then out else out ++ ascii ","
              let out := jsonAppendString out own.key.chars ++ ascii ":"
              let member ← jsonWrite fuel (place ++ [.member index]) probe.world out property
              let others ← writeMembers fuel place object member.world member.out false
                (index + 1) rest
              return { others with
                calls := calls ++ (probe.calls ++ (member.calls ++ others.calls)) }

end

inductive Outcome where
  | error
  | undefined
  | string (text : List UInt8)
  deriving DecidableEq, Repr

/-- The error is for a buffer that could not grow. -/
def jsonStringify (fuel : Nat) (world : World) (value : JsonValue Ref) :
    Option (Outcome × List Call) := do
  let written ← jsonWrite shortestDigits heap fuel [] world [] value
  return (if written.writable then .string written.out else .undefined, written.calls)

/-! ### Walks -/

inductive Part (Ref : Type) where
  | value (value : JsonValue Ref)
  | elements (index : Nat) (elements : List (JsonValue Ref))
  | members (object : Ref) (index : Nat) (owns : List (Own Ref))

/-- How a walk goes, whatever the fuel; `first` matters to members only. -/
inductive Walks : List Step → World → List UInt8 → Bool → Part Ref → Written World → Prop where
  | atom {place : List Step} {world : World} {out : List UInt8} {first : Bool}
      {value : JsonValue Ref} (atomic : value.isContainer = false) :
      Walks place world out first (.value value)
        ⟨world, [], out ++ atomText shortestDigits value, value.hasForm⟩
  | array {place : List Step} {world : World} {out : List UInt8} {first : Bool} {array : Ref}
      {written : Written World}
      (elements : Walks place world (out ++ ascii "[") true (.elements 0 (heap.elements array))
        written) :
      Walks place world out first (.value (.array array))
        { written with out := written.out ++ ascii "]", writable := true }
  | object {place : List Step} {world : World} {out : List UInt8} {first : Bool} {object : Ref}
      {written : Written World}
      (members : Walks place world (out ++ ascii "\x7b") true
        (.members object 0 (heap.owns object)) written) :
      Walks place world out first (.value (.object object))
        (if written.writable then { written with out := written.out ++ ascii "\x7d" }
          else written)
  | noElements {place : List Step} {world : World} {out : List UInt8} {first : Bool}
      {index : Nat} :
      Walks place world out first (.elements index []) ⟨world, [], out, true⟩
  | element {place : List Step} {world : World} {out : List UInt8} {first : Bool} {index : Nat}
      {element : JsonValue Ref} {rest : List (JsonValue Ref)} {one others : Written World}
      (single : Walks (place ++ [.element index]) world
        (if index > 0 then out ++ ascii "," else out) true (.value element) one)
      (later : Walks place one.world
        (if one.writable then one.out else one.out ++ ascii "null") true
        (.elements (index + 1) rest) others) :
      Walks place world out first (.elements index (element :: rest))
        { others with calls := one.calls ++ others.calls }
  | noMembers {place : List Step} {world : World} {out : List UInt8} {first : Bool}
      {object : Ref} {index : Nat} :
      Walks place world out first (.members object index []) ⟨world, [], out, true⟩
  | hidden {place : List Step} {world : World} {out : List UInt8} {first : Bool} {object : Ref}
      {index : Nat} {own : Own Ref} {rest : List (Own Ref)} {others : Written World}
      (unseen : own.enumerable = false)
      (later : Walks place world out first (.members object (index + 1) rest) others) :
      Walks place world out first (.members object index (own :: rest)) others
  | unanswered {place : List Step} {world world' : World} {out : List UInt8} {first : Bool}
      {object : Ref} {index : Nat} {own : Own Ref} {rest : List (Own Ref)} {calls : List Call}
      (seen : own.enumerable = true)
      (read : csVMReadOwnProperty heap place object index own world = (none, world', calls)) :
      Walks place world out first (.members object index (own :: rest))
        ⟨world', calls, out, false⟩
  | omitted {place : List Step} {world world' : World} {out : List UInt8} {first : Bool}
      {object : Ref} {index : Nat} {own : Own Ref} {rest : List (Own Ref)} {calls : List Call}
      {property : JsonValue Ref} {probe others : Written World} (seen : own.enumerable = true)
      (read : csVMReadOwnProperty heap place object index own world =
        (some property, world', calls))
      (trial : Walks (place ++ [.member index]) world' [] true (.value property) probe)
      (unwritable : probe.writable = false)
      (later : Walks place probe.world out first (.members object (index + 1) rest) others) :
      Walks place world out first (.members object index (own :: rest))
        { others with calls := calls ++ (probe.calls ++ others.calls) }
  | member {place : List Step} {world world' : World} {out : List UInt8} {first : Bool}
      {object : Ref} {index : Nat} {own : Own Ref} {rest : List (Own Ref)} {calls : List Call}
      {property : JsonValue Ref} {probe member others : Written World}
      (seen : own.enumerable = true)
      (read : csVMReadOwnProperty heap place object index own world =
        (some property, world', calls))
      (trial : Walks (place ++ [.member index]) world' [] true (.value property) probe)
      (writable : probe.writable = true)
      (single : Walks (place ++ [.member index]) probe.world
        (jsonAppendString (if first then out else out ++ ascii ",") own.key.chars ++ ascii ":")
        true (.value property) member)
      (later : Walks place member.world member.out false (.members object (index + 1) rest)
        others) :
      Walks place world out first (.members object index (own :: rest))
        { others with calls := calls ++ (probe.calls ++ (member.calls ++ others.calls)) }

end

section

variable {Ref World : Type} {shortestDigits : Double → Digits} {heap : Heap Ref World}

mutual

theorem jsonWrite_walks : ∀ (fuel : Nat) {place : List Step} {world : World} {out : List UInt8}
    {value : JsonValue Ref} {written : Written World},
    jsonWrite shortestDigits heap fuel place world out value = some written →
      Walks shortestDigits heap place world out true (.value value) written
  | 0, _, _, _, _, _, ran => by cases ran
  | fuel + 1, place, world, out, .array array, written, ran => by
      rw [jsonWrite] at ran
      obtain ⟨inner, elements, ran⟩ := Option.bind_eq_some_iff.mp ran
      rw [← Option.some.inj ran]
      exact .array (writeElements_walks fuel elements)
  | fuel + 1, place, world, out, .object object, written, ran => by
      rw [jsonWrite] at ran
      obtain ⟨inner, members, ran⟩ := Option.bind_eq_some_iff.mp ran
      have walk : Walks shortestDigits heap place world out true (.value (.object object))
          (if inner.writable then { inner with out := inner.out ++ ascii "\x7d" } else inner) :=
        .object (writeMembers_walks fuel members)
      have same : written =
          if inner.writable then { inner with out := inner.out ++ ascii "\x7d" } else inner := by
        by_cases writable : inner.writable = true
        · rw [if_pos writable] at ran ⊢
          exact (Option.some.inj ran).symm
        · rw [if_neg writable] at ran ⊢
          exact (Option.some.inj ran).symm
      rw [same]
      exact walk
  | fuel + 1, place, world, out, .null, written, ran
  | fuel + 1, place, world, out, .bool _, written, ran
  | fuel + 1, place, world, out, .number _, written, ran
  | fuel + 1, place, world, out, .string _, written, ran
  | fuel + 1, place, world, out, .date _, written, ran
  | fuel + 1, place, world, out, .formless, written, ran => by
      rw [← Option.some.inj ran]
      exact .atom rfl

theorem writeElements_walks : ∀ (fuel : Nat) {place : List Step} {world : World}
    {out : List UInt8} {index : Nat} {elements : List (JsonValue Ref)} {written : Written World},
    writeElements shortestDigits heap fuel place world out index elements = some written →
      Walks shortestDigits heap place world out true (.elements index elements) written
  | 0, _, _, _, _, _, _, ran => by cases ran
  | fuel + 1, place, world, out, index, [], written, ran => by
      rw [← Option.some.inj ran]
      exact .noElements
  | fuel + 1, place, world, out, index, element :: rest, written, ran => by
      rw [writeElements] at ran
      obtain ⟨one, single, ran⟩ := Option.bind_eq_some_iff.mp ran
      obtain ⟨others, later, ran⟩ := Option.bind_eq_some_iff.mp ran
      rw [← Option.some.inj ran]
      exact .element (jsonWrite_walks fuel single) (writeElements_walks fuel later)

theorem writeMembers_walks : ∀ (fuel : Nat) {place : List Step} {object : Ref} {world : World}
    {out : List UInt8} {first : Bool} {index : Nat} {owns : List (Own Ref)}
    {written : Written World},
    writeMembers shortestDigits heap fuel place object world out first index owns = some written →
      Walks shortestDigits heap place world out first (.members object index owns) written
  | 0, _, _, _, _, _, _, _, _, ran => by cases ran
  | fuel + 1, place, object, world, out, first, index, [], written, ran => by
      rw [← Option.some.inj ran]
      exact .noMembers
  | fuel + 1, place, object, world, out, first, index, own :: rest, written, ran => by
      rw [writeMembers] at ran
      by_cases unseen : own.enumerable = false
      · rw [if_pos unseen] at ran
        exact .hidden unseen (writeMembers_walks fuel ran)
      rw [if_neg unseen] at ran
      have seen : own.enumerable = true := Bool.not_eq_false _ ▸ unseen
      cases read : csVMReadOwnProperty heap place object index own world with
      | mk property left =>
          obtain ⟨world', calls⟩ := left
          cases property with
          | none =>
              rw [read] at ran
              rw [← Option.some.inj ran]
              exact .unanswered seen read
          | some property =>
              rw [read] at ran
              obtain ⟨probe, trial, ran⟩ := Option.bind_eq_some_iff.mp ran
              by_cases writable : probe.writable = true
              · rw [if_neg (by rw [writable]; decide)] at ran
                obtain ⟨member, single, ran⟩ := Option.bind_eq_some_iff.mp ran
                obtain ⟨others, later, ran⟩ := Option.bind_eq_some_iff.mp ran
                rw [← Option.some.inj ran]
                exact .member seen read (jsonWrite_walks fuel trial) writable
                  (jsonWrite_walks fuel single) (writeMembers_walks fuel later)
              · have unwritable : probe.writable = false := Bool.eq_false_iff.mpr writable
                rw [if_pos unwritable] at ran
                obtain ⟨others, later, ran⟩ := Option.bind_eq_some_iff.mp ran
                rw [← Option.some.inj ran]
                exact .omitted seen read (jsonWrite_walks fuel trial) unwritable
                  (writeMembers_walks fuel later)

end

/-! ### Where the calls are -/

theorem read_calls {place : List Step} {object : Ref} {index : Nat} {own : Own Ref}
    {world world' : World} {property : Option (JsonValue Ref)} {calls : List Call}
    (read : csVMReadOwnProperty heap place object index own world = (property, world', calls)) :
    calls = [] ∨ calls = [{ object := place, index := index, answered := property.isSome }] := by
  unfold csVMReadOwnProperty at read
  split at read
  · exact Or.inl (congrArg (fun read => read.2.2) read).symm
  · exact Or.inl (congrArg (fun read => read.2.2) read).symm
  · right
    have answer := congrArg Prod.fst read
    have made := congrArg (fun read => read.2.2) read
    simp only at answer made
    rw [← made, answer]

theorem read_unanswered {place : List Step} {object : Ref} {index : Nat} {own : Own Ref}
    {world world' : World} {calls : List Call}
    (read : csVMReadOwnProperty heap place object index own world = (none, world', calls)) :
    calls = [{ object := place, index := index, answered := false }] := by
  unfold csVMReadOwnProperty at read
  split at read
  · cases congrArg Prod.fst read
  · cases congrArg Prod.fst read
  · have answer := congrArg Prod.fst read
    have made := congrArg (fun read => read.2.2) read
    simp only at answer made
    rw [← made, answer]
    rfl

def Within (place : List Step) : Part Ref → Call → Prop
  | .value _, call => place <+: call.object
  | .elements index _, call => ∃ later, index ≤ later ∧ place ++ [.element later] <+: call.object
  | .members _ index _, call => (call.object = place ∧ index ≤ call.index) ∨
      ∃ later, index ≤ later ∧ place ++ [.member later] <+: call.object

theorem within_later {place : List Step} {object : Ref} {index : Nat} {owns rest : List (Own Ref)}
    {call : Call} (within : Within place (.members object (index + 1) rest) call) :
    Within place (.members object index owns) call := by
  rcases within with ⟨own, order⟩ | ⟨later, order, inside⟩
  · exact Or.inl ⟨own, by omega⟩
  · exact Or.inr ⟨later, by omega, inside⟩

theorem within_read {place : List Step} {object : Ref} {index : Nat} {own : Own Ref}
    {owns : List (Own Ref)} {world world' : World} {property : Option (JsonValue Ref)}
    {calls : List Call}
    (read : csVMReadOwnProperty heap place object index own world = (property, world', calls)) :
    ∀ call ∈ calls, Within place (.members object index owns) call := by
  intro call made
  rcases read_calls read with none_ | one
  · rw [none_] at made
    cases made
  · rw [one] at made
    rw [List.mem_singleton.mp made]
    exact Or.inl ⟨rfl, Nat.le_refl _⟩

theorem Walks.within {place : List Step} {world : World} {out : List UInt8} {first : Bool}
    {part : Part Ref} {written : Written World}
    (walks : Walks shortestDigits heap place world out first part written) :
    ∀ call ∈ written.calls, Within place part call := by
  induction walks with
  | atom | noElements | noMembers => nofun
  | array _ ih =>
      intro call made
      obtain ⟨_, _, inside⟩ := ih call made
      exact (List.prefix_append _ _).trans inside
  | @object place _ _ _ _ written _ ih =>
      intro call made
      have made : call ∈ written.calls := by
        split at made <;> exact made
      rcases ih call made with ⟨own, _⟩ | ⟨_, _, inside⟩
      · exact own ▸ List.prefix_refl place
      · exact (List.prefix_append _ _).trans inside
  | element _ _ ih others =>
      intro call made
      rcases List.mem_append.mp made with single | later
      · exact ⟨_, Nat.le_refl _, ih call single⟩
      · obtain ⟨index, order, inside⟩ := others call later
        exact ⟨index, by omega, inside⟩
  | hidden _ _ ih => exact fun call made => within_later (ih call made)
  | unanswered _ read => exact within_read read
  | omitted _ read _ _ _ ih others =>
      intro call made
      rcases List.mem_append.mp made with own | made
      · exact within_read read call own
      · rcases List.mem_append.mp made with trial | later
        · exact Or.inr ⟨_, Nat.le_refl _, ih call trial⟩
        · exact within_later (others call later)
  | member _ read _ _ _ _ trials ih others =>
      intro call made
      rcases List.mem_append.mp made with own | made
      · exact within_read read call own
      · rcases List.mem_append.mp made with trial | made
        · exact Or.inr ⟨_, Nat.le_refl _, trials call trial⟩
        · rcases List.mem_append.mp made with single | later
          · exact Or.inr ⟨_, Nat.le_refl _, ih call single⟩
          · exact within_later (others call later)

/-! ### A walk whose calls all answer -/

def AllAnswer (calls : List Call) : Prop :=
  ∀ call ∈ calls, call.answered = true

theorem AllAnswer.append {calls others : List Call} (all : AllAnswer (calls ++ others)) :
    AllAnswer calls ∧ AllAnswer others :=
  List.forall_mem_append.mp all

def Part.writable : Part Ref → Bool
  | .value single => single.hasForm
  | _ => true

theorem Walks.writable {place : List Step} {world : World} {out : List UInt8} {first : Bool}
    {part : Part Ref} {written : Written World}
    (walks : Walks shortestDigits heap place world out first part written)
    (all : AllAnswer written.calls) :
    written.writable = part.writable := by
  induction walks with
  | atom | array | noElements | noMembers => rfl
  | @object _ _ _ _ _ written _ ih =>
      have inner : written.writable = true := ih (by split at all <;> exact all)
      rw [if_pos inner]
      exact inner
  | element _ _ _ others => exact others all.append.2
  | hidden _ _ ih => exact ih all
  | unanswered _ read =>
      rw [read_unanswered read] at all
      cases all _ List.mem_cons_self
  | omitted _ _ _ _ _ _ others => exact others all.append.2.append.2
  | member _ _ _ _ _ _ _ _ others => exact others all.append.2.append.2.append.2

theorem atomText_formless (shortestDigits : Double → Digits) {value : JsonValue Ref}
    (no_form : value.hasForm = false) : atomText shortestDigits value = [] := by
  cases value with
  | date iso =>
      cases iso with
      | none => rfl
      | some => cases no_form
  | formless => rfl
  | _ => cases no_form

theorem Walks.formless_calls {place : List Step} {world : World} {out : List UInt8} {first : Bool}
    {value : JsonValue Ref} {written : Written World}
    (walks : Walks shortestDigits heap place world out first (.value value) written)
    (no_form : value.hasForm = false) : written.calls = [] := by
  cases walks with
  | atom => rfl
  | array | object => cases no_form

/-! ### The text -/

theorem hexDigit_isHex : ∀ n < 32, JsonGrammar.isHex (hexDigit (UInt8.ofNat n >>> 4)) = true ∧
    JsonGrammar.isHex (hexDigit (UInt8.ofNat n &&& 15)) = true := by
  decide

theorem characters_named {c : UInt8} {text rest : List UInt8}
    (named : c ∈ ['"'.toUInt8, '\\'.toUInt8, 'n'.toUInt8, 't'.toUInt8, 'r'.toUInt8])
    (characters : Characters rfc8259 text rest) :
    Characters rfc8259 ('\\'.toUInt8 :: c :: text) rest := by
  have all : ['"'.toUInt8, '\\'.toUInt8, 'n'.toUInt8, 't'.toUInt8, 'r'.toUInt8].all
      (fun c => decide (c ≠ 'u'.toUInt8 ∧ c ∈ JsonGrammar.word "\"\\/bfnrt")) = true := by
    decide
  have allowed := of_decide_eq_true (List.all_eq_true.mp all c named)
  exact .escape allowed.1 allowed.2 characters

theorem characters_escapeChar (c : UInt8) {text rest : List UInt8}
    (characters : Characters rfc8259 text rest) :
    Characters rfc8259 (escapeChar c ++ text) rest := by
  unfold escapeChar
  by_cases quote : c = '"'.toUInt8
  · rw [if_pos quote]
    show Characters rfc8259 ('\\'.toUInt8 :: '"'.toUInt8 :: text) rest
    exact characters_named (by decide) characters
  rw [if_neg quote]
  by_cases backslash : c = '\\'.toUInt8
  · rw [if_pos backslash]
    show Characters rfc8259 ('\\'.toUInt8 :: '\\'.toUInt8 :: text) rest
    exact characters_named (by decide) characters
  rw [if_neg backslash]
  by_cases newline : c = '\n'.toUInt8
  · rw [if_pos newline]
    show Characters rfc8259 ('\\'.toUInt8 :: 'n'.toUInt8 :: text) rest
    exact characters_named (by decide) characters
  rw [if_neg newline]
  by_cases tab : c = '\t'.toUInt8
  · rw [if_pos tab]
    show Characters rfc8259 ('\\'.toUInt8 :: 't'.toUInt8 :: text) rest
    exact characters_named (by decide) characters
  rw [if_neg tab]
  by_cases carriage : c = '\r'.toUInt8
  · rw [if_pos carriage]
    show Characters rfc8259 ('\\'.toUInt8 :: 'r'.toUInt8 :: text) rest
    exact characters_named (by decide) characters
  rw [if_neg carriage]
  by_cases control : c < 0x20
  · rw [if_pos control]
    have hex := hexDigit_isHex c.toNat control
    rw [UInt8.ofNat_toNat] at hex
    show Characters rfc8259 ('\\'.toUInt8 :: 'u'.toUInt8 :: '0'.toUInt8 :: '0'.toUInt8 ::
      hexDigit (c >>> 4) :: hexDigit (c &&& 15) :: text) rest
    exact .unicode ⟨by decide, by decide, hex.1, hex.2⟩ characters
  · rw [if_neg control]
    exact .plain quote backslash (UInt8.not_lt.mp control) characters

theorem characters_escaped (chars rest : List UInt8) :
    Characters rfc8259 (chars.flatMap escapeChar ++ '"'.toUInt8 :: rest) rest := by
  induction chars with
  | nil => exact .close rest
  | cons c chars ih =>
      rw [List.flatMap_cons, List.append_assoc]
      exact characters_escapeChar c ih

theorem quoted_derives (chars rest : List UInt8) :
    Derives rfc8259 .value (quoted chars ++ rest) rest := by
  unfold quoted
  rw [List.cons_append, List.append_assoc]
  exact .string (characters_escaped chars rest)

theorem atomText_derives (significant : Significant shortestDigits) {value : JsonValue Ref}
    (atomic : value.isContainer = false) (form : value.hasForm = true) (rest : List UInt8) :
    Derives rfc8259 .value (atomText shortestDigits value ++ rest) rest := by
  cases value with
  | null => exact .null rest
  | bool b => cases b with
      | true => exact .true_ rest
      | false => exact .false_ rest
  | number n =>
      by_cases special : (n.isNaN || n.isInf) = true
      · rw [atomText, if_pos special]
        exact .null rest
      · rw [atomText, if_neg special]
        have finite := Bool.or_eq_false_iff.mp (Bool.eq_false_iff.mpr special)
        exact .number rest (csValueFormatNumber_number significant finite.1 finite.2)
  | string s =>
      rw [atomText, jsonAppendString_eq]
      exact quoted_derives s.chars rest
  | date iso =>
      cases iso with
      | none => cases form
      | some iso =>
          rw [atomText, jsonAppendString_eq]
          exact quoted_derives iso rest
  | array | object => cases atomic
  | formless => cases form

def Listed (part : JsonGrammar.Part) (close : UInt8) (first : Bool) (text : List UInt8) : Prop :=
  text = [] ∨ ∃ items, text = (if first then items else ','.toUInt8 :: items) ∧
    ∀ rest, Derives rfc8259 part (items ++ close :: rest) rest

def Appended (first : Bool) : Part Ref → List UInt8 → Prop
  | .value value, text => if value.hasForm
      then ∀ rest, Derives rfc8259 .value (text ++ rest) rest else text = []
  | .elements index _, text => Listed .elements ']'.toUInt8 (index = 0) text
  | .members _ _ _, text => Listed .members '\x7d'.toUInt8 first text

theorem Appended.derives {first : Bool} {value : JsonValue Ref} {text : List UInt8}
    (appended : Appended first (.value value) text) (form : value.hasForm = true) :
    ∀ rest, Derives rfc8259 .value (text ++ rest) rest := by
  simpa only [Appended, form, if_true] using appended

theorem Appended.nothing {first : Bool} {value : JsonValue Ref} {text : List UInt8}
    (appended : Appended first (.value value) text) (no_form : value.hasForm = false) :
    text = [] := by
  simpa only [Appended, no_form, Bool.false_eq_true, if_false] using appended

theorem listed_array {text : List UInt8} (listed : Listed .elements ']'.toUInt8 true text)
    (rest : List UInt8) :
    Derives rfc8259 .value ('['.toUInt8 :: (text ++ ']'.toUInt8 :: rest)) rest := by
  rcases listed with rfl | ⟨items, rfl, derives⟩
  · exact .emptyArray (.none _)
  · exact .array (derives rest)

theorem listed_object {text : List UInt8} (listed : Listed .members '\x7d'.toUInt8 true text)
    (rest : List UInt8) :
    Derives rfc8259 .value ('\x7b'.toUInt8 :: (text ++ '\x7d'.toUInt8 :: rest)) rest := by
  rcases listed with rfl | ⟨items, rfl, derives⟩
  · exact .emptyObject (.none _)
  · exact .object (derives rest)

theorem listed_element {text more : List UInt8} (first : Bool)
    (value : ∀ rest, Derives rfc8259 .value (text ++ rest) rest)
    (listed : Listed .elements ']'.toUInt8 false more) :
    Listed .elements ']'.toUInt8 first ((if first then [] else ascii ",") ++ (text ++ more)) := by
  refine Or.inr ⟨text ++ more, by cases first <;> rfl, fun rest => ?_⟩
  rw [List.append_assoc]
  rcases listed with rfl | ⟨items, rfl, derives⟩
  · exact .lastElement (.none _) (value _) (.none _)
  · exact .nextElement (.none _) (value _) (.none _) (derives rest)

theorem listed_member {text more : List UInt8} (first : Bool) (key : List UInt8)
    (value : ∀ rest, Derives rfc8259 .value (text ++ rest) rest)
    (listed : Listed .members '\x7d'.toUInt8 false more) :
    Listed .members '\x7d'.toUInt8 first
      ((if first then [] else ascii ",") ++ (quoted key ++ ':'.toUInt8 :: (text ++ more))) := by
  refine Or.inr ⟨quoted key ++ ':'.toUInt8 :: (text ++ more), by cases first <;> rfl,
    fun rest => ?_⟩
  have name := characters_escaped key (':'.toUInt8 :: (text ++ (more ++ '\x7d'.toUInt8 :: rest)))
  have whole : quoted key ++ ':'.toUInt8 :: (text ++ more) ++ '\x7d'.toUInt8 :: rest =
      '"'.toUInt8 :: (key.flatMap escapeChar ++ '"'.toUInt8 ::
        (':'.toUInt8 :: (text ++ (more ++ '\x7d'.toUInt8 :: rest)))) := by
    simp [quoted, ascii]
  rw [whole]
  rcases listed with rfl | ⟨items, rfl, derives⟩
  · exact .lastMember (.none _) name (.none _) (.none _) (value _) (.none _)
  · exact .nextMember (.none _) name (.none _) (.none _) (value _) (.none _) (derives rest)

theorem append_separator (out : List UInt8) (first : Bool) :
    (if first then out else out ++ ascii ",") = out ++ if first then [] else ascii "," := by
  cases first
  · rfl
  · exact (List.append_nil out).symm

theorem Walks.text (significant : Significant shortestDigits) {place : List Step} {world : World}
    {out : List UInt8} {first : Bool} {part : Part Ref} {written : Written World}
    (walks : Walks shortestDigits heap place world out first part written)
    (all : AllAnswer written.calls) :
    ∃ text, written.out = out ++ text ∧ Appended first part text := by
  induction walks with
  | @atom _ _ _ _ value atomic =>
      refine ⟨atomText shortestDigits value, rfl, ?_⟩
      simp only [Appended]
      split
      · rename_i form
        exact atomText_derives significant atomic form
      · rename_i no_form
        exact atomText_formless shortestDigits (Bool.eq_false_iff.mpr no_form)
  | @array _ _ out _ _ _ _ ih =>
      obtain ⟨text, appended, listed⟩ := ih all
      refine ⟨'['.toUInt8 :: (text ++ [']'.toUInt8]), ?_, ?_⟩
      · show _ ++ _ = _
        rw [appended, List.append_assoc, List.append_assoc]
        rfl
      · show ∀ rest, _
        intro rest
        rw [List.cons_append, List.append_assoc]
        exact listed_array listed rest
  | @object place world out first _ written members ih =>
      have inner : AllAnswer written.calls := by split at all <;> exact all
      obtain ⟨text, appended, listed⟩ := ih inner
      have writable : written.writable = true := members.writable inner
      rw [if_pos writable]
      refine ⟨'\x7b'.toUInt8 :: (text ++ ['\x7d'.toUInt8]), ?_, ?_⟩
      · show _ ++ _ = _
        rw [appended, List.append_assoc, List.append_assoc]
        rfl
      · show ∀ rest, _
        intro rest
        rw [List.cons_append, List.append_assoc]
        exact listed_object listed rest
  | noElements => exact ⟨[], (List.append_nil _).symm, Or.inl rfl⟩
  | noMembers => exact ⟨[], (List.append_nil _).symm, Or.inl rfl⟩
  | @element place world out first index element rest one others single later ih more =>
      obtain ⟨answered, others_answered⟩ := all.append
      have writable : one.writable = element.hasForm := single.writable answered
      obtain ⟨front, appended, value⟩ := ih answered
      obtain ⟨back, appended', listed⟩ := more others_answered
      have shown : ∃ text, (if one.writable then one.out else one.out ++ ascii "null") =
          (out ++ if index = 0 then [] else ascii ",") ++ text ∧
            ∀ rest, Derives rfc8259 .value (text ++ rest) rest := by
        have separator : (if index > 0 then out ++ ascii "," else out) =
            out ++ if index = 0 then [] else ascii "," := by
          cases index with
          | zero => exact (List.append_nil out).symm
          | succ index => rfl
        rw [separator] at appended
        by_cases form : element.hasForm = true
        · rw [writable, if_pos form]
          exact ⟨front, appended, value.derives form⟩
        · rw [writable, if_neg form, appended, value.nothing (Bool.eq_false_iff.mpr form),
            List.append_nil]
          exact ⟨ascii "null", rfl, .null⟩
      obtain ⟨text, shownText, derives⟩ := shown
      refine ⟨(if index = 0 then [] else ascii ",") ++ (text ++ back), ?_, ?_⟩
      · show others.out = _
        rw [appended', shownText, List.append_assoc, List.append_assoc]
      · have whole := listed_element (decide (index = 0)) derives listed
        simp only [decide_eq_true_eq] at whole
        exact whole
  | hidden _ _ ih => exact ih all
  | unanswered _ read =>
      rw [read_unanswered read] at all
      cases all _ List.mem_cons_self
  | omitted _ _ _ _ _ _ more => exact more all.append.2.append.2
  | @member place world _ out first _ _ own rest _ property probe member others _ _ trial writable
      single _ _ ih more =>
      have answered := all.append.2.append
      obtain ⟨text, appended, value⟩ := ih answered.2.append.1
      obtain ⟨back, appended', listed⟩ := more answered.2.append.2
      have form : property.hasForm = true := (trial.writable answered.1).symm.trans writable
      refine ⟨_, ?_, listed_member first own.key.chars (value.derives form) listed⟩
      show others.out = _
      rw [appended', appended, append_separator, jsonAppendString_eq]
      simp [ascii]

/-! ### A probe foretells the write -/

def Call.place (call : Call) : List Step :=
  call.object ++ [.member call.index]

theorem head_append {α : Type} {front front' back back' : List α}
    (same : front.head? = front'.head?)
    (rest : front = [] → front' = [] → back.head? = back'.head?) :
    (front ++ back).head? = (front' ++ back').head? := by
  cases front with
  | nil =>
      cases front' with
      | nil => exact rest rfl rfl
      | cons => cases same
  | cons a front =>
      cases front' with
      | nil => cases same
      | cons b front' => exact same

theorem nil_of_head {α β : Type} {f : α → β} {items others : List α}
    (same : (items.map f).head? = (others.map f).head?) (empty : items = []) : others = [] := by
  rw [empty] at same
  cases others with
  | nil => rfl
  | cons => cases same

theorem read_alike {place : List Step} {object : Ref} {index : Nat} {own : Own Ref}
    {world world' : World} :
    ((csVMReadOwnProperty heap place object index own world).2.2.map Call.place) =
        ((csVMReadOwnProperty heap place object index own world').2.2.map Call.place) ∧
      ((csVMReadOwnProperty heap place object index own world).2.2 = [] →
        (csVMReadOwnProperty heap place object index own world).1 =
          (csVMReadOwnProperty heap place object index own world').1) := by
  unfold csVMReadOwnProperty
  split
  · exact ⟨rfl, fun _ => rfl⟩
  · exact ⟨rfl, fun _ => rfl⟩
  · exact ⟨rfl, nofun⟩

theorem read_same {place : List Step} {object : Ref} {index : Nat} {own : Own Ref}
    {world after world' after' : World} {property property' : Option (JsonValue Ref)}
    {calls calls' : List Call}
    (read : csVMReadOwnProperty heap place object index own world = (property, after, calls))
    (again : csVMReadOwnProperty heap place object index own world' =
      (property', after', calls')) :
    calls.map Call.place = calls'.map Call.place ∧ (calls = [] → property = property') := by
  have alike := @read_alike _ _ heap place object index own world world'
  rw [read, again] at alike
  exact alike

theorem after_read {place : List Step} {object : Ref} {index : Nat} {own : Own Ref}
    {world after world' after' : World} {property property' : JsonValue Ref}
    {calls calls' : List Call} {back back' : List (List Step)}
    (read : csVMReadOwnProperty heap place object index own world = (some property, after, calls))
    (again : csVMReadOwnProperty heap place object index own world' =
      (some property', after', calls'))
    (rest : property = property' → back.head? = back'.head?) :
    (calls.map Call.place ++ back).head? = (calls'.map Call.place ++ back').head? := by
  obtain ⟨places, alike⟩ := read_same read again
  rw [← places]
  exact head_append rfl fun quiet _ =>
    rest (Option.some.inj (alike (List.map_eq_nil_iff.mp quiet)))

theorem quiet_writable {place place' : List Step} {world world' : World}
    {out out' : List UInt8} {first first' : Bool} {value : JsonValue Ref}
    {probe probe' : Written World}
    (trial : Walks shortestDigits heap place world out first (.value value) probe)
    (again : Walks shortestDigits heap place' world' out' first' (.value value) probe')
    (quiet : probe.calls = []) (quiet' : probe'.calls = []) : probe.writable = probe'.writable := by
  have left := trial.writable (by rw [quiet]; nofun)
  have right := again.writable (by rw [quiet']; nofun)
  exact left.trans right.symm

theorem closed_calls (written : Written World) (close : List UInt8) :
    (if written.writable then { written with out := written.out ++ close } else written).calls =
      written.calls := by
  split <;> rfl

/-- The calls of a walk, at the part it begins with. -/
def Opens (shortestDigits : Double → Digits) (heap : Heap Ref World) (place : List Step)
    (world : World) (calls : List Call) : Part Ref → Prop
  | .value (.array array) => ∃ out written,
      Walks shortestDigits heap place world out true (.elements 0 (heap.elements array)) written ∧
        calls = written.calls
  | .value (.object object) => ∃ out written,
      Walks shortestDigits heap place world out true (.members object 0 (heap.owns object))
        written ∧ calls = written.calls
  | .elements index (element :: rest) => ∃ out out' one others,
      Walks shortestDigits heap (place ++ [.element index]) world out true (.value element) one ∧
        Walks shortestDigits heap place one.world out' true (.elements (index + 1) rest) others ∧
          calls = one.calls ++ others.calls
  | .members object index (own :: rest) =>
      if own.enumerable then ∃ property after made,
        csVMReadOwnProperty heap place object index own world = (property, after, made) ∧
          (property = none ∧ calls = made ∨ ∃ value probe later, property = some value ∧
            Walks shortestDigits heap (place ++ [.member index]) after [] true (.value value)
              probe ∧ calls = made ++ (probe.calls ++ later) ∧
            ∃ world' out first others, Walks shortestDigits heap place world' out first
              (.members object (index + 1) rest) others ∧
              if probe.writable then ∃ out' member, Walks shortestDigits heap
                (place ++ [.member index]) probe.world out' true (.value value) member ∧
                  later = member.calls ++ others.calls
              else later = others.calls)
      else ∃ out first others, Walks shortestDigits heap place world out first
        (.members object (index + 1) rest) others ∧ calls = others.calls
  | _ => calls = []

theorem Walks.opens {place : List Step} {world : World} {out : List UInt8} {first : Bool}
    {part : Part Ref} {written : Written World}
    (walks : Walks shortestDigits heap place world out first part written) :
    Opens shortestDigits heap place world written.calls part := by
  cases walks with
  | @atom _ _ _ _ value atomic =>
      cases value with
      | array | object => cases atomic
      | _ => rfl
  | array elements => exact ⟨_, _, elements, rfl⟩
  | object members => exact ⟨_, _, members, closed_calls _ _⟩
  | noElements | noMembers => rfl
  | element single later => exact ⟨_, _, _, _, single, later, rfl⟩
  | hidden unseen later => exact (if_neg (by simp [unseen])).mpr ⟨_, _, _, later, rfl⟩
  | unanswered seen read => exact (if_pos seen).mpr ⟨_, _, _, read, .inl ⟨rfl, rfl⟩⟩
  | omitted seen read trial unwritable later =>
      exact (if_pos seen).mpr ⟨_, _, _, read, .inr ⟨_, _, _, rfl, trial, rfl, _, _, _, _, later,
        (if_neg (by simp [unwritable])).mpr rfl⟩⟩
  | member seen read trial writable single later =>
      exact (if_pos seen).mpr ⟨_, _, _, read, .inr ⟨_, _, _, rfl, trial, rfl, _, _, _, _, later,
        (if_pos writable).mpr ⟨_, _, single, rfl⟩⟩⟩

theorem Walks.first_call {place : List Step} {world : World} {out : List UInt8} {first : Bool}
    {part : Part Ref} {written : Written World}
    (walks : Walks shortestDigits heap place world out first part written)
    {world' : World} {out' : List UInt8} {first' : Bool} {other : Written World}
    (again : Walks shortestDigits heap place world' out' first' part other) :
    (written.calls.map Call.place).head? = (other.calls.map Call.place).head? := by
  induction walks generalizing world' out' first' other with
  | @atom _ _ _ _ value atomic =>
      have opens := again.opens
      cases value with
      | array | object => cases atomic
      | _ => rw [show _ = [] from opens]
  | array _ ih =>
      obtain ⟨_, _, elements, calls⟩ := again.opens
      rw [calls]
      exact ih elements
  | object _ ih =>
      obtain ⟨_, _, members, calls⟩ := again.opens
      rw [closed_calls, calls]
      exact ih members
  | noElements | noMembers =>
      rw [show _ = [] from again.opens]
  | element _ _ ih others =>
      obtain ⟨_, _, _, _, single, later, calls⟩ := again.opens
      rw [calls, List.map_append, List.map_append]
      exact head_append (ih single) fun _ _ => others later
  | hidden unseen _ ih =>
      obtain ⟨_, _, _, later, calls⟩ := (if_neg (by simp [unseen])).mp again.opens
      rw [calls]
      exact ih later
  | unanswered seen read =>
      obtain ⟨_, _, _, read', shape⟩ := (if_pos seen).mp again.opens
      rcases shape with ⟨_, calls⟩ | ⟨_, _, _, _, _, calls, _⟩
      · rw [calls, (read_same read read').1]
      · rw [calls, List.map_append, ← (read_same read read').1, read_unanswered read]
        rfl
  | omitted seen read trial unwritable _ ih others =>
      obtain ⟨_, _, _, read', shape⟩ := (if_pos seen).mp again.opens
      rcases shape with ⟨rfl, calls⟩ | ⟨_, _, _, rfl, trial', calls, _, _, _, _, later', rest⟩
      · rw [calls, List.map_append, (read_same read read').1, read_unanswered read']
        rfl
      · simp only [calls, List.map_append]
        refine after_read read read' fun same => ?_
        subst same
        refine head_append (ih trial') fun quiet quiet' => ?_
        have alike := quiet_writable trial trial' (List.map_eq_nil_iff.mp quiet)
          (List.map_eq_nil_iff.mp quiet')
        rw [(if_neg (by simp [← alike, unwritable])).mp rest]
        exact others later'
  | member seen read trial writable _ _ trials ih others =>
      obtain ⟨_, _, _, read', shape⟩ := (if_pos seen).mp again.opens
      rcases shape with ⟨rfl, calls⟩ | ⟨_, _, _, rfl, trial', calls, _, _, _, _, later', rest⟩
      · rw [calls, List.map_append, (read_same read read').1, read_unanswered read']
        rfl
      · simp only [calls, List.map_append]
        refine after_read read read' fun same => ?_
        subst same
        refine head_append (trials trial') fun quiet quiet' => ?_
        have alike := quiet_writable trial trial' (List.map_eq_nil_iff.mp quiet)
          (List.map_eq_nil_iff.mp quiet')
        obtain ⟨_, _, single', later⟩ := (if_pos (alike ▸ writable)).mp rest
        rw [later, List.map_append]
        exact head_append (ih single') fun _ _ => others later'

/-! ### Calls below a member are made twice -/

def Below (place : List Step) (call : Call) : Prop :=
  ∃ tail, call.object = place ++ tail ∧ ∃ index, .member index ∈ tail

theorem below_element {place : List Step} {index : Nat} {call : Call}
    (within : place ++ [.element index] <+: call.object) :
    Below place call ↔ Below (place ++ [.element index]) call := by
  obtain ⟨rest, whole⟩ := within
  rw [List.append_assoc] at whole
  unfold Below
  constructor
  · rintro ⟨tail, object, member, inside⟩
    have same : tail = [.element index] ++ rest :=
      List.append_cancel_left (object.symm.trans whole.symm)
    rw [same] at inside
    refine ⟨rest, by rw [List.append_assoc, whole], member, ?_⟩
    rcases List.mem_append.mp inside with step | later
    · cases List.mem_singleton.mp step
    · exact later
  · rintro ⟨tail, object, member, inside⟩
    exact ⟨[.element index] ++ tail, by rw [object, List.append_assoc], member,
      List.mem_append_right _ inside⟩

theorem below_member {place : List Step} {index : Nat} {call : Call}
    (within : place ++ [.member index] <+: call.object) : Below place call := by
  obtain ⟨rest, whole⟩ := within
  exact ⟨[.member index] ++ rest, by rw [← whole, List.append_assoc], index,
    List.mem_append_left _ (List.mem_singleton_self _)⟩

theorem not_below_own {place : List Step} {call : Call} (own : call.object = place) :
    ¬Below place call := by
  rintro ⟨tail, object, index, inside⟩
  rw [own] at object
  rw [List.append_right_eq_self.mp object.symm] at inside
  cases inside

theorem not_below_read {place : List Step} {object : Ref} {index : Nat} {own : Own Ref}
    {world world' : World} {property : Option (JsonValue Ref)} {calls : List Call}
    (read : csVMReadOwnProperty heap place object index own world = (property, world', calls)) :
    ∀ call ∈ calls, ¬Below place call := by
  intro call made
  rcases read_calls read with none_ | one
  · rw [none_] at made
    cases made
  · rw [one] at made
    rw [List.mem_singleton.mp made]
    exact not_below_own rfl

theorem not_nodup_right {α : Type} {items others : List α} (twice : ¬others.Nodup) :
    ¬(items ++ others).Nodup :=
  fun distinct => twice (List.nodup_append.mp distinct).2.1

theorem not_nodup_left {α : Type} {items others : List α} (twice : ¬items.Nodup) :
    ¬(items ++ others).Nodup :=
  fun distinct => twice (List.nodup_append.mp distinct).1

theorem not_nodup_heads {α : Type} {items others : List α} (same : items.head? = others.head?)
    (some_ : items ≠ []) (rest : List α) : ¬(items ++ (others ++ rest)).Nodup := by
  obtain ⟨first, items, rfl⟩ := List.exists_cons_of_ne_nil some_
  intro distinct
  have again : first ∈ others := List.mem_of_mem_head? same.symm
  exact (List.nodup_append.mp distinct).2.2 first List.mem_cons_self first
    (List.mem_append_left rest again) rfl

theorem Walks.below_twice {place : List Step} {world : World} {out : List UInt8} {first : Bool}
    {part : Part Ref} {written : Written World}
    (walks : Walks shortestDigits heap place world out first part written)
    (all : AllAnswer written.calls) (below : ∃ call ∈ written.calls, Below place call) :
    ¬(written.calls.map Call.place).Nodup := by
  induction walks with
  | atom | noElements | noMembers =>
      obtain ⟨_, made, _⟩ := below
      cases made
  | array _ ih => exact ih all below
  | object _ ih =>
      rw [closed_calls] at all below ⊢
      exact ih all below
  | element single _ ih others =>
      obtain ⟨call, made, deep⟩ := below
      rw [List.map_append]
      rcases List.mem_append.mp made with inside | later
      · have deeper := (below_element (single.within call inside)).mp deep
        exact not_nodup_left (ih all.append.1 ⟨call, inside, deeper⟩)
      · exact not_nodup_right (others all.append.2 ⟨call, later, deep⟩)
  | hidden _ _ ih => exact ih all below
  | unanswered _ read =>
      obtain ⟨call, made, deep⟩ := below
      exact absurd deep (not_below_read read call made)
  | omitted _ read trial unwritable _ _ others =>
      obtain ⟨call, made, deep⟩ := below
      have answered := all.append.2.append
      have quiet := trial.formless_calls ((trial.writable answered.1).symm.trans unwritable)
      rw [List.map_append, List.map_append]
      rcases List.mem_append.mp made with own | made
      · exact absurd deep (not_below_read read call own)
      · rcases List.mem_append.mp made with inside | later
        · rw [quiet] at inside
          cases inside
        · exact not_nodup_right (not_nodup_right (others answered.2 ⟨call, later, deep⟩))
  | member _ read trial _ single _ _ _ others =>
      obtain ⟨call, made, deep⟩ := below
      have same := trial.first_call single
      simp only [List.map_append]
      rcases List.mem_append.mp made with own | made
      · exact absurd deep (not_below_read read call own)
      · refine not_nodup_right ?_
        rcases List.mem_append.mp made with inside | made
        · refine not_nodup_heads same (fun none_ => ?_) _
          rw [List.map_eq_nil_iff.mp none_] at inside
          cases inside
        · rcases List.mem_append.mp made with inside | later
          · refine not_nodup_heads same (fun none_ => ?_) _
            have quiet := nil_of_head same (List.map_eq_nil_iff.mp none_)
            rw [quiet] at inside
            cases inside
          · exact not_nodup_right (not_nodup_right
              (others all.append.2.append.2.append.2 ⟨call, later, deep⟩))

/-! ### Other calls are made once -/

theorem quiet_of_outermost {place : List Step} {index : Nat} {world : World} {out : List UInt8}
    {first : Bool} {value : JsonValue Ref} {written : Written World}
    (walks : Walks shortestDigits heap (place ++ [.member index]) world out first (.value value) written)
    (outermost : ∀ call ∈ written.calls, ¬Below place call) : written.calls = [] := by
  refine List.eq_nil_iff_forall_not_mem.mpr fun call made => ?_
  exact outermost call made (below_member (walks.within call made))

theorem distinct_places {place : List Step} {step other : Step} {call later : Call}
    (apart : step ≠ other) (inside : place ++ [step] <+: call.object)
    (insideLater : place ++ [other] <+: later.object) : call.place ≠ later.place := by
  intro same
  have objects : call.object = later.object := by
    have reversed := congrArg List.dropLast same
    simpa [Call.place] using reversed
  obtain ⟨rest, whole⟩ := inside
  obtain ⟨rest', whole'⟩ := insideLater
  rw [objects, ← whole', List.append_assoc, List.append_assoc] at whole
  have next := List.append_cancel_left whole
  exact apart (List.cons.inj next).1

theorem nodup_read {place : List Step} {object : Ref} {index : Nat} {own : Own Ref}
    {world world' : World} {property : Option (JsonValue Ref)} {calls others : List Call}
    {rest : List (Own Ref)}
    (read : csVMReadOwnProperty heap place object index own world = (property, world', calls))
    (distinct : (others.map Call.place).Nodup)
    (within : ∀ call ∈ others, Within place (.members object (index + 1) rest) call)
    (outermost : ∀ call ∈ others, ¬Below place call) :
    (calls.map Call.place ++ others.map Call.place).Nodup := by
  rcases read_calls read with none_ | one
  · rw [none_]
    exact distinct
  · rw [one]
    refine List.nodup_cons.mpr ⟨fun member => ?_, distinct⟩
    obtain ⟨call, called, same⟩ := List.mem_map.mp member
    rcases within call called with ⟨own, order⟩ | ⟨_, _, inside⟩
    · have steps := congrArg List.getLast? same
      simp only [Call.place, List.getLast?_append, List.getLast?_singleton, Option.some_or,
        Option.some.injEq, Step.member.injEq] at steps
      omega
    · exact outermost call called (below_member inside)

theorem Walks.outermost_nodup {place : List Step} {world : World} {out : List UInt8}
    {first : Bool} {part : Part Ref} {written : Written World}
    (walks : Walks shortestDigits heap place world out first part written)
    (outermost : ∀ call ∈ written.calls, ¬Below place call) :
    (written.calls.map Call.place).Nodup := by
  induction walks with
  | atom | noElements | noMembers => exact List.nodup_nil
  | array _ ih => exact ih outermost
  | object _ ih =>
      rw [closed_calls] at outermost ⊢
      exact ih outermost
  | element single later ih others =>
      obtain ⟨front, back⟩ := List.forall_mem_append.mp outermost
      have inside := single.within
      have inner := ih fun call made deep =>
        front call made ((below_element (inside call made)).mpr deep)
      rw [List.map_append]
      refine List.nodup_append.mpr ⟨inner, others back, ?_⟩
      intro here made there made' same
      obtain ⟨call, called, rfl⟩ := List.mem_map.mp made
      obtain ⟨next, nextCalled, rfl⟩ := List.mem_map.mp made'
      obtain ⟨index, order, insideNext⟩ := later.within next nextCalled
      exact distinct_places (by simp only [ne_eq, Step.element.injEq]; omega)
        (inside call called) insideNext same
  | hidden _ _ ih => exact ih outermost
  | unanswered _ read =>
      rw [read_unanswered read]
      exact List.nodup_singleton _
  | omitted _ read trial _ later _ others =>
      obtain ⟨_, back⟩ := List.forall_mem_append.mp outermost
      obtain ⟨probed, back⟩ := List.forall_mem_append.mp back
      rw [quiet_of_outermost trial probed, List.nil_append, List.map_append]
      exact nodup_read read (others back) later.within back
  | member _ read trial _ single later _ _ others =>
      obtain ⟨_, back⟩ := List.forall_mem_append.mp outermost
      obtain ⟨probed, back⟩ := List.forall_mem_append.mp back
      obtain ⟨wrote, back⟩ := List.forall_mem_append.mp back
      rw [quiet_of_outermost trial probed, quiet_of_outermost single wrote, List.nil_append,
        List.nil_append, List.map_append]
      exact nodup_read read (others back) later.within back

/-! ### All or nothing -/

/-- A failed getter fails the call; a string is a JSON text, and every accessor in
it was evaluated once. -/
def AllOrNothing (outcome : Outcome) (calls : List Call) : Prop :=
  ((∃ call ∈ calls, call.answered = false) → outcome = .error) ∧
    ∀ text, outcome = .string text →
      JsonGrammar.Text rfc8259 text ∧
        ∀ place ∈ calls.map Call.place, (calls.map Call.place).count place = 1

def Outermost (call : Call) : Prop :=
  ∀ index, .member index ∉ call.object

theorem outermost_iff (call : Call) : Outermost call ↔ ¬Below [] call := by
  unfold Outermost Below
  constructor
  · rintro none_ ⟨tail, object, index, inside⟩
    rw [List.nil_append] at object
    exact none_ index (object ▸ inside)
  · intro none_ index inside
    exact none_ ⟨call.object, rfl, index, inside⟩

end

/-- In every run that ends: all or nothing holds exactly if every getter that is
called answers, and none is called for an object inside a member of another. -/
theorem jsonStringify_allOrNothing_iff {Ref World : Type} (shortestDigits : Double → Digits)
    (heap : Heap Ref World) (significant : Significant shortestDigits) (fuel : Nat) (world : World)
    (value : JsonValue Ref) (outcome : Outcome) (calls : List Call)
    (ran : jsonStringify shortestDigits heap fuel world value = some (outcome, calls)) :
    AllOrNothing outcome calls ↔ ∀ call ∈ calls, call.answered = true ∧ Outermost call := by
  obtain ⟨written, wrote, result⟩ := Option.bind_eq_some_iff.mp ran
  obtain ⟨rfl, rfl⟩ := Prod.mk.inj (Option.some.inj result)
  have walks := jsonWrite_walks fuel wrote
  have no_error : (if written.writable then Outcome.string written.out else .undefined) ≠
      .error := by
    split <;> nofun
  constructor
  · rintro ⟨failing, writes⟩
    have all : AllAnswer written.calls := by
      intro call made
      by_contra unanswered
      exact no_error (failing ⟨call, made, Bool.eq_false_iff.mpr unanswered⟩)
    intro call made
    refine ⟨all call made, (outermost_iff call).mpr fun deep => ?_⟩
    have writable : written.writable = true := by
      rw [walks.writable all]
      by_contra no_form
      have quiet := walks.formless_calls (Bool.eq_false_iff.mpr no_form)
      rw [quiet] at made
      cases made
    obtain ⟨_, once⟩ := writes written.out (if_pos writable)
    exact walks.below_twice all ⟨call, made, deep⟩ (List.nodup_iff_count_eq_one.mpr once)
  · intro good
    have all : AllAnswer written.calls := fun call made => (good call made).1
    refine ⟨?_, ?_⟩
    · rintro ⟨call, made, unanswered⟩
      rw [all call made] at unanswered
      cases unanswered
    · intro text string
      by_cases writable : written.writable = true
      · rw [if_pos writable] at string
        obtain ⟨appended, whole, derives⟩ := walks.text significant all
        have form : value.hasForm = true := (walks.writable all).symm.trans writable
        have value_derives := derives.derives form []
        rw [List.append_nil] at value_derives
        rw [List.nil_append] at whole
        rw [← Outcome.string.inj string, whole]
        have once := walks.outermost_nodup fun call made deep =>
          (outermost_iff call).mp (good call made).2 deep
        exact ⟨⟨_, _, .none _, value_derives, .none _⟩, List.nodup_iff_count_eq_one.mp once⟩
      · rw [if_neg writable] at string
        cases string

/-- One object, with the accessor `x`, whose getter gives what the world holds. -/
def counter : Heap Unit (Option (JsonValue Unit)) where
  elements _ := []
  owns _ := [{ key := ⟨ascii "x"⟩, enumerable := true, stored := .accessor true }]
  getter _ _ world := (world, world)

def oneDigits : Double → Digits := fun _ => { digits := ascii "1", point := 1 }

theorem oneDigits_significant : Significant oneDigits := fun _ _ _ _ =>
  ⟨'1'.toUInt8, [], rfl, by decide, List.all_eq_true.mp (by decide)⟩

theorem jsonStringify_allOrNothing_iff_counter :
    AllOrNothing (.string (ascii "\x7b\"x\":1\x7d")) [⟨[], 0, true⟩] :=
  (jsonStringify_allOrNothing_iff oneDigits counter oneDigits_significant 5
    (some (.number (Double.ofNat 1))) (.object ()) _ _ rfl).mpr (by
      intro call made
      rw [List.mem_singleton.mp made]
      exact ⟨rfl, nofun⟩)

/-- A getter that fails leaves `undefined`, and no error. -/
theorem failure_lost : ¬∀ (shortestDigits : Double → Digits)
    (heap : Heap Unit (Option (JsonValue Unit))) (fuel : Nat) (world : Option (JsonValue Unit))
    (value : JsonValue Unit) (outcome : Outcome) (calls : List Call),
    Significant shortestDigits →
    jsonStringify shortestDigits heap fuel world value = some (outcome, calls) →
      AllOrNothing outcome calls := by
  intro claim
  have lost := claim oneDigits counter 5 none (.object ()) .undefined [⟨[], 0, false⟩]
    oneDigits_significant rfl
  cases lost.1 ⟨_, List.mem_singleton_self _, rfl⟩

end CScript.JsonAccessors
