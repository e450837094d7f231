/-
Where rendering a value comes to an end.

JSON.stringify goes down into arrays and objects as the two renderings do, and
into whatever a getter answers.  The containers are a graph; what a getter may
answer is part of it, and which of its answers it gives is up to the program.
-/

import CScript.Native.JsonAccessors
import CScript.Runtime.Rendering

namespace CScript.JsonAccessors

open Foundation.Descent
open Rendering

/-! ### The graph as JSON sees it -/

structure Answers (Ref : Type) where
  may : Ref → ObjString → Option (Shown Ref) → Prop
  comes : ∀ object key, ∃ answer, may object key answer

section

variable {Ref World : Type}

def toJson : Shown Ref → JsonValue Ref
  | .null => .null
  | .bool b => .bool b
  | .number n => .number n
  | .string s => .string s
  | .date iso => .date iso
  | .array array => .array array
  | .object object => .object object
  | _ => .formless

def jsonOwn (property : Property Ref) : Own Ref :=
  { key := property.key
    enumerable := property.enumerable
    stored :=
      match property.slot with
      | .value value => .value (toJson value)
      | .accessor getter _ => .accessor getter }

def jsonHeap (graph : Graph Ref)
    (getter : Ref → ObjString → World → Option (Shown Ref) × World) : Heap Ref World where
  elements array := (graph.arrays array).map toJson
  owns object := (graph.objects object).properties.map jsonOwn
  getter object key world :=
    ((getter object key world).1.map toJson, (getter object key world).2)

variable (graph : Graph Ref) (answers : Answers Ref)

def Behaves (getter : Ref → ObjString → World → Option (Shown Ref) × World) : Prop :=
  ∀ object key world, answers.may object key (getter object key world).1

def Reads (object : Ref) (property : Property Ref) (child : Shown Ref) : Prop :=
  match property.slot with
  | .value value => child = value
  | .accessor true _ => answers.may object property.key (some child)
  | .accessor false _ => child = .undefined

def Passes (object : Ref) (property : Property Ref) : Prop :=
  property.enumerable = true → ∃ child, Reads answers object property child

def Writes (child : Shown Ref) : Shown Ref → Prop
  | .array array => child ∈ graph.arrays array
  | .object object => ∃ before property after,
      (graph.objects object).properties = before ++ property :: after ∧
      property.enumerable = true ∧ (∀ earlier ∈ before, Passes answers object earlier) ∧
      Reads answers object property child
  | _ => False

end

/-! ### Walks and their fuel -/

section

variable {Ref World : Type} {shortestDigits : Double → Digits} {heap : Heap Ref World}

variable (shortestDigits heap) in
def runPart (fuel : Nat) (place : List Step) (world : World) (out : List UInt8) (first : Bool) :
    Part Ref → Option (Written World)
  | .value value => jsonWrite shortestDigits heap fuel place world out value
  | .elements index elements =>
      writeElements shortestDigits heap fuel place world out index elements
  | .members object index owns =>
      writeMembers shortestDigits heap fuel place object world out first index owns

theorem walks_run {place : List Step} {world : World} {out : List UInt8} {first : Bool}
    {part : Part Ref} {written : Written World}
    (walks : Walks shortestDigits heap place world out first part written) :
    ∃ fuel, ∀ more, runPart shortestDigits heap (fuel + more) place world out first part =
      some written := by
  induction walks with
  | @atom _ _ _ _ value atomic =>
      refine ⟨1, fun more => ?_⟩
      rw [Nat.add_comm 1 more]
      cases value with
      | array | object => cases atomic
      | _ => rfl
  | array _ ih =>
      obtain ⟨fuel, inner⟩ := ih
      refine ⟨fuel + 1, fun more => ?_⟩
      simp only [runPart] at inner ⊢
      rw [Nat.add_right_comm, jsonWrite, inner more]
      rfl
  | @object _ _ _ _ _ written _ ih =>
      obtain ⟨fuel, inner⟩ := ih
      refine ⟨fuel + 1, fun more => ?_⟩
      simp only [runPart] at inner ⊢
      rw [Nat.add_right_comm, jsonWrite, inner more]
      cases writable : written.writable <;> simp [writable]
  | noElements | noMembers =>
      refine ⟨1, fun more => ?_⟩
      rw [Nat.add_comm 1 more]
      rfl
  | element _ _ ih others =>
      obtain ⟨fuel, inner⟩ := ih
      obtain ⟨rest, later⟩ := others
      refine ⟨fuel + rest + 1, fun more => ?_⟩
      simp only [runPart] at inner later ⊢
      rw [Nat.add_right_comm, writeElements]
      simp only [Nat.add_assoc, inner (rest + more), Option.bind_eq_bind, Option.bind_some]
      rw [Nat.add_left_comm, later (fuel + more)]
      rfl
  | hidden unseen _ ih =>
      obtain ⟨fuel, later⟩ := ih
      refine ⟨fuel + 1, fun more => ?_⟩
      simp only [runPart] at later ⊢
      rw [Nat.add_right_comm, writeMembers, if_pos unseen]
      exact later more
  | unanswered seen read =>
      refine ⟨1, fun more => ?_⟩
      simp only [runPart]
      rw [Nat.add_comm 1 more, writeMembers, if_neg (ne_false_of_eq_true seen), read]
  | omitted seen read _ unwritable _ ih others =>
      obtain ⟨fuel, trial⟩ := ih
      obtain ⟨rest, later⟩ := others
      refine ⟨fuel + rest + 1, fun more => ?_⟩
      simp only [runPart] at trial later ⊢
      rw [Nat.add_right_comm, writeMembers, if_neg (ne_false_of_eq_true seen), read]
      simp only [Nat.add_assoc, trial (rest + more), Option.bind_eq_bind, Option.bind_some,
        if_pos unwritable]
      rw [Nat.add_left_comm, later (fuel + more)]
      rfl
  | member seen read _ writable _ _ trials ih others =>
      obtain ⟨fuel, trial⟩ := trials
      obtain ⟨again, single⟩ := ih
      obtain ⟨rest, later⟩ := others
      refine ⟨fuel + (again + rest) + 1, fun more => ?_⟩
      simp only [runPart] at trial single later ⊢
      rw [Nat.add_right_comm, writeMembers, if_neg (ne_false_of_eq_true seen), read]
      have first := trial (again + rest + more)
      have second := single (fuel + rest + more)
      have third := later (fuel + again + more)
      rw [show fuel + (again + rest + more) = fuel + (again + rest) + more by omega] at first
      rw [show again + (fuel + rest + more) = fuel + (again + rest) + more by omega] at second
      rw [show rest + (fuel + again + more) = fuel + (again + rest) + more by omega] at third
      simp only [first, Option.bind_eq_bind, Option.bind_some,
        if_neg (ne_false_of_eq_true writable), second, third]
      rfl

end

/-! ### What ends is written -/

section

variable {Ref World : Type} {shortestDigits : Double → Digits} {graph : Graph Ref}
  {answers : Answers Ref} {getter : Ref → ObjString → World → Option (Shown Ref) × World}

theorem read_reads (behaves : Behaves answers getter) {place : List Step} {object : Ref}
    {index : Nat} {property : Property Ref} {world world' : World} {calls : List Call}
    {value : JsonValue Ref}
    (read : csVMReadOwnProperty (jsonHeap graph getter) place object index (jsonOwn property)
      world = (some value, world', calls)) :
    ∃ child, Reads answers object property child ∧ value = toJson child := by
  obtain ⟨key, enumerable, slot⟩ := property
  cases slot with
  | value stored =>
      cases read
      exact ⟨stored, rfl, rfl⟩
  | accessor called setter =>
      cases called with
      | false =>
          cases read
          exact ⟨.undefined, rfl, rfl⟩
      | true =>
          have came := behaves object key world
          have answered : (getter object key world).1.map toJson = some value :=
            congrArg Prod.fst read
          obtain ⟨child, gave, rfl⟩ := Option.map_eq_some_iff.mp answered
          rw [gave] at came
          exact ⟨child, came, rfl⟩

variable (shortestDigits graph getter) in
def Written.Comes (value : Shown Ref) : Prop :=
  ∀ place world out first, ∃ written,
    Walks shortestDigits (jsonHeap graph getter) place world out first (.value (toJson value)) written

theorem elements_come (elements : List (Shown Ref))
    (each : ∀ element ∈ elements, Written.Comes shortestDigits graph getter element) :
    ∀ place world out first index, ∃ written,
      Walks shortestDigits (jsonHeap graph getter) place world out first
        (.elements index (elements.map toJson)) written := by
  induction elements with
  | nil => exact fun _ _ _ _ _ => ⟨_, .noElements⟩
  | cons element rest ih =>
      intro place world out first index
      obtain ⟨one, single⟩ := each element List.mem_cons_self (place ++ [.element index]) world
        (if index > 0 then out ++ ascii "," else out) true
      obtain ⟨others, later⟩ := ih
        (fun other member => each other (List.mem_cons_of_mem element member)) place one.world
        (if one.writable then one.out else one.out ++ ascii "null") true (index + 1)
      exact ⟨_, .element single later⟩

theorem members_come (behaves : Behaves answers getter) {object : Ref}
    (each : ∀ child, Writes graph answers child (.object object) →
      Written.Comes shortestDigits graph getter child)
    (properties : List (Property Ref)) :
    ∀ before : List (Property Ref), (graph.objects object).properties = before ++ properties →
      (∀ earlier ∈ before, Passes answers object earlier) →
      ∀ place world out first index, ∃ written,
        Walks shortestDigits (jsonHeap graph getter) place world out first
          (.members object index (properties.map jsonOwn)) written := by
  induction properties with
  | nil => exact fun _ _ _ _ _ _ _ _ => ⟨_, .noMembers⟩
  | cons property rest ih =>
      intro before split passed place world out first index
      have later : Passes answers object property → ∀ world out first, ∃ written,
          Walks shortestDigits (jsonHeap graph getter) place world out first
            (.members object (index + 1) (rest.map jsonOwn)) written := by
        intro passes world out first
        refine ih (before ++ [property]) (by rw [split, List.append_assoc]; rfl) ?_ place world out
          first (index + 1)
        intro earlier member
        rcases List.mem_append.mp member with old | last
        · exact passed earlier old
        · rw [List.mem_singleton.mp last]
          exact passes
      cases enumerable : property.enumerable with
      | false =>
          obtain ⟨others, walks⟩ := later (fun seen => by rw [enumerable] at seen; cases seen)
            world out first
          exact ⟨_, .hidden enumerable walks⟩
      | true =>
          cases read : csVMReadOwnProperty (jsonHeap graph getter) place object index
              (jsonOwn property) world with
          | mk value left =>
              obtain ⟨world', calls⟩ := left
              cases value with
              | none => exact ⟨_, .unanswered enumerable read⟩
              | some value =>
                  obtain ⟨child, reads, rfl⟩ := read_reads behaves read
                  have comes := each child ⟨before, property, rest, split, enumerable, passed, reads⟩
                  have others := later (fun _ => ⟨child, reads⟩)
                  obtain ⟨probe, trial⟩ := comes (place ++ [.member index]) world' [] true
                  cases writable : probe.writable with
                  | false =>
                      obtain ⟨written, walks⟩ := others probe.world out first
                      exact ⟨_, .omitted enumerable read trial writable walks⟩
                  | true =>
                      obtain ⟨member, single⟩ := comes (place ++ [.member index]) probe.world
                        (jsonAppendString (if first then out else out ++ ascii ",")
                          (jsonOwn property).key.chars ++ ascii ":") true
                      obtain ⟨written, walks⟩ := others member.world member.out false
                      exact ⟨_, .member enumerable read trial writable single walks⟩

theorem comes_of_acc (behaves : Behaves answers getter) {value : Shown Ref}
    (accessible : Acc (Writes graph answers) value) :
    Written.Comes shortestDigits graph getter value := by
  induction accessible with
  | intro value _ ih =>
      intro place world out first
      cases value with
      | array array =>
          obtain ⟨written, walks⟩ := elements_come (graph.arrays array) ih place world
            (out ++ ascii "[") true 0
          exact ⟨_, .array walks⟩
      | object object =>
          obtain ⟨written, walks⟩ := members_come behaves ih (graph.objects object).properties []
            rfl (List.forall_mem_nil _) place world (out ++ ascii "\x7b") true 0
          exact ⟨_, .object walks⟩
      | _ => exact ⟨_, .atom rfl⟩

end

/-! ### What is written ends -/

section

variable {Ref : Type} (graph : Graph Ref) (answers : Answers Ref)

open Classical in
/-- A getter that leads down for ever if it may, and fails only if it must. -/
noncomputable def worst (object : Ref) (key : ObjString) : Option (Shown Ref) :=
  if endless : ∃ child, answers.may object key (some child) ∧ ¬Acc (Writes graph answers) child then
    some endless.choose
  else if answered : ∃ child, answers.may object key (some child) then some answered.choose
  else none

noncomputable def worstGetter (object : Ref) (key : ObjString) (world : Unit) :
    Option (Shown Ref) × Unit :=
  (worst graph answers object key, world)

theorem worst_behaves : Behaves answers (worstGetter graph answers) := by
  intro object key world
  unfold worstGetter worst
  split
  · rename_i endless
    exact endless.choose_spec.1
  · split
    · rename_i answered
      exact answered.choose_spec
    · rename_i silent
      obtain ⟨answer, comes⟩ := answers.comes object key
      cases answer with
      | none => exact comes
      | some child => exact absurd ⟨child, comes⟩ silent

variable {graph answers} {shortestDigits : Double → Digits}

theorem acc_of_worst {object : Ref} {key : ObjString} {answer child : Shown Ref}
    (gave : worst graph answers object key = some answer)
    (ends : Acc (Writes graph answers) answer) (may : answers.may object key (some child)) :
    Acc (Writes graph answers) child := by
  by_contra endless
  have some_endless : ∃ child, answers.may object key (some child) ∧
      ¬Acc (Writes graph answers) child := ⟨child, may, endless⟩
  unfold worst at gave
  rw [dif_pos some_endless] at gave
  cases gave
  exact some_endless.choose_spec.2 ends

theorem acc_of_atom {value : Shown Ref} (atomic : (toJson value).isContainer = false) :
    Acc (Writes graph answers) value := by
  constructor
  intro child writes
  cases value with
  | array | object => cases atomic
  | _ => cases writes

theorem read_failed {place : List Step} {object : Ref} {index : Nat} {property : Property Ref}
    {world world' : Unit} {calls : List Call}
    (read : csVMReadOwnProperty (jsonHeap graph (worstGetter graph answers)) place object index
      (jsonOwn property) world = (none, world', calls)) (child : Shown Ref) :
    ¬Reads answers object property child := by
  obtain ⟨key, enumerable, slot⟩ := property
  cases slot with
  | value stored => cases read
  | accessor called setter =>
      cases called with
      | false => cases read
      | true =>
          intro may
          have failed : (worst graph answers object key).map toJson = none := congrArg Prod.fst read
          have silent := Option.map_eq_none_iff.mp failed
          unfold worst at silent
          split at silent
          · cases silent
          · split at silent
            · cases silent
            · rename_i unanswered
              exact unanswered ⟨child, may⟩

theorem acc_of_read {place : List Step} {object : Ref} {index : Nat} {property : Property Ref}
    {world world' : Unit} {calls : List Call} {value : JsonValue Ref}
    (read : csVMReadOwnProperty (jsonHeap graph (worstGetter graph answers)) place object index
      (jsonOwn property) world = (some value, world', calls))
    (ends : ∀ child, toJson child = value → Acc (Writes graph answers) child) {child : Shown Ref}
    (reads : Reads answers object property child) : Acc (Writes graph answers) child := by
  obtain ⟨key, enumerable, slot⟩ := property
  cases slot with
  | value stored =>
      cases read
      cases reads
      exact ends child rfl
  | accessor called setter =>
      cases called with
      | false =>
          cases reads
          exact acc_of_atom rfl
      | true =>
          have answered : (worst graph answers object key).map toJson = some value :=
            congrArg Prod.fst read
          obtain ⟨answer, gave, same⟩ := Option.map_eq_some_iff.mp answered
          exact acc_of_worst gave (ends answer same) reads

variable (graph answers) in
def PartEnds : Part Ref → Prop
  | .value value => ∀ child, toJson child = value → Acc (Writes graph answers) child
  | .elements _ values => ∀ elements : List (Shown Ref), elements.map toJson = values →
      ∀ child ∈ elements, Acc (Writes graph answers) child
  | .members object _ owns => ∀ properties : List (Property Ref), properties.map jsonOwn = owns →
      ∀ before property after child, properties = before ++ property :: after →
        property.enumerable = true → (∀ earlier ∈ before, Passes answers object earlier) →
        Reads answers object property child → Acc (Writes graph answers) child

theorem members_end {object : Ref} {index : Nat} {own : Own Ref} {owns : List (Own Ref)}
    (now : ∀ property child, jsonOwn property = own → property.enumerable = true →
      Reads answers object property child → Acc (Writes graph answers) child)
    (later : (∃ property, jsonOwn property = own ∧ Passes answers object property) →
      PartEnds graph answers (.members object (index + 1) owns)) :
    PartEnds graph answers (.members object index (own :: owns)) := by
  intro properties same before property after child split enumerable passed reads
  cases before with
  | nil =>
      rw [split] at same
      exact now property child (List.cons.inj same).1 enumerable reads
  | cons first before =>
      rw [split] at same
      obtain ⟨head, rest⟩ := List.cons.inj same
      exact later ⟨first, head, passed first List.mem_cons_self⟩ _ rest before property after child
        rfl enumerable (fun earlier member => passed earlier (List.mem_cons_of_mem first member))
        reads

theorem walks_end {place : List Step} {world : Unit} {out : List UInt8} {first : Bool}
    {part : Part Ref} {written : Written Unit}
    (walks : Walks shortestDigits (jsonHeap graph (worstGetter graph answers)) place world out
      first part written) : PartEnds graph answers part := by
  induction walks with
  | atom atomic =>
      intro child same
      exact acc_of_atom (by rw [same]; exact atomic)
  | @array _ _ _ _ array _ _ ih =>
      intro child same
      cases child with
      | array =>
          cases same
          exact ⟨_, fun inner member => ih (graph.arrays array) rfl inner member⟩
      | _ => cases same
  | @object _ _ _ _ object _ _ ih =>
      intro child same
      cases child with
      | object =>
          cases same
          refine ⟨_, fun inner writes => ?_⟩
          obtain ⟨before, property, after, split, enumerable, passed, reads⟩ := writes
          exact ih _ rfl before property after inner split enumerable passed reads
      | _ => cases same
  | noElements =>
      intro elements same child member
      rw [List.map_eq_nil_iff.mp same] at member
      cases member
  | element _ _ ih others =>
      intro elements same child member
      cases elements with
      | nil => cases same
      | cons head rest =>
          obtain ⟨here, there⟩ := List.cons.inj same
          rcases List.mem_cons.mp member with rfl | later
          · exact ih child here
          · exact others rest there child later
  | noMembers =>
      intro properties same before property after child split
      rw [List.map_eq_nil_iff.mp same] at split
      cases before <;> cases split
  | hidden unseen _ ih =>
      refine members_end (fun property child same enumerable => ?_) (fun _ => ih)
      rw [← same] at unseen
      exact absurd (unseen.symm.trans enumerable) Bool.false_ne_true
  | unanswered seen read =>
      refine members_end (fun property child same _ reads => ?_) ?_
      · subst same
        exact absurd reads (read_failed read child)
      · rintro ⟨property, rfl, passes⟩
        obtain ⟨child, reads⟩ := passes seen
        exact absurd reads (read_failed read child)
  | omitted seen read _ _ _ ih others =>
      refine members_end (fun property child same _ reads => ?_) (fun _ => others)
      subst same
      exact acc_of_read read ih reads
  | member seen read _ _ _ _ trials ih others =>
      refine members_end (fun property child same _ reads => ?_) (fun _ => others)
      subst same
      exact acc_of_read read trials reads

end

/-! ### Termination -/

section

variable {Ref : Type} (shortestDigits : Double → Digits) (graph : Graph Ref)
  (answers : Answers Ref)

/-- Whatever the getters answer of what they may, `jsonWrite` returns. -/
def JsonWriteEnds (value : Shown Ref) : Prop :=
  ∀ (World : Type) (getter : Ref → ObjString → World → Option (Shown Ref) × World),
    Behaves answers getter → ∀ world out, ∃ fuel written,
      jsonWrite shortestDigits (jsonHeap graph getter) fuel [] world out (toJson value) =
        some written

theorem jsonWrite_ends_iff (value : Shown Ref) :
    JsonWriteEnds shortestDigits graph answers value ↔ Acc (Writes graph answers) value := by
  constructor
  · intro ends
    obtain ⟨fuel, written, ran⟩ := ends Unit _ (worst_behaves graph answers) () []
    exact walks_end (jsonWrite_walks fuel ran) value rfl
  · intro accessible World getter behaves world out
    obtain ⟨written, walks⟩ := comes_of_acc behaves accessible [] world out true
    obtain ⟨fuel, ran⟩ := walks_run walks
    exact ⟨fuel, written, ran 0⟩

theorem finite_containers [Finite Ref] {below : Shown Ref → Shown Ref → Prop}
    (inside : ∀ child parent, below child parent → (∃ ref, parent = .array ref) ∨
      (∃ ref, parent = .object ref) ∨ (∃ ref, parent = .map ref) ∨ ∃ ref, parent = .promise ref) :
    Set.Finite {parent | ∃ child, below child parent} := by
  refine Set.Finite.subset ((Set.finite_range Shown.array).union ((Set.finite_range
    Shown.object).union ((Set.finite_range Shown.map).union (Set.finite_range Shown.promise)))) ?_
  rintro parent ⟨child, under⟩
  rcases inside child parent under with ⟨ref, rfl⟩ | ⟨ref, rfl⟩ | ⟨ref, rfl⟩ | ⟨ref, rfl⟩
  · exact Or.inl ⟨ref, rfl⟩
  · exact Or.inr (Or.inl ⟨ref, rfl⟩)
  · exact Or.inr (Or.inr (Or.inl ⟨ref, rfl⟩))
  · exact Or.inr (Or.inr (Or.inr ⟨ref, rfl⟩))

structure RenderingEnds (value : Shown Ref) : Prop where
  inspect : ∃ fuel text, csValueInspect shortestDigits graph fuel value = some text
  toCString : ∃ fuel text, csValueToCString shortestDigits graph fuel value = some text
  json : JsonWriteEnds shortestDigits graph answers value

theorem rendering_ends_iff [Finite Ref] (value : Shown Ref) :
    RenderingEnds shortestDigits graph answers value ↔
      Acyclic graph.Shows value ∧ Acyclic (Writes graph answers) value := by
  have shown : Set.Finite {parent | ∃ child, graph.Shows child parent} := by
    refine finite_containers (fun child parent shows => ?_)
    cases parent with
    | array ref => exact Or.inl ⟨ref, rfl⟩
    | object ref => exact Or.inr (Or.inl ⟨ref, rfl⟩)
    | map ref => exact Or.inr (Or.inr (Or.inl ⟨ref, rfl⟩))
    | promise ref => exact Or.inr (Or.inr (Or.inr ⟨ref, rfl⟩))
    | _ => cases shows
  have written : Set.Finite {parent | ∃ child, Writes graph answers child parent} := by
    refine finite_containers (fun child parent writes => ?_)
    cases parent with
    | array ref => exact Or.inl ⟨ref, rfl⟩
    | object ref => exact Or.inr (Or.inl ⟨ref, rfl⟩)
    | _ => cases writes
  rw [← acc_iff_acyclic shown, ← acc_iff_acyclic written]
  constructor
  · rintro ⟨inspects, _, writes⟩
    exact ⟨(csValueInspect_ends_iff value).mp inspects,
      (jsonWrite_ends_iff shortestDigits graph answers value).mp writes⟩
  · rintro ⟨shows, writes⟩
    exact ⟨(csValueInspect_ends_iff value).mpr shows, (csValueToCString_ends_iff value).mpr shows,
      (jsonWrite_ends_iff shortestDigits graph answers value).mpr writes⟩

end

def loneArray (looping : Bool) : Graph Unit where
  arrays _ := if looping then [.array ()] else []
  objects _ := { klass := none, builtByConstructor := false, name := none, properties := [] }
  maps _ := { isWeak := false, isSet := false, liveCount := 0, entries := [] }
  promises _ := .pending

def silent : Answers Unit where
  may _ _ answer := answer = none
  comes _ _ := ⟨none, rfl⟩

theorem rendering_ends_iff_empty :
    RenderingEnds oneDigits (loneArray false) silent (.array ()) ∧
      Acyclic (loneArray false).Shows (.array ()) := by
  have shows : Acc (loneArray false).Shows (.array ()) := ⟨_, fun child inside => by cases inside⟩
  have writes : Acc (Writes (loneArray false) silent) (.array ()) :=
    ⟨_, fun child inside => by cases inside⟩
  exact ⟨(rendering_ends_iff oneDigits (loneArray false) silent (.array ())).mpr
    ⟨acyclic_of_acc shows, acyclic_of_acc writes⟩, acyclic_of_acc shows⟩

/-- An array that holds itself is never printed. -/
theorem circular_unmarked : ¬∀ (Ref : Type) (_ : Finite Ref) (shortestDigits : Double → Digits)
    (graph : Graph Ref) (answers : Answers Ref) (value : Shown Ref),
    RenderingEnds shortestDigits graph answers value := by
  intro claim
  have ends := (claim Unit inferInstance oneDigits (loneArray true) silent (.array ())).inspect
  have shows := (csValueInspect_ends_iff _).mp ends
  exact acyclic_of_acc shows (.array ()) .refl (.single (List.mem_singleton.mpr rfl))

end CScript.JsonAccessors
