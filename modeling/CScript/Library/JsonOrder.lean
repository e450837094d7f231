/-
Values that differ in the order of their keys only.

A stable text is that of the value whose members were sorted first.  The order
compares two keys up to their first zero byte, so it is an order of the cut keys, and
it decides the sorted list only where no two of those are equal.
-/

import CScript.Library.JsonText

namespace CScript.StdJson

open Foundation

/-! ### The order of keys -/

/-- What `strcmp` sees of a key. -/
def upToZero (key : List UInt8) : List UInt8 :=
  key.takeWhile (fun c => c ≠ 0)

@[simp] theorem upToZero_nil : upToZero [] = [] := rfl

theorem upToZero_cons (c : UInt8) (key : List UInt8) :
    upToZero (c :: key) = if c = 0 then [] else c :: upToZero key := by
  by_cases zero : c = 0
  · simp [upToZero, zero]
  · simp [upToZero, zero]

theorem comesAfter_iff (left right : List UInt8) :
    comesAfter left right = true ↔ upToZero right < upToZero left := by
  induction left generalizing right with
  | nil => simp [comesAfter]
  | cons c left ih =>
      cases right with
      | nil =>
          rw [comesAfter, upToZero_nil, upToZero_cons]
          by_cases zero : c = 0
          · simp [zero]
          · simp [zero]
      | cons d right =>
          rw [comesAfter, upToZero_cons, upToZero_cons]
          by_cases same : c = d
          · subst same
            by_cases zero : c = 0
            · simp [zero]
            · simp [zero, ih]
          · have apart : ¬d = c := fun equal => same equal.symm
            by_cases zero : c = 0
            · subst zero
              simp [same, apart]
            · by_cases zero' : d = 0
              · subst zero'
                have positive : (0 : UInt8) < c := UInt8.pos_iff_ne_zero.mpr zero
                simp [same, positive]
              · simp [same, zero, zero', List.cons_lt_cons_iff, apart]

theorem comesAfter_orders : KeySort.Orders comesAfter where
  asymm := by
    intro a b after
    rw [comesAfter_iff] at after
    rw [← Bool.not_eq_true, comesAfter_iff]
    exact List.lt_asymm after
  trans := by
    intro a b c first second
    rw [← Bool.not_eq_true, comesAfter_iff, List.not_lt] at *
    exact List.le_trans first second

theorem ties_iff (left right : List UInt8) :
    (comesAfter left right = false ∧ comesAfter right left = false) ↔
      upToZero left = upToZero right := by
  constructor
  · rintro ⟨first, second⟩
    rw [← Bool.not_eq_true, comesAfter_iff, List.not_lt] at first second
    exact List.le_antisymm first second
  · intro same
    rw [← Bool.not_eq_true, ← Bool.not_eq_true, comesAfter_iff, comesAfter_iff, same]
    exact ⟨List.lt_irrefl _, List.lt_irrefl _⟩

theorem lt_of_upToZero {left right : List UInt8} (cut : upToZero left < upToZero right) :
    left < right := by
  induction left generalizing right with
  | nil =>
      cases right with
      | nil => exact absurd cut (List.lt_irrefl _)
      | cons d right => exact List.nil_lt_cons d right
  | cons c left ih =>
      cases right with
      | nil => exact absurd cut (List.not_lt_nil _)
      | cons d right =>
          rw [upToZero_cons, upToZero_cons] at cut
          rw [List.cons_lt_cons_iff]
          by_cases zero' : d = 0
          · rw [if_pos zero'] at cut
            exact absurd cut (List.not_lt_nil _)
          by_cases zero : c = 0
          · subst zero
            exact .inl (UInt8.pos_iff_ne_zero.mpr zero')
          · rw [if_neg zero, if_neg zero', List.cons_lt_cons_iff] at cut
            rcases cut with less | ⟨same, less⟩
            · exact .inl less
            · exact .inr ⟨same, ih less⟩

/-! ### What holds at every depth -/

section

variable (string : List UInt8 → Prop) (keys : List (List UInt8) → Prop)

mutual

def Throughout : JsonValue → Prop
  | .string chars => string chars
  | .array elements => ThroughoutElements elements
  | .object members => keys (members.map Prod.fst) ∧ ThroughoutMembers members
  | _ => True

def ThroughoutElements : List JsonValue → Prop
  | [] => True
  | element :: rest => Throughout element ∧ ThroughoutElements rest

def ThroughoutMembers : List (List UInt8 × JsonValue) → Prop
  | [] => True
  | (_, held) :: rest => Throughout held ∧ ThroughoutMembers rest

end

end

theorem throughoutElements_iff {string : List UInt8 → Prop} {keys : List (List UInt8) → Prop}
    {elements : List JsonValue} :
    ThroughoutElements string keys elements ↔
      ∀ element ∈ elements, Throughout string keys element := by
  induction elements with
  | nil => simp [ThroughoutElements]
  | cons element rest ih => rw [ThroughoutElements, ih, List.forall_mem_cons]

theorem throughoutMembers_iff {string : List UInt8 → Prop} {keys : List (List UInt8) → Prop}
    {members : List (List UInt8 × JsonValue)} :
    ThroughoutMembers string keys members ↔
      ∀ member ∈ members, Throughout string keys member.2 := by
  induction members with
  | nil => simp [ThroughoutMembers]
  | cons member rest ih =>
      obtain ⟨key, held⟩ := member
      rw [ThroughoutMembers, ih, List.forall_mem_cons]

theorem plainElements_iff {numbers : NumberText} {elements : List JsonValue} :
    PlainElements numbers elements ↔ ∀ element ∈ elements, Plain numbers element := by
  induction elements with
  | nil => simp [PlainElements]
  | cons element rest ih => rw [PlainElements, ih, List.forall_mem_cons]

theorem plainMembers_iff {numbers : NumberText} {members : List (List UInt8 × JsonValue)} :
    PlainMembers numbers members ↔ ∀ member ∈ members, Plain numbers member.2 := by
  induction members with
  | nil => simp [PlainMembers]
  | cons member rest ih =>
      obtain ⟨key, held⟩ := member
      rw [PlainMembers, ih, List.forall_mem_cons]

def CleanBytes (text : List UInt8) : Prop :=
  ∀ c ∈ text, c ≠ 8 ∧ c ≠ 12

instance (text : List UInt8) : Decidable (CleanBytes text) :=
  List.decidableBAll _ text

def Clean (value : JsonValue) : Prop :=
  Throughout CleanBytes (fun keys => ∀ key ∈ keys, CleanBytes key) value

def NoTies (value : JsonValue) : Prop :=
  Throughout (fun _ => True) (fun keys => (keys.map upToZero).Nodup) value

def KeysSorted (value : JsonValue) : Prop :=
  Throughout (fun _ => True) (fun keys => keys.Pairwise (fun left right => left < right)) value

/-! ### Key order -/

inductive Reordered : JsonValue → JsonValue → Prop where
  | refl (value : JsonValue) : Reordered value value
  | trans {first second third : JsonValue} :
      Reordered first second → Reordered second third → Reordered first third
  | permute {members others : List (List UInt8 × JsonValue)} :
      members.Perm others → Reordered (.object members) (.object others)
  | element {left right : JsonValue} (before after : List JsonValue) :
      Reordered left right →
        Reordered (.array (before ++ left :: after)) (.array (before ++ right :: after))
  | member {left right : JsonValue} (before after : List (List UInt8 × JsonValue))
      (key : List UInt8) :
      Reordered left right →
        Reordered (.object (before ++ (key, left) :: after))
          (.object (before ++ (key, right) :: after))

theorem Reordered.throughout {string : List UInt8 → Prop} {keys : List (List UInt8) → Prop}
    (unordered : ∀ {names others : List (List UInt8)}, names.Perm others → keys names → keys others)
    {value other : JsonValue} (moved : Reordered value other)
    (holds : Throughout string keys value) : Throughout string keys other := by
  induction moved with
  | refl value => exact holds
  | trans first second ihFirst ihSecond => exact ihSecond (ihFirst holds)
  | permute perm =>
      refine ⟨unordered (perm.map Prod.fst) holds.1, throughoutMembers_iff.mpr ?_⟩
      intro member present
      exact throughoutMembers_iff.mp holds.2 member (perm.mem_iff.mpr present)
  | element before after moved ih =>
      simp only [Throughout, throughoutElements_iff, List.forall_mem_append,
        List.forall_mem_cons] at holds ⊢
      exact ⟨holds.1, ih holds.2.1, holds.2.2⟩
  | member before after key moved ih =>
      simp only [Throughout, throughoutMembers_iff, List.map_append, List.map_cons,
        List.forall_mem_append, List.forall_mem_cons] at holds ⊢
      exact ⟨holds.1, holds.2.1, ih holds.2.2.1, holds.2.2.2⟩

theorem Reordered.plain {numbers : NumberText} {value other : JsonValue}
    (moved : Reordered value other) (holds : Plain numbers value) : Plain numbers other := by
  induction moved with
  | refl value => exact holds
  | trans first second ihFirst ihSecond => exact ihSecond (ihFirst holds)
  | permute perm =>
      refine ⟨(perm.map Prod.fst).nodup_iff.mp holds.1, plainMembers_iff.mpr ?_⟩
      intro member present
      exact plainMembers_iff.mp holds.2 member (perm.mem_iff.mpr present)
  | element before after moved ih =>
      simp only [Plain, plainElements_iff, List.forall_mem_append, List.forall_mem_cons] at holds ⊢
      exact ⟨holds.1, ih holds.2.1, holds.2.2⟩
  | member before after key moved ih =>
      simp only [Plain, plainMembers_iff, List.map_append, List.map_cons,
        List.forall_mem_append, List.forall_mem_cons] at holds ⊢
      exact ⟨holds.1, holds.2.1, ih holds.2.2.1, holds.2.2.2⟩

theorem Reordered.clean {value other : JsonValue} (moved : Reordered value other)
    (clean : Clean value) : Clean other :=
  moved.throughout (fun perm all key member => all key (perm.mem_iff.mpr member)) clean

theorem Reordered.noTies {value other : JsonValue} (moved : Reordered value other)
    (noTies : NoTies value) : NoTies other :=
  moved.throughout (fun perm nodup => (perm.map upToZero).nodup_iff.mp nodup) noTies

/-! ### Arranged members -/

section

variable (order : List (List UInt8 × JsonValue) → List (List UInt8 × JsonValue))

mutual

def arrange : JsonValue → JsonValue
  | .array elements => .array (arrangeElements elements)
  | .object members => .object (order (arrangeMembers members))
  | value => value

def arrangeElements : List JsonValue → List JsonValue
  | [] => []
  | element :: rest => arrange element :: arrangeElements rest

def arrangeMembers : List (List UInt8 × JsonValue) → List (List UInt8 × JsonValue)
  | [] => []
  | (key, held) :: rest => (key, arrange held) :: arrangeMembers rest

end

variable {order}

theorem arrangeElements_eq (elements : List JsonValue) :
    arrangeElements order elements = elements.map (arrange order) := by
  induction elements with
  | nil => rfl
  | cons element rest ih => rw [arrangeElements, ih, List.map_cons]

theorem arrangeMembers_eq (members : List (List UInt8 × JsonValue)) :
    arrangeMembers order members =
      members.map (fun member => (member.1, arrange order member.2)) := by
  induction members with
  | nil => rfl
  | cons member rest ih =>
      obtain ⟨key, held⟩ := member
      rw [arrangeMembers, ih, List.map_cons]

mutual

theorem reordered_arrange (permutes : ∀ members, (order members).Perm members) :
    ∀ value, Reordered value (arrange order value)
  | .array elements => reordered_arrangeElements permutes elements []
  | .object members =>
      (reordered_arrangeMembers permutes members []).trans (.permute (permutes _).symm)
  | .null | .undefined | .boolean _ | .number _ | .string _ | .bigint | .set _ | .date _
  | .other _ => .refl _

theorem reordered_arrangeElements (permutes : ∀ members, (order members).Perm members) :
    ∀ (elements before : List JsonValue),
      Reordered (.array (before ++ elements)) (.array (before ++ arrangeElements order elements))
  | [], before => .refl _
  | element :: rest, before => by
      have first := Reordered.element before rest (reordered_arrange permutes element)
      have others := reordered_arrangeElements permutes rest (before ++ [arrange order element])
      simp only [List.append_assoc, List.singleton_append] at others
      exact first.trans others

theorem reordered_arrangeMembers (permutes : ∀ members, (order members).Perm members) :
    ∀ (members before : List (List UInt8 × JsonValue)),
      Reordered (.object (before ++ members)) (.object (before ++ arrangeMembers order members))
  | [], before => .refl _
  | (key, held) :: rest, before => by
      have first := Reordered.member before rest key (reordered_arrange permutes held)
      have others := reordered_arrangeMembers permutes rest (before ++ [(key, arrange order held)])
      simp only [List.append_assoc, List.singleton_append] at others
      exact first.trans others

end

end

end CScript.StdJson
