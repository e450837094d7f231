/-
Unions of types.

A union keeps its arms in ascending order without repetition, and the table has each
union once, so that types are compared by their ids.  The members are taken in the order
given, and what absorbs a union, or is one arm too many for the buffer, ends the loop.
-/

import CScript.Compiler.TypeTable
import CScript.Foundation.DescendingList
import Mathlib.Data.Finset.Card
import Mathlib.Data.Finset.Dedup

namespace CScript.Typing

open Foundation.DescendingList

/-! ### The source -/

structure TypePools extends TypeTable where
  slotCount : Nat
  full : Bool

def unionArms (table : TypeTable) (member : TypeId) : List TypeId :=
  match csTypeComposite table member with
  | some (.union slots) => slots
  | _ => [member]

def settle (one : TypeId) : List TypeId → List TypeId
  | [] => [one]
  | last :: rest => if idOf one < idOf last then last :: settle one rest else one :: last :: rest

def addArm (flat : List TypeId) (one : TypeId) : Except TypeId (List TypeId) :=
  if one ∈ flat then .ok flat
  else if 16 ≤ flat.length then .error .dynamic
  else .ok (settle one flat)

def addMember (table : TypeTable) (flat : List TypeId) (member : TypeId) :
    Except TypeId (List TypeId) :=
  if member = .dynamic then .error .dynamic
  else if member = .unknown then .error .unknown
  else if member = .error then .error .error
  else if member = .never then .ok flat
  else (unionArms table member).foldlM addArm flat

/-- The first loop: the arms, or the answer that ended it. -/
def flatten (table : TypeTable) (members : List TypeId) : Except TypeId (List TypeId) :=
  members.foldlM (addMember table) []

def isUnionOf (slots : List TypeId) (composite : CompositeType) : Bool :=
  decide (composite = .union slots)

def csTypeTakeSlots (pools : TypePools) (count : Nat) : Option TypePools :=
  if 768 < pools.slotCount + count then none
  else some { pools with slotCount := pools.slotCount + count }

/-- The id of the new type, where there is one. -/
def csTypeNewComposite (pools : TypePools) (composite : CompositeType) :
    Option TypeId × TypePools :=
  if 256 ≤ pools.composites.length then (none, { pools with full := true })
  else (some (.composite pools.composites.length),
    { pools with composites := pools.composites ++ [composite] })

def csTypeUnionOf (pools : TypePools) (members : List TypeId) : TypeId × TypePools :=
  if members = [] then (.dynamic, pools)
  else
    match flatten pools.toTypeTable members with
    | .error answer => (answer, pools)
    | .ok [] => (.never, pools)
    | .ok [one] => (one, pools)
    | .ok flat =>
        match pools.composites.findIdx? (isUnionOf flat.reverse) with
        | some index => (.composite index, pools)
        | none =>
            match csTypeTakeSlots pools flat.length with
            | none => (.dynamic, { pools with full := true })
            | some pools =>
                let (id, pools) := csTypeNewComposite pools (.union flat.reverse)
                (id.getD .dynamic, pools)

def csTypeUnionWith (pools : TypePools) (left right : TypeId) : TypeId × TypePools :=
  csTypeUnionOf pools [left, right]

/-! ### The arms of a list of members -/

def Absorbing (type : TypeId) : Prop :=
  type = .dynamic ∨ type = .unknown ∨ type = .error

instance (type : TypeId) : Decidable (Absorbing type) :=
  inferInstanceAs (Decidable (type = .dynamic ∨ type = .unknown ∨ type = .error))

/-- The arms of one member in the end; what absorbs has none. -/
def arms (table : TypeTable) (member : TypeId) : List TypeId :=
  if Absorbing member ∨ member = .never then [] else unionArms table member

def armsOf (table : TypeTable) (members : List TypeId) : List TypeId :=
  members.flatMap (arms table)

theorem settle_place {one : TypeId} {flat : List TypeId} (absent : one ∉ flat) :
    settle one flat = (place idOf (idOf one) one flat).2 := by
  induction flat with
  | nil => rfl
  | cons last rest ih =>
      have apart : idOf last ≠ idOf one := by
        intro same
        exact absent (List.mem_cons.mpr (.inl (idOf_inj same).symm))
      unfold settle place
      by_cases below : idOf one < idOf last
      · rw [if_pos below, if_pos below, ih (fun member => absent (List.mem_cons_of_mem _ member))]
      · rw [if_neg below, if_neg below, if_neg apart]

structure Buffer (flat : List TypeId) : Prop where
  descending : Descending idOf flat
  room : flat.length ≤ 16

theorem Buffer.nodup {flat : List TypeId} (buffer : Buffer flat) : flat.Nodup :=
  buffer.descending.imp (fun {left right} less same => by
    rw [same] at less
    exact absurd less (Nat.lt_irrefl _))

theorem settle_spec {one : TypeId} {flat : List TypeId} (buffer : Buffer flat)
    (absent : one ∉ flat) :
    Descending idOf (settle one flat) ∧ (settle one flat).length = flat.length + 1 ∧
      ∀ arm, arm ∈ settle one flat ↔ arm = one ∨ arm ∈ flat := by
  rw [settle_place absent]
  have length (flat : List TypeId) (absent : one ∉ flat) :
      (place idOf (idOf one) one flat).2.length = flat.length + 1 := by
    rw [← settle_place absent]
    clear absent buffer
    induction flat with
    | nil => rfl
    | cons last rest ih =>
        unfold settle
        split
        · rw [List.length_cons, ih, List.length_cons]
        · rfl
  refine ⟨place_descending buffer.descending rfl, length flat absent, ?_⟩
  rcases place_cases (idOf one) one buffer.descending with ⟨there, same, _⟩ | ⟨_, _, members⟩
  · exact absurd (idOf_inj same ▸ there) absent
  · exact members

def Adds (flat new : List TypeId) : Except TypeId (List TypeId) → Prop
  | .error answer => answer = .dynamic ∧ 16 < (flat ++ new).toFinset.card
  | .ok grown => Buffer grown ∧ ∀ arm, arm ∈ grown ↔ arm ∈ flat ∨ arm ∈ new

theorem addArm_adds {flat : List TypeId} (buffer : Buffer flat) (one : TypeId) :
    Adds flat [one] (addArm flat one) := by
  unfold addArm
  by_cases there : one ∈ flat
  · rw [if_pos there]
    refine ⟨buffer, fun arm => ?_⟩
    rw [List.mem_singleton]
    exact ⟨.inl, fun member => member.elim id (fun same => same ▸ there)⟩
  · rw [if_neg there]
    by_cases many : 16 ≤ flat.length
    · rw [if_pos many]
      refine ⟨rfl, ?_⟩
      have distinct : (flat ++ [one]).Nodup :=
        List.nodup_append.mpr ⟨buffer.nodup, List.nodup_singleton one, by
          rintro arm member other single rfl
          exact there (List.mem_singleton.mp single ▸ member)⟩
      rw [List.toFinset_card_of_nodup distinct, List.length_append, List.length_singleton]
      omega
    · rw [if_neg many]
      obtain ⟨descending, length, members⟩ := settle_spec buffer there
      refine ⟨⟨descending, by omega⟩, fun arm => ?_⟩
      rw [members, List.mem_singleton, or_comm]

theorem Adds.append {flat middle first second : List TypeId} {answer : Except TypeId (List TypeId)}
    (members : ∀ arm, arm ∈ middle ↔ arm ∈ flat ∨ arm ∈ first) (adds : Adds middle second answer) :
    Adds flat (first ++ second) answer := by
  cases answer with
  | error answer =>
      refine ⟨adds.1, lt_of_lt_of_le adds.2 (Finset.card_le_card ?_)⟩
      intro arm member
      simp only [List.mem_toFinset, List.mem_append, members] at member ⊢
      tauto
  | ok grown =>
      refine ⟨adds.1, fun arm => ?_⟩
      rw [adds.2, members, List.mem_append, or_assoc]

theorem Adds.more {flat first second : List TypeId} {answer : TypeId}
    (adds : Adds flat first (.error answer)) : Adds flat (first ++ second) (.error answer) := by
  refine ⟨adds.1, lt_of_lt_of_le adds.2 (Finset.card_le_card ?_)⟩
  intro arm member
  simp only [List.mem_toFinset, List.mem_append] at member ⊢
  tauto

theorem addArms_adds {flat : List TypeId} (buffer : Buffer flat) (new : List TypeId) :
    Adds flat new (new.foldlM addArm flat) := by
  induction new generalizing flat with
  | nil => exact ⟨buffer, fun arm => by simp⟩
  | cons one new ih =>
      have first := addArm_adds buffer one
      rw [List.foldlM_cons]
      cases added : addArm flat one with
      | error answer =>
          rw [added] at first
          exact first.more
      | ok middle =>
          rw [added] at first
          exact Adds.append first.2 (ih first.1)

theorem addMember_absorbing {table : TypeTable} {flat : List TypeId} {member : TypeId}
    (absorbing : Absorbing member) : addMember table flat member = .error member := by
  rcases absorbing with rfl | rfl | rfl <;> rfl

theorem addMember_adds (table : TypeTable) {flat : List TypeId} (buffer : Buffer flat)
    {member : TypeId} (plain : ¬Absorbing member) :
    Adds flat (arms table member) (addMember table flat member) := by
  unfold Absorbing at plain
  rw [not_or, not_or] at plain
  unfold addMember arms
  rw [if_neg plain.1, if_neg plain.2.1, if_neg plain.2.2]
  by_cases nothing : member = .never
  · rw [if_pos nothing, if_pos (.inr nothing)]
    exact ⟨buffer, fun arm => by simp⟩
  · have other : ¬(Absorbing member ∨ member = .never) := by
      unfold Absorbing
      tauto
    rw [if_neg nothing, if_neg other]
    exact addArms_adds buffer _

def Flattens (table : TypeTable) (flat members : List TypeId) :
    Except TypeId (List TypeId) → Prop
  | .error answer => answer ∈ members ∧ Absorbing answer ∨
      answer = .dynamic ∧ 16 < (flat ++ armsOf table members).toFinset.card
  | .ok grown => (∀ member ∈ members, ¬Absorbing member) ∧ Buffer grown ∧
      ∀ arm, arm ∈ grown ↔ arm ∈ flat ∨ arm ∈ armsOf table members

theorem addMembers_flattens (table : TypeTable) {flat : List TypeId} (buffer : Buffer flat)
    (members : List TypeId) :
    Flattens table flat members (members.foldlM (addMember table) flat) := by
  induction members generalizing flat with
  | nil => exact ⟨nofun, buffer, fun arm => by simp [armsOf]⟩
  | cons member members ih =>
      have split : armsOf table (member :: members) =
          arms table member ++ armsOf table members := List.flatMap_cons
      rw [List.foldlM_cons]
      by_cases absorbing : Absorbing member
      · rw [addMember_absorbing absorbing]
        exact .inl ⟨List.mem_cons_self, absorbing⟩
      · have first := addMember_adds table buffer absorbing
        cases added : addMember table flat member with
        | error answer =>
            rw [added] at first
            have more := @Adds.more _ _ (armsOf table members) _ first
            rw [← split] at more
            exact .inr more
        | ok middle =>
            rw [added] at first
            have rest := ih first.1
            change Flattens table flat (member :: members)
              (members.foldlM (addMember table) middle)
            cases result : members.foldlM (addMember table) middle with
            | error answer =>
                rw [result] at rest
                rcases rest with ⟨there, absorbs⟩ | many
                · exact .inl ⟨List.mem_cons_of_mem member there, absorbs⟩
                · have more := @Adds.append _ _ _ _ (.error answer) first.2 many
                  rw [← split] at more
                  exact .inr more
            | ok grown =>
                rw [result] at rest
                obtain ⟨plain, full, same⟩ := rest
                have more := @Adds.append _ _ _ _ (.ok grown) first.2 ⟨full, same⟩
                rw [← split] at more
                refine ⟨fun other there => ?_, more⟩
                rcases List.mem_cons.mp there with rfl | there
                · exact absorbing
                · exact plain other there

theorem flatten_flattens (table : TypeTable) (members : List TypeId) :
    Flattens table [] members (flatten table members) :=
  addMembers_flattens table ⟨List.Pairwise.nil, Nat.zero_le 16⟩ members

/-! ### Tables whose unions are in order -/

def Known (table : TypeTable) (type : TypeId) : Prop :=
  ∀ index, type = .composite index → index < table.composites.length

structure IsArm (table : TypeTable) (type : TypeId) : Prop where
  plain : ¬Absorbing type
  inhabited : type ≠ .never
  known : Known table type
  flat : ∀ slots, csTypeComposite table type ≠ some (CompositeType.union slots)

structure InOrder (table : TypeTable) (slots : List TypeId) : Prop where
  descending : Descending idOf slots.reverse
  several : 2 ≤ slots.length
  room : slots.length ≤ 16
  arm : ∀ type ∈ slots, IsArm table type

structure Unions (table : TypeTable) : Prop where
  inOrder : ∀ {index : Nat} {slots : List TypeId},
    table.composites[index]? = some (CompositeType.union slots) → InOrder table slots
  once : ∀ {first second : Nat} {slots : List TypeId},
    table.composites[first]? = some (CompositeType.union slots) →
    table.composites[second]? = some (CompositeType.union slots) → first = second

theorem IsArm.arms {table : TypeTable} {type : TypeId} (arm : IsArm table type) :
    Typing.arms table type = [type] := by
  unfold Typing.arms unionArms
  rw [if_neg (fun other => other.elim arm.plain arm.inhabited)]
  cases found : csTypeComposite table type with
  | none => rfl
  | some composite =>
      cases composite with
      | union slots => exact absurd found (arm.flat slots)
      | _ => rfl

theorem type_cases {table : TypeTable} (type : TypeId) (known : Known table type) :
    Absorbing type ∨ type = .never ∨
      (∃ index slots, type = .composite index ∧
        table.composites[index]? = some (CompositeType.union slots) ∧ arms table type = slots) ∨
      IsArm table type := by
  by_cases absorbing : Absorbing type
  · exact .inl absorbing
  · by_cases nothing : type = .never
    · exact .inr (.inl nothing)
    · by_cases isUnion : ∃ slots, csTypeComposite table type = some (CompositeType.union slots)
      · obtain ⟨slots, found⟩ := isUnion
        cases type with
        | composite index =>
            refine .inr (.inr (.inl ⟨index, slots, rfl, found, ?_⟩))
            unfold arms unionArms
            rw [if_neg (fun other => other.elim absorbing nothing), found]
        | _ => cases found
      · exact .inr (.inr (.inr ⟨absorbing, nothing, known,
          fun slots found => isUnion ⟨slots, found⟩⟩))

theorem arms_arm {table : TypeTable} (unions : Unions table) {type : TypeId}
    (known : Known table type) : ∀ arm ∈ arms table type, IsArm table arm := by
  intro arm member
  rcases type_cases type known with absorbing | rfl | ⟨index, slots, _, found, same⟩ | own
  · rw [arms, if_pos (.inl absorbing)] at member
    cases member
  · cases member
  · rw [same] at member
    exact (unions.inOrder found).arm arm member
  · rw [own.arms, List.mem_singleton] at member
    rw [member]
    exact own

theorem descending_ext {left right : List TypeId} (leftOrder : Descending idOf left)
    (rightOrder : Descending idOf right) (same : ∀ type, type ∈ left ↔ type ∈ right) :
    left = right := by
  have distinct {items : List TypeId} (order : Descending idOf items) : items.Nodup :=
    order.imp (fun {a b} less equal => by
      rw [equal] at less
      exact absurd less (Nat.lt_irrefl _))
  have perm := (List.perm_ext_iff_of_nodup (distinct leftOrder) (distinct rightOrder)).mpr same
  exact perm.eq_of_pairwise (fun a b _ _ first second => absurd first (Nat.lt_asymm second))
    leftOrder rightOrder

theorem arms_inj {table : TypeTable} (unions : Unions table) {first second : TypeId}
    (firstKnown : Known table first) (secondKnown : Known table second)
    (firstPlain : ¬Absorbing first) (secondPlain : ¬Absorbing second)
    (same : ∀ arm, arm ∈ arms table first ↔ arm ∈ arms table second) : first = second := by
  have several {index : Nat} {slots : List TypeId}
      (found : table.composites[index]? = some (CompositeType.union slots)) (only : TypeId)
      (all : ∀ arm ∈ slots, arm = only) : False := by
    have order := unions.inOrder found
    have distinct : slots.Nodup := by
      rw [← List.nodup_reverse]
      exact order.descending.imp (fun {a b} less equal => by
        rw [equal] at less
        exact absurd less (Nat.lt_irrefl _))
    match slots, order.several, all, distinct with
    | a :: b :: rest, _, all, distinct =>
        have firstOnly := all a List.mem_cons_self
        have secondOnly := all b (List.mem_cons_of_mem a List.mem_cons_self)
        rw [firstOnly, secondOnly] at distinct
        exact (List.nodup_cons.mp distinct).1 List.mem_cons_self
  have ne_nil {index : Nat} {slots : List TypeId}
      (found : table.composites[index]? = some (CompositeType.union slots)) : ∃ arm, arm ∈ slots :=
    List.exists_mem_of_length_pos (by
      have order := unions.inOrder found
      have two := order.several
      omega)
  rcases type_cases first firstKnown with absorbing | rfl | ⟨index, slots, rfl, found, firstArms⟩ |
    firstOwn
  · exact absurd absorbing firstPlain
  · rcases type_cases second secondKnown with absorbing | rfl | ⟨other, more, _, there, otherArms⟩ |
      secondOwn
    · exact absurd absorbing secondPlain
    · rfl
    · obtain ⟨arm, member⟩ := ne_nil there
      rw [otherArms] at same
      cases (same arm).mpr member
    · rw [secondOwn.arms] at same
      cases (same second).mpr (List.mem_singleton_self second)
  · rcases type_cases second secondKnown with
      absorbing | rfl | ⟨other, more, rfl, there, otherArms⟩ | secondOwn
    · exact absurd absorbing secondPlain
    · obtain ⟨arm, member⟩ := ne_nil found
      rw [firstArms] at same
      cases (same arm).mp member
    · rw [firstArms, otherArms] at same
      have equal := descending_ext (unions.inOrder found).descending
        (unions.inOrder there).descending (fun type => by
          rw [List.mem_reverse, List.mem_reverse]
          exact same type)
      rw [List.reverse_inj] at equal
      subst equal
      rw [unions.once found there]
    · rw [firstArms, secondOwn.arms] at same
      exact absurd (fun arm member => List.mem_singleton.mp ((same arm).mp member))
        (several found second)
  · rcases type_cases second secondKnown with absorbing | rfl | ⟨other, more, _, there, otherArms⟩ |
      secondOwn
    · exact absurd absorbing secondPlain
    · rw [firstOwn.arms] at same
      cases (same first).mp (List.mem_singleton_self first)
    · rw [firstOwn.arms, otherArms] at same
      exact absurd (fun arm member => List.mem_singleton.mp ((same arm).mpr member))
        (several there first)
    · rw [firstOwn.arms, secondOwn.arms] at same
      exact List.mem_singleton.mp ((same first).mp (List.mem_singleton_self first))

/-! ### What a union does to the table -/

inductive Outcome (pools : TypePools) (members : List TypeId) : TypeId × TypePools → Prop
  | ended {answer : TypeId} (flat : flatten pools.toTypeTable members = .error answer) :
      Outcome pools members (answer, pools)
  | nothing (flat : flatten pools.toTypeTable members = .ok []) :
      Outcome pools members (.never, pools)
  | one {arm : TypeId} (flat : flatten pools.toTypeTable members = .ok [arm]) :
      Outcome pools members (arm, pools)
  | there {slots : List TypeId} {index : Nat}
      (flat : flatten pools.toTypeTable members = .ok slots.reverse)
      (found : pools.composites[index]? = some (CompositeType.union slots)) :
      Outcome pools members (.composite index, pools)
  | overflow {new : TypePools} (same : new.composites = pools.composites)
      (full : new.full = true) : Outcome pools members (.dynamic, new)
  | added {slots : List TypeId} {new : TypePools}
      (flat : flatten pools.toTypeTable members = .ok slots.reverse) (several : 2 ≤ slots.length)
      (fresh : ∀ index : Nat, pools.composites[index]? ≠ some (CompositeType.union slots))
      (more : new.composites = pools.composites ++ [CompositeType.union slots])
      (full : new.full = pools.full) :
      Outcome pools members (.composite pools.composites.length, new)

theorem isUnionOf_iff {slots : List TypeId} {composite : CompositeType} :
    isUnionOf slots composite = true ↔ composite = CompositeType.union slots :=
  decide_eq_true_iff

theorem intern_outcome {pools : TypePools} {members flat : List TypeId}
    (result : flatten pools.toTypeTable members = .ok flat) (several : 2 ≤ flat.length) :
    Outcome pools members
      (match pools.composites.findIdx? (isUnionOf flat.reverse) with
        | some index => (.composite index, pools)
        | none =>
            match csTypeTakeSlots pools flat.length with
            | none => (.dynamic, { pools with full := true })
            | some pools =>
                let (id, pools) := csTypeNewComposite pools (.union flat.reverse)
                (id.getD .dynamic, pools)) := by
  have flatten_eq : flatten pools.toTypeTable members = .ok flat.reverse.reverse := by
    rw [List.reverse_reverse]
    exact result
  cases found : pools.composites.findIdx? (isUnionOf flat.reverse) with
  | some index =>
      obtain ⟨bound, holds, _⟩ := List.findIdx?_eq_some_iff_getElem.mp found
      apply Outcome.there flatten_eq
      rw [List.getElem?_eq_getElem bound, isUnionOf_iff.mp holds]
  | none =>
      have fresh : ∀ index : Nat,
          pools.composites[index]? ≠ some (CompositeType.union flat.reverse) := by
        intro index there
        have none := List.findIdx?_eq_none_iff.mp found _ (List.mem_of_getElem? there)
        rw [isUnionOf_iff.mpr rfl] at none
        cases none
      unfold csTypeTakeSlots
      by_cases slotsOver : 768 < pools.slotCount + flat.length
      · rw [if_pos slotsOver]
        exact .overflow rfl rfl
      · rw [if_neg slotsOver]
        unfold csTypeNewComposite
        by_cases typesOver : 256 ≤ pools.composites.length
        · simp only [if_pos typesOver]
          exact .overflow rfl rfl
        · simp only [if_neg typesOver]
          exact .added flatten_eq (by rw [List.length_reverse]; exact several) fresh rfl rfl

theorem csTypeUnionOf_outcome (pools : TypePools) {members : List TypeId} (given : members ≠ []) :
    Outcome pools members (csTypeUnionOf pools members) := by
  unfold csTypeUnionOf
  rw [if_neg given]
  cases result : flatten pools.toTypeTable members with
  | error answer => exact .ended result
  | ok flat =>
      match flat, result with
      | [], result => exact .nothing result
      | [arm], result => exact .one result
      | first :: second :: rest, result =>
          exact intern_outcome result (by simp)

structure Grows (old new : TypePools) : Prop where
  longer : old.composites.length ≤ new.composites.length
  union : ∀ {index : Nat} (slots : List TypeId), index < old.composites.length →
    (new.composites[index]? = some (CompositeType.union slots) ↔
      old.composites[index]? = some (CompositeType.union slots))
  full : old.full = true → new.full = true

theorem Grows.refl (pools : TypePools) : Grows pools pools :=
  ⟨Nat.le_refl _, fun _ _ => Iff.rfl, id⟩

theorem Grows.trans {old middle new : TypePools} (first : Grows old middle)
    (second : Grows middle new) : Grows old new where
  longer := Nat.le_trans first.longer second.longer
  union slots inside :=
    (second.union slots (Nat.lt_of_lt_of_le inside first.longer)).trans (first.union slots inside)
  full := second.full ∘ first.full

theorem Outcome.grows {pools : TypePools} {members : List TypeId} {result : TypeId × TypePools}
    (outcome : Outcome pools members result) : Grows pools result.2 := by
  cases outcome with
  | ended | nothing | one | there => exact Grows.refl pools
  | overflow same full =>
      exact ⟨by rw [same], fun slots _ => by rw [same], fun _ => full⟩
  | added flat several fresh more full =>
      refine ⟨?_, fun slots inside => ?_, fun before => by rw [full]; exact before⟩
      · rw [more, List.length_append]
        exact Nat.le_add_right _ _
      · rw [more, List.getElem?_append_left inside]

theorem Grows.known {old new : TypePools} (grows : Grows old new) {type : TypeId}
    (known : Known old.toTypeTable type) : Known new.toTypeTable type :=
  fun index same => Nat.lt_of_lt_of_le (known index same) grows.longer

theorem Grows.composite {old new : TypePools} (grows : Grows old new) {type : TypeId}
    (known : Known old.toTypeTable type) (slots : List TypeId) :
    csTypeComposite new.toTypeTable type = some (CompositeType.union slots) ↔
      csTypeComposite old.toTypeTable type = some (CompositeType.union slots) := by
  cases type with
  | composite index => exact grows.union slots (known index rfl)
  | _ => exact Iff.rfl

theorem unionArms_eq {table : TypeTable} {type : TypeId} {slots : List TypeId}
    (found : csTypeComposite table type = some (CompositeType.union slots)) :
    unionArms table type = slots := by
  unfold unionArms
  rw [found]

theorem unionArms_self {table : TypeTable} {type : TypeId}
    (other : ∀ slots, csTypeComposite table type ≠ some (CompositeType.union slots)) :
    unionArms table type = [type] := by
  unfold unionArms
  split
  · next slots found => exact absurd found (other slots)
  · rfl

theorem Grows.arms {old new : TypePools} (grows : Grows old new) {type : TypeId}
    (known : Known old.toTypeTable type) :
    Typing.arms new.toTypeTable type = Typing.arms old.toTypeTable type := by
  have same : unionArms new.toTypeTable type = unionArms old.toTypeTable type := by
    by_cases isUnion : ∃ slots, csTypeComposite old.toTypeTable type = some (.union slots)
    · obtain ⟨slots, found⟩ := isUnion
      rw [unionArms_eq found, unionArms_eq ((grows.composite known slots).mpr found)]
    · rw [unionArms_self (fun slots found => isUnion ⟨slots, found⟩),
        unionArms_self (fun slots found => isUnion ⟨slots, (grows.composite known slots).mp found⟩)]
  unfold Typing.arms
  rw [same]

theorem Grows.armsOf {old new : TypePools} (grows : Grows old new) {members : List TypeId}
    (known : ∀ member ∈ members, Known old.toTypeTable member) :
    Typing.armsOf new.toTypeTable members = Typing.armsOf old.toTypeTable members :=
  List.flatMap_congr (fun member there => grows.arms (known member there))

theorem Grows.isArm {old new : TypePools} (grows : Grows old new) {type : TypeId}
    (arm : IsArm old.toTypeTable type) : IsArm new.toTypeTable type where
  plain := arm.plain
  inhabited := arm.inhabited
  known := grows.known arm.known
  flat slots found := arm.flat slots ((grows.composite arm.known slots).mp found)

theorem Grows.inOrder {old new : TypePools} (grows : Grows old new) {slots : List TypeId}
    (inOrder : InOrder old.toTypeTable slots) : InOrder new.toTypeTable slots where
  descending := inOrder.descending
  several := inOrder.several
  room := inOrder.room
  arm type member := grows.isArm (inOrder.arm type member)

theorem Grows.unions {old new : TypePools} (grows : Grows old new)
    (unions : Unions old.toTypeTable)
    (none : ∀ {index : Nat} {slots : List TypeId},
      new.composites[index]? = some (CompositeType.union slots) →
      index < old.composites.length) : Unions new.toTypeTable where
  inOrder found := grows.inOrder (unions.inOrder ((grows.union _ (none found)).mp found))
  once left right :=
    unions.once ((grows.union _ (none left)).mp left) ((grows.union _ (none right)).mp right)

theorem armsOf_arm {table : TypeTable} (unions : Unions table) {members : List TypeId}
    (known : ∀ member ∈ members, Known table member) :
    ∀ arm ∈ armsOf table members, IsArm table arm := by
  intro arm there
  obtain ⟨member, given, own⟩ := List.mem_flatMap.mp there
  exact arms_arm unions (known member given) arm own

theorem getElem?_concat {items : List CompositeType} {last : CompositeType} {index : Nat}
    {composite : CompositeType} (found : (items ++ [last])[index]? = some composite) :
    items[index]? = some composite ∨ index = items.length ∧ composite = last := by
  by_cases inside : index < items.length
  · rw [List.getElem?_append_left inside] at found
    exact .inl found
  · rw [List.getElem?_append_right (Nat.le_of_not_lt inside)] at found
    obtain ⟨bound, same⟩ := List.getElem?_eq_some_iff.mp found
    have bound : index - items.length < 1 := bound
    rw [List.getElem_singleton] at same
    exact .inr ⟨by omega, same.symm⟩

theorem Outcome.unions {pools : TypePools} {members : List TypeId} {result : TypeId × TypePools}
    (outcome : Outcome pools members result) (unions : Unions pools.toTypeTable)
    (known : ∀ member ∈ members, Known pools.toTypeTable member) :
    Unions result.2.toTypeTable := by
  have grows := outcome.grows
  cases outcome with
  | ended | nothing | one | there => exact unions
  | overflow same full =>
      apply grows.unions unions
      intro index slots found
      rw [same] at found
      exact (List.getElem?_eq_some_iff.mp found).1
  | @added slots new flat several fresh more full =>
      have flattens := flatten_flattens pools.toTypeTable members
      rw [flat] at flattens
      obtain ⟨_, buffer, same⟩ := flattens
      have order : InOrder pools.toTypeTable slots := by
        refine ⟨buffer.descending, several, ?_, fun type there => ?_⟩
        · rw [← List.length_reverse]
          exact buffer.room
        · apply armsOf_arm unions known
          have member := (same type).mp (List.mem_reverse.mpr there)
          exact member.resolve_left List.not_mem_nil
      constructor
      · intro index more_ found
        rw [more] at found
        rcases getElem?_concat found with old | ⟨_, last⟩
        · exact grows.inOrder (unions.inOrder old)
        · cases last
          exact grows.inOrder order
      · intro first second others left right
        rw [more] at left right
        rcases getElem?_concat left with oldLeft | ⟨firstLast, isNew⟩
        · rcases getElem?_concat right with oldRight | ⟨_, isNew⟩
          · exact unions.once oldLeft oldRight
          · cases isNew
            exact absurd oldLeft (fresh first)
        · rcases getElem?_concat right with oldRight | ⟨secondLast, _⟩
          · cases isNew
            exact absurd oldRight (fresh second)
          · rw [firstLast, secondLast]

/-! ### What a type says of the members it was made of -/

theorem composite_plain (index : Nat) : ¬Absorbing (.composite index) := by
  rintro (same | same | same) <;> cases same

theorem arms_union {table : TypeTable} {index : Nat} {slots : List TypeId}
    (found : table.composites[index]? = some (CompositeType.union slots)) :
    arms table (.composite index) = slots := by
  have isUnion : csTypeComposite table (.composite index) = some (CompositeType.union slots) :=
    found
  unfold arms
  rw [if_neg, unionArms_eq isUnion]
  rintro (absorbing | same)
  · exact composite_plain index absorbing
  · cases same

inductive Denotes (table : TypeTable) (members : List TypeId) (type : TypeId) : Prop
  | absorbed (there : type ∈ members) (absorbs : Absorbing type)
  | crowded (same : type = .dynamic) (many : 16 < (armsOf table members).toFinset.card)
  | united (plain : ∀ member ∈ members, ¬Absorbing member) (own : ¬Absorbing type)
      (same : ∀ arm, arm ∈ arms table type ↔ arm ∈ armsOf table members)

theorem Outcome.denotes {pools : TypePools} {members : List TypeId}
    {result : TypeId × TypePools} (outcome : Outcome pools members result)
    (unions : Unions pools.toTypeTable)
    (known : ∀ member ∈ members, Known pools.toTypeTable member) :
    (result.2.full = false → Denotes result.2.toTypeTable members result.1) ∧
      Known result.2.toTypeTable result.1 := by
  have grows := outcome.grows
  have flattens := flatten_flattens pools.toTypeTable members
  have isArm := armsOf_arm unions known
  cases outcome with
  | ended flat =>
      rw [flat] at flattens
      rcases flattens with ⟨there, absorbs⟩ | ⟨same, many⟩
      · exact ⟨fun _ => .absorbed there absorbs, known _ there⟩
      · rw [same]
        exact ⟨fun _ => .crowded rfl many, nofun⟩
  | nothing flat =>
      rw [flat] at flattens
      obtain ⟨plain, _, same⟩ := flattens
      refine ⟨fun _ => .united plain (show ¬Absorbing .never by decide) (fun arm => ?_), nofun⟩
      rw [show arm ∈ armsOf pools.toTypeTable members ↔ arm ∈ [] from by
        rw [same arm]
        simp]
      exact Iff.rfl
  | @one arm flat =>
      rw [flat] at flattens
      obtain ⟨plain, _, same⟩ := flattens
      have own : IsArm pools.toTypeTable arm :=
        isArm arm (((same arm).mp (List.mem_singleton_self arm)).resolve_left List.not_mem_nil)
      refine ⟨fun _ => .united plain own.plain (fun other => ?_), own.known⟩
      rw [own.arms, same other, or_iff_right List.not_mem_nil]
  | @there slots index flat found =>
      rw [flat] at flattens
      obtain ⟨plain, _, same⟩ := flattens
      refine ⟨fun _ => .united plain (composite_plain index) (fun other => ?_), ?_⟩
      · rw [arms_union found, ← List.mem_reverse, same other, or_iff_right List.not_mem_nil]
      · rintro other ⟨⟩
        exact (List.getElem?_eq_some_iff.mp found).1
  | overflow same full =>
      refine ⟨fun notFull => ?_, nofun⟩
      rw [full] at notFull
      cases notFull
  | @added slots new flat several fresh more full =>
      rw [flat] at flattens
      obtain ⟨plain, _, same⟩ := flattens
      have found : new.composites[pools.composites.length]? =
          some (CompositeType.union slots) := by
        rw [more, List.getElem?_concat_length]
      refine ⟨fun _ => .united plain (composite_plain _) (fun other => ?_), ?_⟩
      · rw [arms_union found, ← List.mem_reverse, same other, or_iff_right List.not_mem_nil,
          grows.armsOf known]
      · rintro other ⟨⟩
        change _ < new.composites.length
        rw [more, List.length_append]
        exact Nat.lt_succ_self _

/-! ### Tables as they are built -/

inductive TableStep (old : TypePools) : TypePools → Prop
  | union {members : List TypeId}
      (known : ∀ member ∈ members, Known old.toTypeTable member) :
      TableStep old (csTypeUnionOf old members).2
  | other {new : TypePools} (grows : Grows old new)
      (none : ∀ {index : Nat} {slots : List TypeId},
        new.composites[index]? = some (CompositeType.union slots) →
        index < old.composites.length) : TableStep old new

def noTypes : TypePools :=
  { composites := [], slotCount := 0, full := false }

inductive Built : TypePools → Prop
  | start : Built noTypes
  | step {old new : TypePools} (built : Built old) (step : TableStep old new) : Built new

theorem csTypeUnionOf_nil (pools : TypePools) : csTypeUnionOf pools [] = (.dynamic, pools) := rfl

theorem TableStep.grows {old new : TypePools} (step : TableStep old new) : Grows old new := by
  cases step with
  | @union members known =>
      by_cases given : members = []
      · rw [given, csTypeUnionOf_nil]
        exact Grows.refl old
      · exact (csTypeUnionOf_outcome old given).grows
  | other grows none => exact grows

theorem TableStep.unions {old new : TypePools} (step : TableStep old new)
    (unions : Unions old.toTypeTable) : Unions new.toTypeTable := by
  cases step with
  | @union members known =>
      by_cases given : members = []
      · rw [given, csTypeUnionOf_nil]
        exact unions
      · exact (csTypeUnionOf_outcome old given).unions unions known
  | other grows none => exact grows.unions unions none

theorem Built.unions {pools : TypePools} (built : Built pools) : Unions pools.toTypeTable := by
  induction built with
  | start => exact ⟨nofun, nofun⟩
  | step built step ih => exact step.unions ih

inductive Unites : TypePools → List TypeId → TypeId → Prop
  | member {pools : TypePools} {type : TypeId} (built : Built pools)
      (known : Known pools.toTypeTable type) : Unites pools [type] type
  | later {old new : TypePools} {members : List TypeId} {type : TypeId}
      (before : Unites old members type) (step : TableStep old new) : Unites new members type
  | union {pools : TypePools} {parts : List (List TypeId × TypeId)} (given : parts ≠ [])
      (unite : ∀ part ∈ parts, Unites pools part.1 part.2) :
      Unites (csTypeUnionOf pools (parts.map Prod.snd)).2 (parts.flatMap Prod.fst)
        (csTypeUnionOf pools (parts.map Prod.snd)).1

/-- The members say what comes of them: what absorbs is one type, and no other than `dynamic`
where there are too many arms. -/
def Agreeable (table : TypeTable) (members : List TypeId) : Prop :=
  (∀ first ∈ members, ∀ second ∈ members, Absorbing first → Absorbing second → first = second) ∧
    ((∀ member ∈ members, Absorbing member → member = .dynamic) ∨
      (armsOf table members).toFinset.card ≤ 16)

instance (table : TypeTable) (members : List TypeId) : Decidable (Agreeable table members) :=
  inferInstanceAs (Decidable ((∀ first ∈ members, ∀ second ∈ members,
    Absorbing first → Absorbing second → first = second) ∧
    ((∀ member ∈ members, Absorbing member → member = .dynamic) ∨
      (armsOf table members).toFinset.card ≤ 16)))

/-- The same members, where `never` does not count. -/
def SameMembers (left right : List TypeId) : Prop :=
  ∀ type, type ≠ .never → (type ∈ left ↔ type ∈ right)

theorem mem_armsOf {table : TypeTable} {members : List TypeId} {arm : TypeId} :
    arm ∈ armsOf table members ↔ ∃ member ∈ members, arm ∈ arms table member :=
  List.mem_flatMap

theorem arms_absorbing {table : TypeTable} {type : TypeId} (absorbs : Absorbing type) :
    arms table type = [] := by
  unfold arms
  rw [if_pos (.inl absorbs)]

theorem crowded_more {table : TypeTable} {few many : List TypeId}
    (all : ∀ arm ∈ armsOf table few, arm ∈ armsOf table many)
    (crowded : 16 < (armsOf table few).toFinset.card) :
    16 < (armsOf table many).toFinset.card := by
  apply Nat.lt_of_lt_of_le crowded
  apply Finset.card_le_card
  intro arm there
  rw [List.mem_toFinset] at there ⊢
  exact all arm there

theorem Denotes.arms_of {table : TypeTable} {members : List TypeId} {type : TypeId}
    (denotes : Denotes table members type) :
    ∀ arm ∈ arms table type, arm ∈ armsOf table members := by
  intro arm there
  cases denotes with
  | absorbed _ absorbs =>
      rw [arms_absorbing absorbs] at there
      cases there
  | crowded same many =>
      rw [same] at there
      cases there
  | united plain own same => exact (same arm).mp there

theorem Denotes.union {table : TypeTable} {parts : List (List TypeId × TypeId)} {type : TypeId}
    (each : ∀ part ∈ parts, Denotes table part.1 part.2)
    (whole : Denotes table (parts.map Prod.snd) type) :
    Denotes table (parts.flatMap Prod.fst) type := by
  have sub {part : List TypeId × TypeId} (given : part ∈ parts) :
      ∀ arm ∈ armsOf table part.1, arm ∈ armsOf table (parts.flatMap Prod.fst) := by
    intro arm there
    obtain ⟨member, inside, own⟩ := mem_armsOf.mp there
    exact mem_armsOf.mpr ⟨member, List.mem_flatMap.mpr ⟨part, given, inside⟩, own⟩
  cases whole with
  | absorbed there absorbs =>
      obtain ⟨part, given, rfl⟩ := List.mem_map.mp there
      cases each part given with
      | absorbed inside _ => exact .absorbed (List.mem_flatMap.mpr ⟨part, given, inside⟩) absorbs
      | crowded same many => exact .crowded same (crowded_more (sub given) many)
      | united _ own _ => exact absurd absorbs own
  | crowded same many =>
      apply Denotes.crowded same
      refine crowded_more (fun arm there => ?_) many
      obtain ⟨_, inside, own⟩ := mem_armsOf.mp there
      obtain ⟨part, given, rfl⟩ := List.mem_map.mp inside
      exact sub given arm ((each part given).arms_of arm own)
  | united plain own same =>
      have united {part : List TypeId × TypeId} (given : part ∈ parts) :
          (∀ member ∈ part.1, ¬Absorbing member) ∧
            ∀ arm, arm ∈ arms table part.2 ↔ arm ∈ armsOf table part.1 := by
        have partPlain := plain part.2 (List.mem_map.mpr ⟨part, given, rfl⟩)
        cases each part given with
        | absorbed _ absorbs => exact absurd absorbs partPlain
        | crowded same _ => exact absurd (.inl same) partPlain
        | united members _ arms => exact ⟨members, arms⟩
      refine .united (fun member there => ?_) own (fun arm => ?_)
      · obtain ⟨part, given, inside⟩ := List.mem_flatMap.mp there
        exact (united given).1 member inside
      · rw [same arm, mem_armsOf]
        constructor
        · rintro ⟨_, inside, armIn⟩
          obtain ⟨part, given, rfl⟩ := List.mem_map.mp inside
          exact sub given arm (((united given).2 arm).mp armIn)
        · intro there
          obtain ⟨member, inside, armIn⟩ := mem_armsOf.mp there
          obtain ⟨part, given, memberIn⟩ := List.mem_flatMap.mp inside
          exact ⟨part.2, List.mem_map.mpr ⟨part, given, rfl⟩,
            ((united given).2 arm).mpr (mem_armsOf.mpr ⟨member, memberIn, armIn⟩)⟩

theorem Denotes.grows {old new : TypePools} (grows : Grows old new) {members : List TypeId}
    {type : TypeId} (known : ∀ member ∈ members, Known old.toTypeTable member)
    (knownType : Known old.toTypeTable type) (denotes : Denotes old.toTypeTable members type) :
    Denotes new.toTypeTable members type := by
  cases denotes with
  | absorbed there absorbs => exact .absorbed there absorbs
  | crowded same many =>
      apply Denotes.crowded same
      rw [grows.armsOf known]
      exact many
  | united plain own same =>
      apply Denotes.united plain own
      rw [grows.arms knownType, grows.armsOf known]
      exact same

theorem armsOf_sameMembers {table : TypeTable} {left right : List TypeId}
    (same : SameMembers left right) (arm : TypeId) :
    arm ∈ armsOf table left ↔ arm ∈ armsOf table right := by
  have counts {type : TypeId} (there : arm ∈ arms table type) : type ≠ .never := by
    rintro rfl
    cases there
  rw [mem_armsOf, mem_armsOf]
  constructor
  · rintro ⟨member, inside, there⟩
    exact ⟨member, (same member (counts there)).mp inside, there⟩
  · rintro ⟨member, inside, there⟩
    exact ⟨member, (same member (counts there)).mpr inside, there⟩

theorem Absorbing.ne_never {type : TypeId} (absorbs : Absorbing type) : type ≠ .never := by
  rintro rfl
  exact absurd absorbs (by decide)

theorem Denotes.sameMembers {table : TypeTable} {left right : List TypeId} {type : TypeId}
    (same : SameMembers left right) (denotes : Denotes table left type) :
    Denotes table right type := by
  cases denotes with
  | absorbed there absorbs => exact .absorbed ((same type absorbs.ne_never).mp there) absorbs
  | crowded isDynamic many =>
      exact .crowded isDynamic
        (crowded_more (fun arm there => (armsOf_sameMembers same arm).mp there) many)
  | united plain own arms =>
      refine .united (fun member there absorbs => ?_) own (fun arm => ?_)
      · exact plain member ((same member absorbs.ne_never).mpr there) absorbs
      · rw [arms, armsOf_sameMembers same]

theorem arms_card {table : TypeTable} (unions : Unions table) {type : TypeId}
    (known : Known table type) : (arms table type).toFinset.card ≤ 16 := by
  apply Nat.le_trans (List.toFinset_card_le _)
  rcases type_cases type known with absorbing | rfl | ⟨_, slots, _, found, same⟩ | own
  · rw [arms_absorbing absorbing]
    exact Nat.zero_le 16
  · exact Nat.zero_le 16
  · rw [same]
    exact (unions.inOrder found).room
  · rw [own.arms]
    exact Nat.le_of_ble_eq_true rfl

theorem Denotes.united_crowded {table : TypeTable} (unions : Unions table)
    {members : List TypeId} {type : TypeId} (known : Known table type)
    (same : ∀ arm, arm ∈ arms table type ↔ arm ∈ armsOf table members)
    (many : 16 < (armsOf table members).toFinset.card) : False := by
  have few := arms_card unions known
  have equal : (arms table type).toFinset = (armsOf table members).toFinset := by
    ext arm
    rw [List.mem_toFinset, List.mem_toFinset]
    exact same arm
  rw [equal] at few
  omega

theorem Agreeable.dynamic {table : TypeTable} {members : List TypeId}
    (agreeable : Agreeable table members) (many : 16 < (armsOf table members).toFinset.card)
    {member : TypeId} (there : member ∈ members) (absorbs : Absorbing member) :
    member = .dynamic := by
  rcases agreeable.2 with only | few
  · exact only member there absorbs
  · omega

theorem Denotes.unique {table : TypeTable} (unions : Unions table) {members : List TypeId}
    (agreeable : Agreeable table members) {first second : TypeId}
    (firstKnown : Known table first) (secondKnown : Known table second)
    (left : Denotes table members first) (right : Denotes table members second) :
    first = second := by
  cases left with
  | absorbed there absorbs =>
      cases right with
      | absorbed thereToo absorbsToo => exact agreeable.1 _ there _ thereToo absorbs absorbsToo
      | crowded same many => rw [same, agreeable.dynamic many there absorbs]
      | united plain _ _ => exact absurd absorbs (plain first there)
  | crowded same many =>
      cases right with
      | absorbed there absorbs => rw [same, agreeable.dynamic many there absorbs]
      | crowded sameToo _ => rw [same, sameToo]
      | united _ _ arms => exact (united_crowded unions secondKnown arms many).elim
  | united plain own arms =>
      cases right with
      | absorbed there absorbs => exact absurd absorbs (plain second there)
      | crowded _ many => exact (united_crowded unions firstKnown arms many).elim
      | united _ ownToo armsToo =>
          exact arms_inj unions firstKnown secondKnown own ownToo
            (fun arm => (arms arm).trans (armsToo arm).symm)

structure Stands (pools : TypePools) (members : List TypeId) (type : TypeId) : Prop where
  built : Built pools
  known : ∀ member ∈ members, Known pools.toTypeTable member
  knownType : Known pools.toTypeTable type
  denotes : pools.full = false → Denotes pools.toTypeTable members type

theorem Stands.member {pools : TypePools} {type : TypeId} (built : Built pools)
    (known : Known pools.toTypeTable type) : Stands pools [type] type where
  built := built
  known member there := by
    rw [List.mem_singleton.mp there]
    exact known
  knownType := known
  denotes _ := by
    by_cases absorbs : Absorbing type
    · exact .absorbed (List.mem_singleton_self type) absorbs
    · refine .united (fun member there => ?_) absorbs (fun arm => ?_)
      · rw [List.mem_singleton.mp there]
        exact absorbs
      · rw [armsOf, List.flatMap_singleton]

theorem notFull_before {old new : TypePools} (grows : Grows old new) (open_ : new.full = false) :
    old.full = false := by
  cases before : old.full with
  | false => rfl
  | true =>
      rw [grows.full before] at open_
      cases open_

theorem Stands.step {old new : TypePools} {members : List TypeId} {type : TypeId}
    (stands : Stands old members type) (step : TableStep old new) : Stands new members type where
  built := stands.built.step step
  known member there := step.grows.known (stands.known member there)
  knownType := step.grows.known stands.knownType
  denotes open_ :=
    (stands.denotes (notFull_before step.grows open_)).grows step.grows stands.known
      stands.knownType

theorem Stands.union {pools : TypePools} {parts : List (List TypeId × TypeId)}
    (given : parts ≠ []) (each : ∀ part ∈ parts, Stands pools part.1 part.2) :
    Stands (csTypeUnionOf pools (parts.map Prod.snd)).2 (parts.flatMap Prod.fst)
      (csTypeUnionOf pools (parts.map Prod.snd)).1 := by
  have built : Built pools := by
    match parts, given with
    | part :: _, _ => exact (each part List.mem_cons_self).built
  have knownTypes : ∀ type ∈ parts.map Prod.snd, Known pools.toTypeTable type := by
    intro type there
    obtain ⟨part, inside, rfl⟩ := List.mem_map.mp there
    exact (each part inside).knownType
  have step : TableStep pools (csTypeUnionOf pools (parts.map Prod.snd)).2 := .union knownTypes
  have some : parts.map Prod.snd ≠ [] := mt List.map_eq_nil_iff.mp given
  have outcome := csTypeUnionOf_outcome pools some
  obtain ⟨denotes, known⟩ := outcome.denotes built.unions knownTypes
  constructor
  · exact built.step step
  · intro member there
    obtain ⟨part, inside, own⟩ := List.mem_flatMap.mp there
    exact step.grows.known ((each part inside).known member own)
  · exact known
  · intro open_
    refine Denotes.union (fun part inside => ?_) (denotes open_)
    exact ((each part inside).step step).denotes open_

theorem Unites.stands {pools : TypePools} {members : List TypeId} {type : TypeId}
    (unites : Unites pools members type) : Stands pools members type := by
  induction unites with
  | member built known => exact .member built known
  | later before step ih => exact ih.step step
  | union given unite ih => exact .union given ih

/-! ### The union does not depend on how its members are given -/

def Canonical (pools : TypePools) (members : List TypeId) : Prop :=
  ∀ {later : TypePools} {left right : List TypeId} {first second : TypeId},
    Relation.ReflTransGen TableStep pools later → later.full = false →
    SameMembers left members → SameMembers right members →
    Unites later left first → Unites later right second → first = second

theorem grows_of_steps {pools later : TypePools}
    (steps : Relation.ReflTransGen TableStep pools later) : Grows pools later := by
  induction steps with
  | refl => exact Grows.refl pools
  | tail _ step ih => exact ih.trans step.grows

theorem Agreeable.canonical {pools : TypePools} {members : List TypeId}
    (known : ∀ member ∈ members, Known pools.toTypeTable member)
    (agreeable : Agreeable pools.toTypeTable members) : Canonical pools members := by
  intro later left right first second steps open_ leftSame rightSame leftUnites rightUnites
  have leftStands := leftUnites.stands
  have rightStands := rightUnites.stands
  have kept : Agreeable later.toTypeTable members := by
    unfold Agreeable
    rw [(grows_of_steps steps).armsOf known]
    exact agreeable
  exact ((leftStands.denotes open_).sameMembers leftSame).unique leftStands.built.unions kept
    leftStands.knownType rightStands.knownType ((rightStands.denotes open_).sameMembers rightSame)

theorem unites_call {pools : TypePools} (built : Built pools) {members : List TypeId}
    (given : members ≠ []) (known : ∀ member ∈ members, Known pools.toTypeTable member) :
    Unites (csTypeUnionOf pools members).2 members (csTypeUnionOf pools members).1 := by
  have unites := @Unites.union pools (members.map (fun member => ([member], member)))
    (mt List.map_eq_nil_iff.mp given) (by
      intro part there
      obtain ⟨member, inside, rfl⟩ := List.mem_map.mp there
      exact .member built (known member inside))
  have types : (members.map (fun member => ([member], member))).map Prod.snd = members := by
    rw [List.map_map]
    exact List.map_id members
  have leaves : (members.map (fun member => ([member], member))).flatMap Prod.fst = members := by
    rw [List.flatMap_map]
    exact List.flatMap_singleton' members
  rw [types, leaves] at unites
  exact unites

theorem csTypeUnionOf_error {pools : TypePools} {members : List TypeId} {answer : TypeId}
    (flat : flatten pools.toTypeTable members = .error answer) :
    csTypeUnionOf pools members = (answer, pools) := by
  have given : members ≠ [] := by
    rintro rfl
    cases flat
  unfold csTypeUnionOf
  rw [if_neg given, flat]

theorem flatten_absorbing {table : TypeTable} {member : TypeId} (absorbs : Absorbing member)
    (members : List TypeId) : flatten table (member :: members) = .error member := by
  unfold flatten
  rw [List.foldlM_cons, addMember_absorbing absorbs]
  rfl

theorem flatten_crowded {table : TypeTable} {plain : List TypeId} (members : List TypeId)
    (none : ∀ member ∈ plain, ¬Absorbing member)
    (many : 16 < (armsOf table plain).toFinset.card) :
    flatten table (plain ++ members) = .error .dynamic := by
  have flattens := flatten_flattens table plain
  have append : flatten table (plain ++ members) =
      flatten table plain >>= members.foldlM (addMember table) := List.foldlM_append
  rw [append]
  cases result : flatten table plain with
  | error answer =>
      rw [result] at flattens
      rcases flattens with ⟨there, absorbs⟩ | ⟨same, _⟩
      · exact absurd absorbs (none answer there)
      · rw [same]
        rfl
  | ok flat =>
      rw [result] at flattens
      obtain ⟨_, buffer, same⟩ := flattens
      have fits : (armsOf table plain).toFinset ⊆ flat.toFinset := by
        intro arm there
        rw [List.mem_toFinset] at there ⊢
        exact (same arm).mpr (.inr there)
      have card := Finset.card_le_card fits
      have length := List.toFinset_card_le flat
      have room := buffer.room
      omega

theorem Canonical.early {pools : TypePools} (built : Built pools) (open_ : pools.full = false)
    {members left right : List TypeId} (canonical : Canonical pools members)
    (known : ∀ member ∈ members, Known pools.toTypeTable member)
    (leftSame : ∀ type, type ∈ left ↔ type ∈ members)
    (rightSame : ∀ type, type ∈ right ↔ type ∈ members) {first second : TypeId}
    (leftEnds : flatten pools.toTypeTable left = .error first)
    (rightEnds : flatten pools.toTypeTable right = .error second) : first = second := by
  have unites {some : List TypeId} (same : ∀ type, type ∈ some ↔ type ∈ members)
      {answer : TypeId} (ends : flatten pools.toTypeTable some = .error answer) :
      Unites pools some answer := by
    have given : some ≠ [] := by
      rintro rfl
      cases ends
    have call := unites_call built given (fun type there => known type ((same type).mp there))
    rw [csTypeUnionOf_error ends] at call
    exact call
  exact canonical .refl open_ (fun type _ => leftSame type) (fun type _ => rightSame type)
    (unites leftSame leftEnds) (unites rightSame rightEnds)

theorem mem_cons_of_mem {member : TypeId} {members : List TypeId} (there : member ∈ members)
    (type : TypeId) : type ∈ member :: members ↔ type ∈ members := by
  rw [List.mem_cons]
  exact or_iff_right_of_imp (fun same => same ▸ there)

theorem Canonical.agreeable {pools : TypePools} (built : Built pools)
    (open_ : pools.full = false) {members : List TypeId} (canonical : Canonical pools members)
    (known : ∀ member ∈ members, Known pools.toTypeTable member) :
    Agreeable pools.toTypeTable members := by
  constructor
  · intro first firstIn second secondIn firstAbsorbs secondAbsorbs
    exact canonical.early built open_ known (mem_cons_of_mem firstIn) (mem_cons_of_mem secondIn)
      (flatten_absorbing firstAbsorbs members) (flatten_absorbing secondAbsorbs members)
  · by_cases few : (armsOf pools.toTypeTable members).toFinset.card ≤ 16
    · exact .inr few
    · apply Or.inl
      intro member there absorbs
      have plain : ∀ type ∈ members.filter (fun type => ¬Absorbing type), ¬Absorbing type := by
        intro type inside
        exact of_decide_eq_true (List.mem_filter.mp inside).2
      have many : 16 < (armsOf pools.toTypeTable
          (members.filter (fun type => ¬Absorbing type))).toFinset.card := by
        refine crowded_more (fun arm armIn => ?_) (Nat.lt_of_not_le few)
        obtain ⟨type, inside, own⟩ := mem_armsOf.mp armIn
        refine mem_armsOf.mpr ⟨type, List.mem_filter.mpr ⟨inside, decide_eq_true ?_⟩, own⟩
        intro absorbing
        rw [arms_absorbing absorbing] at own
        cases own
      apply canonical.early built open_ known (mem_cons_of_mem there) _
        (flatten_absorbing absorbs members) (flatten_crowded members plain many)
      intro type
      rw [List.mem_append, List.mem_filter]
      exact or_iff_right_of_imp And.left

/-- In a table that is not full, what comes of joining members depends on which they are, not
on their order, repetition or grouping, nor on when, exactly where what absorbs is one type,
and is `dynamic` where there are more than sixteen arms. -/
theorem csTypeUnionOf_canonical_iff {pools : TypePools} (built : Built pools)
    (open_ : pools.full = false) {members : List TypeId}
    (known : ∀ member ∈ members, Known pools.toTypeTable member) :
    Canonical pools members ↔ Agreeable pools.toTypeTable members :=
  ⟨fun canonical => canonical.agreeable built open_ known, fun agreeable =>
    agreeable.canonical known⟩

theorem csTypeUnionOf_canonical_primitives :
    Canonical noTypes [.number, .never, .string] :=
  (csTypeUnionOf_canonical_iff .start rfl (by
    rintro _ (_ | ⟨_, _ | ⟨_, _ | ⟨_, ⟨⟩⟩⟩⟩) index ⟨⟩)).mpr (by decide)

/-- Of `unknown` and `dynamic`, the one that is written first wins. -/
theorem csTypeUnionOf_order :
    (∀ pools : TypePools,
      csTypeUnionOf pools [.unknown, .dynamic] = (.unknown, pools) ∧
        csTypeUnionOf pools [.dynamic, .unknown] = (.dynamic, pools)) ∧
      ¬Canonical noTypes [.unknown, .dynamic] := by
  refine ⟨fun pools => ⟨rfl, rfl⟩, fun canonical => ?_⟩
  have agreeable := canonical.agreeable .start rfl (by
    rintro _ (_ | ⟨_, _ | ⟨_, ⟨⟩⟩⟩) index ⟨⟩)
  exact absurd agreeable (by decide)

end CScript.Typing
