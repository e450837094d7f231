/-
Insertion-ordered maps as association lists.

Keys are compared by a Boolean equivalence, so that a map whose keys are equal
in a coarser sense than identity is covered as well.  An overwrite keeps the
stored key and its place, a new key goes to the end, and a deleted key leaves
the order of the rest alone.
-/

import Mathlib.Logic.Function.Basic
import Mathlib.Tactic.Common

namespace Foundation.OrderedMap

variable {Key Val : Type}

def lookup (same : Key → Key → Bool) : List (Key × Val) → Key → Option Val
  | [], _ => none
  | (held, value) :: rest, key => if same held key then some value else lookup same rest key

def put (same : Key → Key → Bool) : List (Key × Val) → Key → Val → List (Key × Val)
  | [], key, value => [(key, value)]
  | (held, old) :: rest, key, value =>
      if same held key then (held, value) :: rest
      else (held, old) :: put same rest key value

def erase (same : Key → Key → Bool) : List (Key × Val) → Key → List (Key × Val)
  | [], _ => []
  | (held, value) :: rest, key =>
      if same held key then rest else (held, value) :: erase same rest key

def Distinct (same : Key → Key → Bool) (items : List (Key × Val)) : Prop :=
  items.Pairwise (fun left right => same left.1 right.1 = false)

/-! ### Where a key is -/

theorem lookup_eq_none_iff {same : Key → Key → Bool} {items : List (Key × Val)} {key : Key} :
    lookup same items key = none ↔ ∀ item ∈ items, same item.1 key = false := by
  induction items with
  | nil => simp [lookup]
  | cons head rest ih =>
      obtain ⟨held, value⟩ := head
      unfold lookup
      cases matched : same held key with
      | true =>
          simp only [if_true, reduceCtorEq, false_iff]
          intro all
          have wrong := all (held, value) List.mem_cons_self
          rw [matched] at wrong
          cases wrong
      | false =>
          simp only [Bool.false_eq_true, if_false, List.forall_mem_cons, matched, true_and]
          exact ih

theorem absent_cons {same : Key → Key → Bool} {held key : Key} {old : Val}
    {rest : List (Key × Val)} (absent : lookup same ((held, old) :: rest) key = none) :
    same held key = false ∧ lookup same rest key = none := by
  have all := lookup_eq_none_iff.mp absent
  exact ⟨all _ List.mem_cons_self,
    lookup_eq_none_iff.mpr fun item member => all item (List.mem_cons_of_mem _ member)⟩

theorem put_of_absent {same : Key → Key → Bool} {items : List (Key × Val)} {key : Key}
    (absent : lookup same items key = none) (value : Val) :
    put same items key value = items ++ [(key, value)] := by
  induction items with
  | nil => rfl
  | cons head rest ih =>
      obtain ⟨held, old⟩ := head
      obtain ⟨headDiffers, restAbsent⟩ := absent_cons absent
      unfold put
      simp only [headDiffers, Bool.false_eq_true, if_false, ih restAbsent, List.cons_append]

theorem erase_of_absent {same : Key → Key → Bool} {items : List (Key × Val)} {key : Key}
    (absent : lookup same items key = none) : erase same items key = items := by
  induction items with
  | nil => rfl
  | cons head rest ih =>
      obtain ⟨held, old⟩ := head
      obtain ⟨headDiffers, restAbsent⟩ := absent_cons absent
      unfold erase
      simp only [headDiffers, Bool.false_eq_true, if_false, ih restAbsent]

theorem key_mem_put {same : Key → Key → Bool} {items : List (Key × Val)} {key : Key}
    {value : Val} {item : Key × Val} (member : item ∈ put same items key value) :
    item.1 = key ∨ ∃ original ∈ items, original.1 = item.1 := by
  induction items with
  | nil =>
      rw [put, List.mem_singleton] at member
      exact Or.inl (congrArg Prod.fst member)
  | cons head rest ih =>
      obtain ⟨held, old⟩ := head
      unfold put at member
      split at member
      · rcases List.mem_cons.mp member with here | later
        · exact Or.inr ⟨(held, old), List.mem_cons_self, (congrArg Prod.fst here).symm⟩
        · exact Or.inr ⟨item, List.mem_cons_of_mem _ later, rfl⟩
      · rcases List.mem_cons.mp member with here | later
        · exact Or.inr ⟨(held, old), List.mem_cons_self, (congrArg Prod.fst here).symm⟩
        · rcases ih later with new | ⟨original, originalMember, keyEq⟩
          · exact Or.inl new
          · exact Or.inr ⟨original, List.mem_cons_of_mem _ originalMember, keyEq⟩

/-! ### Distinct keys -/

section

variable {same : Key → Key → Bool}
  (equiv : Equivalence (fun left right => same left right = true))

include equiv

theorem same_comm (left right : Key) : same left right = same right left := by
  rw [Bool.eq_iff_iff]
  exact ⟨equiv.symm, equiv.symm⟩

theorem same_congr {left right : Key} (equal : same left right = true) (key : Key) :
    same left key = same right key := by
  rw [Bool.eq_iff_iff]
  exact ⟨equiv.trans (equiv.symm equal), equiv.trans equal⟩

theorem apart_of_same {first held key : Key} (apart : same first held = false)
    (matched : same held key = true) : same first key = false := by
  rw [same_comm equiv, ← same_congr equiv matched, same_comm equiv]
  exact apart

theorem lookup_of_index {items : List (Key × Val)} (distinct : Distinct same items)
    {index : Nat} {item : Key × Val} {key : Key}
    (here : items[index]? = some item) (matched : same item.1 key = true) :
    lookup same items key = some item.2 := by
  induction items generalizing index with
  | nil => cases here
  | cons head rest ih =>
      obtain ⟨first, old⟩ := head
      obtain ⟨headApart, restDistinct⟩ := List.pairwise_cons.mp distinct
      unfold lookup
      cases index with
      | zero =>
          cases here
          rw [if_pos matched]
      | succ index =>
          have notFirst := apart_of_same equiv (headApart item (List.mem_of_getElem? here)) matched
          simp only [notFirst, Bool.false_eq_true, if_false]
          exact ih restDistinct here

theorem put_of_index {items : List (Key × Val)} (distinct : Distinct same items)
    {index : Nat} {item : Key × Val} {key : Key}
    (here : items[index]? = some item) (matched : same item.1 key = true) (value : Val) :
    put same items key value = items.set index (item.1, value) := by
  induction items generalizing index with
  | nil => cases here
  | cons head rest ih =>
      obtain ⟨first, oldest⟩ := head
      obtain ⟨headApart, restDistinct⟩ := List.pairwise_cons.mp distinct
      unfold put
      cases index with
      | zero =>
          cases here
          rw [if_pos matched, List.set_cons_zero]
      | succ index =>
          have notFirst := apart_of_same equiv (headApart item (List.mem_of_getElem? here)) matched
          simp only [notFirst, Bool.false_eq_true, if_false, List.set_cons_succ]
          rw [ih restDistinct here]

theorem erase_of_index {items : List (Key × Val)} (distinct : Distinct same items)
    {index : Nat} {item : Key × Val} {key : Key}
    (here : items[index]? = some item) (matched : same item.1 key = true) :
    erase same items key = items.eraseIdx index := by
  induction items generalizing index with
  | nil => cases here
  | cons head rest ih =>
      obtain ⟨first, oldest⟩ := head
      obtain ⟨headApart, restDistinct⟩ := List.pairwise_cons.mp distinct
      unfold erase
      cases index with
      | zero =>
          cases here
          rw [if_pos matched, List.eraseIdx_cons_zero]
      | succ index =>
          have notFirst := apart_of_same equiv (headApart item (List.mem_of_getElem? here)) matched
          simp only [notFirst, Bool.false_eq_true, if_false, List.eraseIdx_cons_succ]
          rw [ih restDistinct here]

theorem lookup_put (items : List (Key × Val)) (key other : Key) (value : Val) :
    lookup same (put same items key value) other =
      if same key other then some value else lookup same items other := by
  induction items with
  | nil => simp [put, lookup]
  | cons head rest ih =>
      obtain ⟨held, old⟩ := head
      unfold put
      cases matched : same held key with
      | true =>
          rw [if_pos rfl]
          unfold lookup
          rw [same_congr equiv matched other]
          split <;> rfl
      | false =>
          simp only [Bool.false_eq_true, if_false]
          unfold lookup
          rw [ih]
          cases atHead : same held other with
          | true =>
              have apart := apart_of_same equiv ((same_comm equiv key held).trans matched) atHead
              simp [apart]
          | false => simp

theorem lookup_erase {items : List (Key × Val)} (distinct : Distinct same items)
    (key other : Key) :
    lookup same (erase same items key) other =
      if same key other then none else lookup same items other := by
  induction items with
  | nil => simp [erase, lookup]
  | cons head rest ih =>
      obtain ⟨held, old⟩ := head
      obtain ⟨headApart, restDistinct⟩ := List.pairwise_cons.mp distinct
      unfold erase
      cases matched : same held key with
      | true =>
          rw [if_pos rfl]
          have gone : same key other = same held other := (same_congr equiv matched other).symm
          rw [gone]
          conv_rhs => unfold lookup
          cases atHead : same held other with
          | true =>
              rw [if_pos rfl]
              apply lookup_eq_none_iff.mpr
              intro item member
              have apart := (same_comm equiv item.1 held).trans (headApart item member)
              exact apart_of_same equiv apart atHead
          | false => simp
      | false =>
          simp only [Bool.false_eq_true, if_false]
          unfold lookup
          rw [ih restDistinct]
          cases atHead : same held other with
          | true =>
              have apart := apart_of_same equiv ((same_comm equiv key held).trans matched) atHead
              simp [apart]
          | false => simp

end

theorem Distinct.put {same : Key → Key → Bool} {items : List (Key × Val)}
    (distinct : Distinct same items) (key : Key) (value : Val) :
    Distinct same (OrderedMap.put same items key value) := by
  induction items with
  | nil => exact List.pairwise_singleton _ _
  | cons head rest ih =>
      obtain ⟨held, old⟩ := head
      obtain ⟨headApart, restDistinct⟩ := List.pairwise_cons.mp distinct
      unfold OrderedMap.put
      cases matched : same held key with
      | true =>
          rw [if_pos rfl]
          exact List.pairwise_cons.mpr ⟨headApart, restDistinct⟩
      | false =>
          simp only [Bool.false_eq_true, if_false]
          apply List.pairwise_cons.mpr
          refine ⟨?_, ih restDistinct⟩
          intro item member
          rcases key_mem_put member with new | ⟨original, originalMember, keyEq⟩
          · rw [new]; exact matched
          · rw [← keyEq]; exact headApart original originalMember

theorem erase_sublist (same : Key → Key → Bool) (items : List (Key × Val)) (key : Key) :
    (erase same items key).Sublist items := by
  induction items with
  | nil => exact List.Sublist.refl _
  | cons head rest ih =>
      obtain ⟨held, old⟩ := head
      unfold erase
      split
      · exact List.sublist_cons_self _ _
      · exact ih.cons_cons _

theorem Distinct.erase {same : Key → Key → Bool} {items : List (Key × Val)}
    (distinct : Distinct same items) (key : Key) :
    Distinct same (OrderedMap.erase same items key) :=
  List.Pairwise.sublist (erase_sublist same items key) distinct

/-! ### Keys compared by identity -/

section

variable [DecidableEq Key]

def equal (left right : Key) : Bool :=
  decide (left = right)

@[simp] theorem equal_self (key : Key) : equal key key = true :=
  decide_eq_true rfl

theorem equal_of_ne {left right : Key} (differ : left ≠ right) : equal left right = false :=
  decide_eq_false differ

theorem equal_equivalence : Equivalence (fun left right : Key => equal left right = true) where
  refl _ := decide_eq_true rfl
  symm matched := decide_eq_true (of_decide_eq_true matched).symm
  trans first second :=
    decide_eq_true ((of_decide_eq_true first).trans (of_decide_eq_true second))

theorem distinct_equal_iff {items : List (Key × Val)} :
    Distinct equal items ↔ (items.map Prod.fst).Nodup := by
  unfold Distinct List.Nodup equal
  rw [List.pairwise_map]
  simp only [decide_eq_false_iff_not, ne_eq]

theorem ite_equal {Answer : Type} (answers : Key → Answer) (key other : Key) (answer : Answer) :
    (if equal key other = true then answer else answers other) =
      Function.update answers key answer other := by
  unfold equal
  by_cases same : other = key
  · subst other; simp
  · rw [Function.update_of_ne same, if_neg]
    intro matched
    exact same (of_decide_eq_true matched).symm

theorem lookup_put_equal (items : List (Key × Val)) (key : Key) (value : Val) :
    lookup equal (put equal items key value) =
      Function.update (lookup equal items) key (some value) := by
  funext other
  rw [lookup_put equal_equivalence, ite_equal]

theorem lookup_erase_equal {items : List (Key × Val)} (distinct : Distinct equal items)
    (key : Key) :
    lookup equal (erase equal items key) =
      Function.update (lookup equal items) key none := by
  funext other
  rw [lookup_erase equal_equivalence distinct, ite_equal]

theorem mem_keys_iff {items : List (Key × Val)} {key : Key} :
    key ∈ items.map Prod.fst ↔ (lookup equal items key).isSome := by
  rw [← not_iff_not, Bool.not_eq_true, Option.isSome_eq_false_iff, Option.isNone_iff_eq_none,
    lookup_eq_none_iff]
  simp only [equal, decide_eq_false_iff_not, List.mem_map, not_exists, not_and]

theorem lookup_some_iff {items : List (Key × Val)} (distinct : Distinct equal items) {key : Key}
    {value : Val} : lookup equal items key = some value ↔ (key, value) ∈ items := by
  induction items with
  | nil => simp [lookup]
  | cons head rest ih =>
      obtain ⟨held, old⟩ := head
      obtain ⟨apart, restDistinct⟩ := List.pairwise_cons.mp distinct
      rw [lookup, List.mem_cons, Prod.mk.injEq, ← ih restDistinct]
      by_cases here : held = key
      · subst here
        have absent : lookup equal rest held = none :=
          lookup_eq_none_iff.mpr fun item member => by
            rw [same_comm equal_equivalence]
            exact apart item member
        rw [if_pos (equal_self held), absent]
        simp [eq_comm]
      · rw [if_neg (by rw [equal_of_ne here]; exact Bool.false_ne_true)]
        simp [Ne.symm here]

theorem keys_put (items : List (Key × Val)) (key : Key) (value : Val) :
    (put equal items key value).map Prod.fst =
      if key ∈ items.map Prod.fst then items.map Prod.fst else items.map Prod.fst ++ [key] := by
  induction items with
  | nil => rfl
  | cons head rest ih =>
      obtain ⟨held, old⟩ := head
      unfold put
      by_cases here : held = key
      · subst here
        simp
      · rw [if_neg (by rw [equal_of_ne here]; exact Bool.false_ne_true), List.map_cons, ih]
        simp only [List.map_cons, List.mem_cons, Ne.symm here, false_or]
        split <;> rfl

/-- A program may compare keys by another equality, which holds of no `NaN`. -/
class HasNaN (Key : Type) where
  isNaN : Key → Bool

variable [HasNaN Key]

/-- The operator `===`. -/
def strictEqual (left right : Key) : Bool :=
  decide (left = right) && !HasNaN.isNaN right

theorem strictEqual_iff {left right : Key} :
    strictEqual left right = true ↔ left = right ∧ HasNaN.isNaN right = false := by
  rw [strictEqual, Bool.and_eq_true, decide_eq_true_iff, Bool.not_eq_true']

end

end Foundation.OrderedMap
