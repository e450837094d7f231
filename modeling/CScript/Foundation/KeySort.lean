/-
An insertion sort of items by their keys.

The loop compares keys only and moves an item past those that come after it, so
items whose keys tie keep their order, and where no keys tie the sorted list is
the one there is.
-/

import Mathlib.Data.List.Induction
import Mathlib.Data.List.Sort

namespace CScript.KeySort

variable {κ β γ : Type} (after : κ → κ → Bool)

def sink (item : κ × β) : List (κ × β) → List (κ × β)
  | [] => [item]
  | last :: rest => if after last.1 item.1 then last :: sink item rest else item :: last :: rest

def sortByKey (items : List (κ × β)) : List (κ × β) :=
  (items.foldl (fun sorted item => sink after item sorted) []).reverse

structure Orders : Prop where
  asymm : ∀ {a b}, after a b = true → after b a = false
  trans : ∀ {a b c}, after a b = false → after b c = false → after a c = false

structure OrdersAmong (among : κ → Prop) : Prop where
  asymm : ∀ {a b}, among a → among b → after a b = true → after b a = false
  trans : ∀ {a b c}, among a → among b → among c →
    after a b = false → after b c = false → after a c = false

def Settled (a b : κ × β) : Prop :=
  after b.1 a.1 = false

instance : DecidableRel (Settled (β := β) after) :=
  fun a b => inferInstanceAs (Decidable (after b.1 a.1 = false))

section

variable {after}

theorem sink_eq (item : κ × β) (items : List (κ × β)) :
    sink after item items = items.orderedInsert (Settled after) item := by
  induction items with
  | nil => rfl
  | cons last rest ih =>
      rw [sink, List.orderedInsert_cons, ih]
      cases moves : after last.1 item.1 with
      | true => rw [if_pos rfl, if_neg (by simp [Settled, moves])]
      | false =>
          have settled : Settled after item last := moves
          rw [if_neg nofun, if_pos settled]

theorem sortByKey_eq (items : List (κ × β)) :
    sortByKey after items = (items.reverse.insertionSort (Settled after)).reverse := by
  unfold sortByKey
  congr 1
  rw [List.insertionSort, List.foldr_reverse]
  simp only [sink_eq]

theorem sortByKey_perm (items : List (κ × β)) : (sortByKey after items).Perm items := by
  rw [sortByKey_eq]
  exact (List.reverse_perm _).trans
    ((List.perm_insertionSort _ _).trans (List.reverse_perm items))

theorem mem_sortByKey {items : List (κ × β)} {item : κ × β} :
    item ∈ sortByKey after items ↔ item ∈ items :=
  (sortByKey_perm items).mem_iff

theorem sortByKey_map (change : κ × β → γ) (items : List (κ × β)) :
    sortByKey after (items.map (fun item => (item.1, change item))) =
      (sortByKey after items).map (fun item => (item.1, change item)) := by
  have moved := List.map_insertionSort (Settled after) (Settled after)
    (fun item => (item.1, change item)) items.reverse (fun _ _ _ _ => Iff.rfl)
  rw [sortByKey_eq, sortByKey_eq, List.map_reverse, moved, List.map_reverse]

theorem mem_sink {item other : κ × β} {items : List (κ × β)} :
    other ∈ sink after item items ↔ other = item ∨ other ∈ items := by
  rw [sink_eq, List.mem_orderedInsert]

theorem sink_sorted {among : κ → Prop} (orders : OrdersAmong after among) {item : κ × β}
    (kind : among item.1) {items : List (κ × β)} (kinds : ∀ other ∈ items, among other.1)
    (sorted : items.Pairwise (Settled after)) :
    (sink after item items).Pairwise (Settled after) := by
  induction items with
  | nil => exact List.pairwise_singleton _ _
  | cons last rest ih =>
      have lastKind := kinds last List.mem_cons_self
      have restKinds := fun other member => kinds other (List.mem_cons_of_mem last member)
      have ⟨settled, restSorted⟩ := List.pairwise_cons.mp sorted
      unfold sink
      cases moves : after last.1 item.1 with
      | true =>
          rw [if_pos rfl, List.pairwise_cons]
          constructor
          · intro other member
            rcases mem_sink.mp member with rfl | member
            · exact orders.asymm lastKind kind moves
            · exact settled other member
          · exact ih restKinds restSorted
      | false =>
          rw [if_neg nofun, List.pairwise_cons]
          constructor
          · intro other member
            rcases List.mem_cons.mp member with rfl | member
            · exact moves
            · exact orders.trans (restKinds other member) lastKind kind (settled other member) moves
          · exact sorted

theorem sortByKey_concat (items : List (κ × β)) (item : κ × β) :
    sortByKey after (items ++ [item]) =
      (sink after item (sortByKey after items).reverse).reverse := by
  unfold sortByKey
  rw [List.foldl_append, List.reverse_reverse]
  rfl

theorem sortByKey_sorted_among {among : κ → Prop} (orders : OrdersAmong after among)
    (items : List (κ × β)) (kinds : ∀ item ∈ items, among item.1) :
    (sortByKey after items).Pairwise (fun a b => after a.1 b.1 = false) := by
  induction items using List.reverseRecOn with
  | nil => exact List.Pairwise.nil
  | append_singleton items item ih =>
      have earlier := fun other member => kinds other (List.mem_append_left [item] member)
      rw [sortByKey_concat, List.pairwise_reverse]
      apply sink_sorted orders (kinds item (List.mem_append_right items List.mem_cons_self))
      · intro other member
        exact earlier other (mem_sortByKey.mp (List.mem_reverse.mp member))
      · exact List.pairwise_reverse.mpr (ih earlier)

theorem sortByKey_sorted (orders : Orders after) (items : List (κ × β)) :
    (sortByKey after items).Pairwise (fun a b => after a.1 b.1 = false) :=
  have among : OrdersAmong after (fun _ => True) :=
    { asymm := fun _ _ => orders.asymm
      trans := fun _ _ _ => orders.trans }
  sortByKey_sorted_among among items (fun _ _ => trivial)

theorem sortByKey_stable (items : List (κ × β)) (class_ : κ → Bool)
    (ties : ∀ a ∈ items, ∀ b ∈ items, class_ a.1 = true → class_ b.1 = true →
      after a.1 b.1 = false) :
    (sortByKey after items).filter (fun item => class_ item.1) =
      items.filter (fun item => class_ item.1) := by
  have tied : (items.reverse.filter (fun item => class_ item.1)).Pairwise (Settled after) := by
    apply List.Pairwise.imp_of_mem _ (List.pairwise_of_forall (R := fun _ _ => True)
      (fun _ _ => trivial))
    intro a b left right _
    have ⟨leftMember, leftClass⟩ := List.mem_filter.mp left
    have ⟨rightMember, rightClass⟩ := List.mem_filter.mp right
    exact ties b (List.mem_reverse.mp rightMember) a (List.mem_reverse.mp leftMember) rightClass
      leftClass
  have kept := (List.sublist_insertionSort tied List.filter_sublist).filter
    (fun item => class_ item.1)
  rw [List.filter_filter] at kept
  simp only [Bool.and_self] at kept
  have same := kept.eq_of_length
    ((List.perm_insertionSort (Settled after) items.reverse).filter _).length_eq.symm
  rw [sortByKey_eq, List.filter_reverse, ← same, ← List.filter_reverse, List.reverse_reverse]

end

end CScript.KeySort
