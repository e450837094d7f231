/-
Lists that descend by a key, as a linked list kept in order does.

An item is looked for by walking past those with greater keys, and is put in where
the walk stops; what is at or above a bound is a prefix.
-/

import Mathlib.Tactic.Common

namespace Foundation.DescendingList

variable {Item : Type} {key : Item → Nat} {items : List Item}

def Descending (key : Item → Nat) (items : List Item) : Prop :=
  items.Pairwise (fun left right => key right < key left)

theorem Descending.unique (descending : Descending key items) {left right : Item}
    (left_member : left ∈ items) (right_member : right ∈ items) (same : key left = key right) :
    left = right := by
  induction items with
  | nil => cases left_member
  | cons head rest ih =>
      have below := List.pairwise_cons.mp descending
      cases List.mem_cons.mp left_member with
      | inl left_head =>
          cases List.mem_cons.mp right_member with
          | inl right_head => rw [left_head, right_head]
          | inr right_rest =>
              have less := below.1 right right_rest
              rw [← left_head, same] at less
              exact absurd less (Nat.lt_irrefl _)
      | inr left_rest =>
          cases List.mem_cons.mp right_member with
          | inl right_head =>
              have less := below.1 left left_rest
              rw [← right_head, same] at less
              exact absurd less (Nat.lt_irrefl _)
          | inr right_rest => exact ih below.2 left_rest right_rest

theorem Descending.congr {other : Item → Nat} (descending : Descending key items)
    (same : ∀ item ∈ items, other item = key item) : Descending other items := by
  refine List.Pairwise.imp_of_mem ?_ descending
  intro left right left_member right_member less
  rw [same left left_member, same right right_member]
  exact less

/-! ### Putting in -/

/-- The item with the key, or `created` put in its place. -/
def place (key : Item → Nat) (target : Nat) (created : Item) : List Item → Item × List Item
  | [] => (created, [created])
  | item :: rest =>
      if target < key item then
        ((place key target created rest).1, item :: (place key target created rest).2)
      else if key item = target then (item, item :: rest)
      else (created, created :: item :: rest)

variable (target : Nat) (created : Item)

theorem place_cases (descending : Descending key items) :
    ((place key target created items).1 ∈ items ∧
      key (place key target created items).1 = target ∧
        (place key target created items).2 = items) ∨
    ((place key target created items).1 = created ∧ (∀ item ∈ items, key item ≠ target) ∧
      ∀ item, item ∈ (place key target created items).2 ↔ item = created ∨ item ∈ items) := by
  induction items with
  | nil =>
      refine Or.inr ⟨rfl, fun item member => absurd member List.not_mem_nil, ?_⟩
      intro item
      exact List.mem_cons
  | cons head rest ih =>
      have below := List.pairwise_cons.mp descending
      unfold place
      by_cases above : target < key head
      · rw [if_pos above]
        cases ih below.2 with
        | inl found =>
            exact Or.inl ⟨List.mem_cons_of_mem _ found.1, found.2.1, by rw [found.2.2]⟩
        | inr absent =>
            refine Or.inr ⟨absent.1, ?_, ?_⟩
            · intro item member
              cases List.mem_cons.mp member with
              | inl at_head =>
                  rw [at_head]
                  exact Nat.ne_of_gt above
              | inr at_rest => exact absent.2.1 item at_rest
            · intro item
              rw [List.mem_cons, absent.2.2, List.mem_cons]
              exact or_left_comm
      · rw [if_neg above]
        by_cases found : key head = target
        · rw [if_pos found]
          exact Or.inl ⟨List.mem_cons_self, found, rfl⟩
        · rw [if_neg found]
          refine Or.inr ⟨rfl, ?_, fun item => List.mem_cons⟩
          intro item member
          cases List.mem_cons.mp member with
          | inl at_head => exact at_head ▸ found
          | inr at_rest =>
              have less := below.1 item at_rest
              omega

variable {target created}

theorem place_descending (descending : Descending key items) (at_target : key created = target) :
    Descending key (place key target created items).2 := by
  induction items with
  | nil => exact List.pairwise_singleton _ _
  | cons head rest ih =>
      have below := List.pairwise_cons.mp descending
      unfold place
      by_cases above : target < key head
      · rw [if_pos above]
        refine List.pairwise_cons.mpr ⟨?_, ih below.2⟩
        intro item member
        cases place_cases target created below.2 with
        | inl found =>
            rw [found.2.2] at member
            exact below.1 item member
        | inr absent =>
            cases (absent.2.2 item).mp member with
            | inl new => exact new ▸ at_target ▸ above
            | inr old => exact below.1 item old
      · rw [if_neg above]
        by_cases found : key head = target
        · rw [if_pos found]
          exact descending
        · rw [if_neg found]
          refine List.pairwise_cons.mpr ⟨?_, descending⟩
          intro item member
          cases List.mem_cons.mp member with
          | inl at_head =>
              rw [at_head, at_target]
              omega
          | inr at_rest =>
              have less := below.1 item at_rest
              omega

theorem place_congr {other : Item → Nat} (same : ∀ item ∈ items, other item = key item) :
    place other target created items = place key target created items := by
  induction items with
  | nil => rfl
  | cons head rest ih =>
      unfold place
      rw [same head List.mem_cons_self,
        ih (fun item member => same item (List.mem_cons_of_mem _ member))]

/-! ### Taking off -/

theorem mem_dropWhile (descending : Descending key items) (bound : Nat) (item : Item) :
    item ∈ items.dropWhile (fun item => bound ≤ key item) ↔ item ∈ items ∧ key item < bound := by
  induction items with
  | nil => exact ⟨fun member => absurd member List.not_mem_nil, fun both => both.1⟩
  | cons head rest ih =>
      have below := List.pairwise_cons.mp descending
      by_cases above : bound ≤ key head
      · rw [List.dropWhile_cons, if_pos (decide_eq_true above), ih below.2, List.mem_cons]
        constructor
        · exact fun both => ⟨Or.inr both.1, both.2⟩
        · intro both
          cases both.1 with
          | inl at_head =>
              rw [at_head] at both
              omega
          | inr at_rest => exact ⟨at_rest, both.2⟩
      · have stays : ¬decide (bound ≤ key head) = true := fun is_above =>
          above (of_decide_eq_true is_above)
        rw [List.dropWhile_cons, if_neg stays]
        constructor
        · intro member
          refine ⟨member, ?_⟩
          cases List.mem_cons.mp member with
          | inl at_head =>
              rw [at_head]
              omega
          | inr at_rest =>
              have less := below.1 item at_rest
              omega
        · exact fun both => both.1

theorem dropWhile_congr {other : Item → Nat} (bound : Nat)
    (same : ∀ item ∈ items, other item = key item) :
    items.dropWhile (fun item => bound ≤ other item) =
      items.dropWhile (fun item => bound ≤ key item) := by
  induction items with
  | nil => rfl
  | cons head rest ih =>
      rw [List.dropWhile_cons, List.dropWhile_cons, same head List.mem_cons_self,
        ih (fun item member => same item (List.mem_cons_of_mem _ member))]

theorem dropWhile_descending (descending : Descending key items) (bound : Nat) :
    Descending key (items.dropWhile (fun item => bound ≤ key item)) :=
  List.Pairwise.sublist (List.dropWhile_sublist _) descending

end Foundation.DescendingList
