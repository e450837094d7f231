/-
A binary heap by its places: the parent of place `n` is `(n - 1) / 2`, and a value moves up or
down by changing places with a parent or a child.
-/

import Mathlib.Logic.Equiv.Basic
import Mathlib.Order.Defs.Unbundled

namespace CScript.BinaryHeap

variable {α : Type} (le : α → α → Prop)

def parent (place : Nat) : Nat :=
  (place - 1) / 2

/-- Every value but the first comes behind that of its parent. -/
def Heap (values : Nat → α) : Prop :=
  ∀ place, 0 < place → le (values (parent place)) (values place)

/-- A heap but at one place, whose value may belong above it. -/
structure Rising (values : Nat → α) (place : Nat) : Prop where
  others : ∀ other, 0 < other → other ≠ place → le (values (parent other)) (values other)
  across : 0 < place → ∀ child, 0 < child → parent child = place →
    le (values (parent place)) (values child)

/-- A heap but at one place, whose value may belong below it. -/
structure Sinking (values : Nat → α) (place : Nat) : Prop where
  others : ∀ other, 0 < other → parent other ≠ place → le (values (parent other)) (values other)
  across : 0 < place → ∀ child, 0 < child → parent child = place →
    le (values (parent place)) (values child)

/-- The values with those of two places exchanged. -/
def exchange (values : Nat → α) (a b : Nat) : Nat → α :=
  values ∘ Equiv.swap a b

section

variable {le} {values : Nat → α} {place : Nat}

theorem parent_lt (positive : 0 < place) : parent place < place := by
  unfold parent
  omega

theorem parent_eq_iff {child : Nat} (positive : 0 < child) :
    parent child = place ↔ child = 2 * place + 1 ∨ child = 2 * place + 2 := by
  unfold parent
  omega

@[simp]
theorem exchange_left (a b : Nat) : exchange values a b a = values b :=
  congrArg values (Equiv.swap_apply_left a b)

@[simp]
theorem exchange_right (a b : Nat) : exchange values a b b = values a :=
  congrArg values (Equiv.swap_apply_right a b)

theorem exchange_of_ne {a b other : Nat} (left : other ≠ a) (right : other ≠ b) :
    exchange values a b other = values other :=
  congrArg values (Equiv.swap_apply_of_ne_of_ne left right)

theorem Rising.settled (rising : Rising le values place)
    (behind : 0 < place → le (values (parent place)) (values place)) : Heap le values := by
  intro other positive
  by_cases here : other = place
  · exact here ▸ behind (here ▸ positive)
  · exact rising.others other positive here

theorem Rising.exchange [IsTrans α le] (rising : Rising le values place) (positive : 0 < place)
    (before : le (values place) (values (parent place))) :
    Rising le (exchange values place (parent place)) (parent place) := by
  have lower := parent_lt positive
  have apart : ∀ {other}, other ≠ place → other ≠ parent place →
      BinaryHeap.exchange values place (parent place) other = values other := exchange_of_ne
  refine ⟨fun other above elsewhere => ?_, fun above child childPositive below => ?_⟩
  · by_cases here : other = place
    · rw [here, exchange_left, exchange_right]
      exact before
    rw [apart here elsewhere]
    by_cases child : parent other = place
    · rw [child, exchange_left]
      exact rising.across positive other above child
    by_cases sibling : parent other = parent place
    · rw [sibling, exchange_right]
      exact IsTrans.trans _ _ _ before (sibling ▸ rising.others other above here)
    · rw [apart child sibling]
      exact rising.others other above here
  · have higher := parent_lt above
    have top := rising.others (parent place) above (Nat.ne_of_lt lower)
    rw [apart (Nat.ne_of_lt (Nat.lt_trans higher lower)) (Nat.ne_of_lt higher)]
    by_cases here : child = place
    · rw [here, exchange_left]
      exact top
    · have childApart : child ≠ parent place := Nat.ne_of_gt (below ▸ parent_lt childPositive)
      rw [apart here childApart]
      exact IsTrans.trans _ _ _ top (below ▸ rising.others child childPositive here)

theorem Sinking.settled (sinking : Sinking le values place)
    (before : ∀ child, 0 < child → parent child = place → le (values place) (values child)) :
    Heap le values := by
  intro other positive
  by_cases here : parent other = place
  · exact here ▸ before other positive here
  · exact sinking.others other positive here

theorem Sinking.exchange {child : Nat} (sinking : Sinking le values place)
    (positive : 0 < child) (below : parent child = place)
    (before : le (values child) (values place))
    (least : ∀ other, 0 < other → parent other = place → le (values child) (values other)) :
    Sinking le (exchange values place child) child := by
  have lower : place < child := below ▸ parent_lt positive
  have apart : ∀ {other}, other ≠ place → other ≠ child →
      BinaryHeap.exchange values place child other = values other := exchange_of_ne
  refine ⟨fun other above elsewhere => ?_, fun _ other above under => ?_⟩
  · by_cases here : other = place
    · have higher := parent_lt (here ▸ above)
      rw [here, exchange_left,
        apart (Nat.ne_of_lt higher) (Nat.ne_of_lt (Nat.lt_trans higher lower))]
      exact sinking.across (here ▸ above) child positive below
    by_cases moved : other = child
    · rw [moved, below, exchange_left, exchange_right]
      exact before
    rw [apart here moved]
    by_cases sibling : parent other = place
    · rw [sibling, exchange_left]
      exact least other above sibling
    · rw [apart sibling elsewhere]
      exact sinking.others other above sibling
  · have deeper := under ▸ parent_lt above
    rw [below, exchange_left,
      apart (Nat.ne_of_gt (Nat.lt_trans lower deeper)) (Nat.ne_of_gt deeper)]
    exact under ▸ sinking.others other above (under ▸ Nat.ne_of_gt lower)

theorem Heap.first_le [IsTrans α le] (heap : Heap le values) (refl : ∀ a, le a a) (place : Nat) :
    le (values 0) (values place) := by
  induction place using Nat.strongRecOn with
  | ind place ih =>
      rcases Nat.eq_zero_or_pos place with rfl | positive
      · exact refl _
      · exact IsTrans.trans _ _ _ (ih _ (parent_lt positive)) (heap place positive)

end

end CScript.BinaryHeap
