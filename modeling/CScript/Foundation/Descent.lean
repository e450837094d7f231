/-
Going down a graph.

A walk that recurs into everything below a node ends when no way down goes on
for ever.  Where only finitely many nodes have anything below them, that is so
exactly when the walk meets no node that is below itself.
-/

import Mathlib.Data.List.Induction
import Mathlib.Data.Set.Finite.Basic
import Mathlib.Logic.Relation
import Mathlib.Order.Preorder.Finite
import Mathlib.Order.WellFounded

namespace Foundation.Descent

variable {Node : Type} {below : Node → Node → Prop}

/-! ### Cycles -/

def Acyclic (below : Node → Node → Prop) (start : Node) : Prop :=
  ∀ node, Relation.ReflTransGen below node start → ¬Relation.TransGen below node node

theorem acyclic_of_acc {start : Node} (ends : Acc below start) : Acyclic below start := by
  intro node reached cycle
  have inside : Acc below node := by
    rcases Relation.reflTransGen_iff_eq_or_transGen.mp reached with rfl | under
    · exact ends
    · exact ends.inv_of_transGen under
  induction inside.transGen with
  | intro node _ ih => exact ih node cycle (cycle.to_reflTransGen.trans reached) cycle inside

theorem acc_of_acyclic (finite : Set.Finite {parent | ∃ child, below child parent}) {start : Node}
    (acyclic : Acyclic below start) : Acc below start := by
  by_contra endless
  obtain ⟨path, begins, down⟩ := not_acc_iff_exists_descending_chain.mp endless
  have inside : ∀ place, path place ∈ {parent | ∃ child, below child parent} :=
    fun place => ⟨path (place + 1), down place⟩
  obtain ⟨first, later, before, same⟩ := Set.Finite.exists_lt_map_eq_of_forall_mem inside finite
  have descends : ∀ place steps,
      Relation.ReflTransGen below (path (place + steps)) (path place) := by
    intro place steps
    induction steps with
    | zero => exact .refl
    | succ steps ih => exact .head (down (place + steps)) ih
  have cycle : Relation.TransGen below (path later) (path first) := by
    obtain ⟨steps, rfl⟩ := Nat.exists_eq_add_of_lt before
    exact .head' (down (first + steps)) (descends first steps)
  refine acyclic (path first) ?_ (same ▸ cycle)
  have fromStart := descends 0 first
  rwa [Nat.zero_add, begins] at fromStart

theorem acc_iff_acyclic (finite : Set.Finite {parent | ∃ child, below child parent})
    (start : Node) : Acc below start ↔ Acyclic below start :=
  ⟨acyclic_of_acc, acc_of_acyclic finite⟩

/-! ### Walks with fuel -/

section

variable {children : Node → List Node} {ends : Nat → Node → Prop}

theorem ends_more (never : ∀ node, ¬ends 0 node)
    (step : ∀ fuel node, ends (fuel + 1) node ↔ ∀ child ∈ children node, ends fuel child)
    {fuel : Nat} {node : Node} (ended : ends fuel node) (more : Nat) : ends (fuel + more) node := by
  induction fuel generalizing node with
  | zero => exact absurd ended (never node)
  | succ fuel ih =>
      rw [Nat.succ_add_eq_add_succ]
      exact (step _ node).mpr (fun child member => ih ((step fuel node).mp ended child member))

theorem ends_iff_acc (never : ∀ node, ¬ends 0 node)
    (step : ∀ fuel node, ends (fuel + 1) node ↔ ∀ child ∈ children node, ends fuel child)
    (start : Node) :
    (∃ fuel, ends fuel start) ↔ Acc (fun child parent => child ∈ children parent) start := by
  constructor
  · rintro ⟨fuel, ended⟩
    induction fuel generalizing start with
    | zero => exact absurd ended (never start)
    | succ fuel ih =>
        exact ⟨start, fun child member => ih child ((step fuel start).mp ended child member)⟩
  · intro accessible
    induction accessible with
    | intro node _ ih =>
        -- The most fuel that any of the children needs.
        have enough : ∀ items : List Node, (∀ child ∈ items, ∃ fuel, ends fuel child) →
            ∃ fuel, ∀ child ∈ items, ends fuel child := by
          intro items each
          induction items with
          | nil => exact ⟨0, nofun⟩
          | cons item items rest =>
              obtain ⟨first, itemEnds⟩ := each item List.mem_cons_self
              obtain ⟨others, restEnds⟩ :=
                rest (fun child member => each child (List.mem_cons_of_mem item member))
              refine ⟨first + others, fun child member => ?_⟩
              rcases List.mem_cons.mp member with rfl | member
              · exact ends_more never step itemEnds others
              · rw [Nat.add_comm]
                exact ends_more never step (restEnds child member) first
        obtain ⟨fuel, all⟩ := enough (children node) ih
        exact ⟨fuel + 1, (step fuel node).mpr all⟩

end

end Foundation.Descent
