/-
Walking in a tree of names.

A location is below a root, or below the place one has started from; of what is above that
place only the number of levels is known.  A step stays, goes up, or goes into a name.
There is nothing above a root.
-/

import Mathlib.Data.List.Infix
import Mathlib.Tactic.Common

namespace Foundation.Walk

variable {α : Type}

inductive Step (α : Type) where
  | stay
  | up
  | into (name : α)

inductive Location (α : Type) where
  | absolute (names : List α)
  | relative (climbs : Nat) (names : List α)

namespace Location

def walk : Location α → Step α → Location α
  | location, .stay => location
  | absolute names, .up => absolute names.dropLast
  | absolute names, .into name => absolute (names ++ [name])
  | relative climbs [], .up => relative (climbs + 1) []
  | relative climbs (first :: rest), .up => relative climbs (first :: rest).dropLast
  | relative climbs names, .into name => relative climbs (names ++ [name])

def walks (location : Location α) (steps : List (Step α)) : Location α :=
  steps.foldl walk location

theorem walks_append (location : Location α) (steps more : List (Step α)) :
    location.walks (steps ++ more) = (location.walks steps).walks more :=
  List.foldl_append

theorem walks_cons (location : Location α) (step : Step α) (steps : List (Step α)) :
    location.walks (step :: steps) = (location.walk step).walks steps :=
  rfl

def isAbsolute : Location α → Bool
  | absolute _ => true
  | relative _ _ => false

def climbs : Location α → Nat
  | absolute _ => 0
  | relative climbs _ => climbs

def names : Location α → List α
  | absolute names => names
  | relative _ names => names

/-! ### Going up and going into -/

theorem walk_into (location : Location α) (name : α) :
    (location.walk (.into name)).isAbsolute = location.isAbsolute ∧
      (location.walk (.into name)).climbs = location.climbs ∧
      (location.walk (.into name)).names = location.names ++ [name] := by
  rcases location with names | ⟨climbs, _ | ⟨first, rest⟩⟩ <;> exact ⟨rfl, rfl, rfl⟩

@[ext] theorem ext {first second : Location α} (kind : first.isAbsolute = second.isAbsolute)
    (climbs : first.climbs = second.climbs) (names : first.names = second.names) :
    first = second := by
  cases first <;> cases second <;> cases kind <;> cases climbs <;> cases names <;> rfl

theorem walks_into (location : Location α) (more : List α) :
    (location.walks (more.map .into)).isAbsolute = location.isAbsolute ∧
      (location.walks (more.map .into)).climbs = location.climbs ∧
      (location.walks (more.map .into)).names = location.names ++ more := by
  induction more generalizing location with
  | nil => exact ⟨rfl, rfl, (List.append_nil _).symm⟩
  | cons name rest ih =>
      obtain ⟨kind, climbs, names⟩ := walk_into location name
      rw [List.map_cons, walks_cons]
      refine ⟨(ih _).1.trans kind, (ih _).2.1.trans climbs, (ih _).2.2.trans ?_⟩
      rw [names, List.append_assoc, List.singleton_append]

theorem walks_absolute (names more : List α) :
    (absolute names).walks (more.map .into) = absolute (names ++ more) :=
  ext (walks_into _ more).1 (walks_into _ more).2.1 (walks_into _ more).2.2

theorem walks_relative (climbs : Nat) (names more : List α) :
    (relative climbs names).walks (more.map .into) = relative climbs (names ++ more) :=
  ext (walks_into _ more).1 (walks_into _ more).2.1 (walks_into _ more).2.2

theorem walks_up_absolute (kept dropped : List α) :
    (absolute (kept ++ dropped)).walks (List.replicate dropped.length .up) = absolute kept := by
  induction dropped using List.reverseRecOn with
  | nil => rw [List.append_nil]; rfl
  | append_singleton dropped last ih =>
      rw [List.length_append, List.length_singleton, List.replicate_succ, walks_cons, walk,
        ← List.append_assoc, List.dropLast_concat, ih]

theorem walk_up_relative (climbs : Nat) (names : List α) (last : α) :
    (relative climbs (names ++ [last])).walk .up = relative climbs names := by
  have dropped : (names ++ [last]).dropLast = names := List.dropLast_concat
  cases split : names ++ [last] with
  | nil => exact absurd split (List.append_ne_nil_of_right_ne_nil _ (List.cons_ne_nil _ _))
  | cons first rest => rw [walk, ← split, dropped]

theorem walks_up_relative (climbs : Nat) (kept dropped : List α) :
    (relative climbs (kept ++ dropped)).walks (List.replicate dropped.length .up) =
      relative climbs kept := by
  induction dropped using List.reverseRecOn with
  | nil => rw [List.append_nil]; rfl
  | append_singleton dropped last ih =>
      rw [List.length_append, List.length_singleton, List.replicate_succ, walks_cons,
        ← List.append_assoc, walk_up_relative, ih]

theorem walks_up (location : Location α) {kept dropped : List α}
    (is : location.names = kept ++ dropped) :
    (location.walks (List.replicate dropped.length .up)).isAbsolute = location.isAbsolute ∧
      (location.walks (List.replicate dropped.length .up)).climbs = location.climbs ∧
      (location.walks (List.replicate dropped.length .up)).names = kept := by
  cases location with
  | absolute names =>
      rw [show names = kept ++ dropped from is, walks_up_absolute]
      exact ⟨rfl, rfl, rfl⟩
  | relative climbs names =>
      rw [show names = kept ++ dropped from is, walks_up_relative]
      exact ⟨rfl, rfl, rfl⟩

theorem walks_climb (climbs count : Nat) :
    (relative climbs ([] : List α)).walks (List.replicate count .up) =
      relative (climbs + count) [] := by
  induction count generalizing climbs with
  | zero => rfl
  | succ count ih =>
      rw [List.replicate_succ, walks_cons, walk, ih]
      congr 1
      omega

/-! ### Where one can get to -/

theorem walk_keeps (location : Location α) (step : Step α) :
    (location.walk step).isAbsolute = location.isAbsolute ∧
      location.climbs ≤ (location.walk step).climbs := by
  rcases location with names | ⟨climbs, _ | ⟨first, rest⟩⟩ <;> cases step <;>
    refine ⟨rfl, ?_⟩ <;> first | exact Nat.le_refl _ | exact Nat.le_succ _

theorem walks_keeps (location : Location α) (steps : List (Step α)) :
    (location.walks steps).isAbsolute = location.isAbsolute ∧
      location.climbs ≤ (location.walks steps).climbs := by
  induction steps generalizing location with
  | nil => exact ⟨rfl, Nat.le_refl _⟩
  | cons step rest ih =>
      have one := walk_keeps location step
      exact ⟨(ih _).1.trans one.1, one.2.trans (ih _).2⟩

def route (start target : Location α) : List (Step α) :=
  List.replicate start.names.length .up ++
    (List.replicate (target.climbs - start.climbs) .up ++ target.names.map .into)

theorem walks_route {start target : Location α} (kind : start.isAbsolute = target.isAbsolute)
    (below : start.climbs ≤ target.climbs) : start.walks (route start target) = target := by
  unfold route
  rw [walks_append, walks_append]
  cases start with
  | absolute names =>
      cases target with
      | relative climbs names => cases kind
      | absolute other =>
          have up := walks_up_absolute [] names
          rw [List.nil_append] at up
          rw [Location.names, up, Location.climbs, Location.climbs, Location.names]
          exact walks_absolute [] other
  | relative climbs names =>
      cases target with
      | absolute other => cases kind
      | relative further other =>
          have up := walks_up_relative climbs [] names
          rw [List.nil_append] at up
          rw [Location.names, up, Location.climbs, Location.climbs, Location.names, walks_climb,
            Nat.add_sub_cancel' (show climbs ≤ further from below)]
          exact walks_relative _ [] other

end Location

end Foundation.Walk
