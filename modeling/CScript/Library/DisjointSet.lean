/-
Disjoint sets, in std:graph.

Every item points at another one of its group until one points at itself.  The search ends
because a height falls along the pointers; the test for the end is `===`, so it goes on for
ever at NaN, which a Map takes for one key and the search never for itself.
-/

import CScript.Foundation.OrderedMap
import Mathlib.Logic.Relation
import Mathlib.Data.List.Perm.Basic
import Mathlib.Data.List.Nodup

namespace CScript.Disjoint

open Foundation.OrderedMap

structure DisjointSet (K : Type) where
  parent : List (K × K)
  size : List (K × Nat)
  groups : Nat

variable {K : Type} [DecidableEq K] [HasNaN K]

namespace DisjointSet

def empty : DisjointSet K :=
  { parent := [], size := [], groups := 0 }

def add (set : DisjointSet K) (item : K) : DisjointSet K :=
  if (lookup equal set.parent item).isSome then set
  else
    { parent := put equal set.parent item item
      size := put equal set.size item 1
      groups := set.groups + 1 }

/-- The first loop of `find`, with so many turns to go. -/
def rootLoop (parent : List (K × K)) : Nat → K → Option K
  | 0, _ => none
  | fuel + 1, root =>
      match lookup equal parent root with
      | none => none
      | some above => if strictEqual above root then some root else rootLoop parent fuel above

def flattenLoop (root : K) : Nat → List (K × K) → K → Option (List (K × K))
  | 0, _, _ => none
  | fuel + 1, parent, place =>
      match lookup equal parent place with
      | none => none
      | some next =>
          if strictEqual next root then some parent
          else flattenLoop root fuel (put equal parent place root) next

def find (fuel : Nat) (set : DisjointSet K) (item : K) : Option (K × DisjointSet K) := do
  let added := set.add item
  let root ← rootLoop added.parent fuel item
  let parent ← flattenLoop root fuel added.parent item
  return (root, { added with parent := parent })

def union (fuel : Nat) (set : DisjointSet K) (a b : K) : Option (Bool × DisjointSet K) := do
  let (rootA, set) ← set.find fuel a
  let (rootB, set) ← set.find fuel b
  if strictEqual rootA rootB then return (false, set)
  let sizeA := (lookup equal set.size rootA).getD 0
  let sizeB := (lookup equal set.size rootB).getD 0
  let (big, small) := if sizeB ≤ sizeA then (rootA, rootB) else (rootB, rootA)
  return (true,
    { parent := put equal set.parent small big
      size := put equal set.size big (sizeA + sizeB)
      groups := set.groups - 1 })

def connected (fuel : Nat) (set : DisjointSet K) (a b : K) : Option (Bool × DisjointSet K) := do
  let (rootA, set) ← set.find fuel a
  let (rootB, set) ← set.find fuel b
  return (strictEqual rootA rootB, set)

def groupSize (fuel : Nat) (set : DisjointSet K) (item : K) : Option (Nat × DisjointSet K) := do
  let (root, set) ← set.find fuel item
  return ((lookup equal set.size root).getD 0, set)

def groupsLoop (fuel : Nat) : DisjointSet K → List (K × List K) → List K →
    Option (List (K × List K) × DisjointSet K)
  | set, byRoot, [] => some (byRoot, set)
  | set, byRoot, item :: rest => do
      let (root, set) ← set.find fuel item
      groupsLoop fuel set
        (put equal byRoot root ((lookup equal byRoot root).getD [] ++ [item])) rest

def groupLists (fuel : Nat) (set : DisjointSet K) : Option (List (List K) × DisjointSet K) := do
  let (byRoot, set) ← groupsLoop fuel set [] (set.parent.map Prod.fst)
  return (byRoot.map Prod.snd, set)

end DisjointSet

/-! ### Runs -/

inductive Op (K : Type) where
  | add (item : K)
  | find (item : K)
  | union (a b : K)
  | connected (a b : K)
  | groupSize (item : K)
  | groups

inductive Answer (K : Type) where
  | this
  | item (root : K)
  | bool (is : Bool)
  | number (count : Nat)
  | lists (groups : List (List K))

def perform (fuel : Nat) (set : DisjointSet K) : Op K → Option (Answer K × DisjointSet K)
  | .add item => some (.this, set.add item)
  | .find item => (set.find fuel item).map fun (root, set) => (.item root, set)
  | .union a b => (set.union fuel a b).map fun (is, set) => (.bool is, set)
  | .connected a b => (set.connected fuel a b).map fun (is, set) => (.bool is, set)
  | .groupSize item => (set.groupSize fuel item).map fun (count, set) => (.number count, set)
  | .groups => (set.groupLists fuel).map fun (lists, set) => (.lists lists, set)

/-- What each call answers and leaves behind. -/
def run (fuel : Nat) (set : DisjointSet K) : List (Op K) →
    Option (List (Answer K × DisjointSet K))
  | [] => some []
  | op :: ops => do
      let (answer, set) ← perform fuel set op
      let rest ← run fuel set ops
      return (answer, set) :: rest

/-! ### What is asked for -/

structure Past (K : Type) where
  items : List K
  unions : List (K × K)

namespace Past

def name (past : Past K) (item : K) : Past K :=
  if item ∈ past.items then past else { past with items := past.items ++ [item] }

def after (past : Past K) : Op K → Past K
  | .add item | .find item | .groupSize item => past.name item
  | .connected a b => (past.name a).name b
  | .union a b =>
      let both := (past.name a).name b
      { both with unions := (a, b) :: both.unions }
  | .groups => past

def Related (past : Past K) : K → K → Prop :=
  Relation.EqvGen fun a b => (a, b) ∈ past.unions

def Together (past : Past K) (item : K) (count : Nat) : Prop :=
  ∃ members : List K, members.Nodup ∧ members.length = count ∧
    ∀ other, other ∈ members ↔ other ∈ past.items ∧ past.Related item other

def Classes (past : Past K) (count : Nat) : Prop :=
  ∃ leaders : List K, leaders.Pairwise (fun a b => ¬past.Related a b) ∧ leaders.length = count ∧
    leaders ⊆ past.items ∧ ∀ item ∈ past.items, ∃ leader ∈ leaders, past.Related leader item

def Partition (past : Past K) (groups : List (List K)) : Prop :=
  groups.flatten.Perm past.items ∧ ∀ group ∈ groups, group ≠ [] ∧
    ∀ item ∈ group, ∀ other ∈ past.items, other ∈ group ↔ past.Related item other

def Answers (past : Past K) : Op K → Answer K → Prop
  | .add _, answer => answer = .this
  | .find item, answer => ∃ root, answer = .item root ∧ root ∈ (past.name item).items ∧
      past.Related item root
  | .union a b, answer => ∃ is, answer = .bool is ∧ (is = true ↔ ¬past.Related a b)
  | .connected a b, answer => ∃ is, answer = .bool is ∧ (is = true ↔ past.Related a b)
  | .groupSize item, answer => ∃ count, answer = .number count ∧
      (past.name item).Together item count
  | .groups, answer => ∃ groups, answer = .lists groups ∧ past.Partition groups

end Past

def Correct : Past K → List (Op K) → List (Answer K × DisjointSet K) → Prop
  | _, [], [] => True
  | past, op :: ops, (answer, set) :: rest =>
      past.Answers op answer ∧ (past.after op).Classes set.groups ∧
        set.parent.length = (past.after op).items.length ∧ Correct (past.after op) ops rest
  | _, _, _ => False

def Allowed (past : Past K) : Op K → Prop
  | .add _ => True
  | .find item | .groupSize item => HasNaN.isNaN item = false
  | .union a b | .connected a b => HasNaN.isNaN a = false ∧ HasNaN.isNaN b = false
  | .groups => ∀ item ∈ past.items, HasNaN.isNaN item = false

def AllAllowed : Past K → List (Op K) → Prop
  | _, [] => True
  | past, op :: ops => Allowed past op ∧ AllAllowed (past.after op) ops

/-! ### More time changes nothing -/

section

variable {set : DisjointSet K} {fuel : Nat}

theorem rootLoop_more {parent : List (K × K)} {item root : K}
    (found : DisjointSet.rootLoop parent fuel item = some root) :
    DisjointSet.rootLoop parent (fuel + 1) item = some root := by
  induction fuel generalizing item with
  | zero => cases found
  | succ fuel ih =>
      rw [DisjointSet.rootLoop] at found ⊢
      split at found
      · cases found
      · split at found
        next last => rw [if_pos last]; exact found
        next other => rw [if_neg other]; exact ih found

theorem flattenLoop_more {root : K} {parent after : List (K × K)} {place : K}
    (flat : DisjointSet.flattenLoop root fuel parent place = some after) :
    DisjointSet.flattenLoop root (fuel + 1) parent place = some after := by
  induction fuel generalizing parent place with
  | zero => cases flat
  | succ fuel ih =>
      rw [DisjointSet.flattenLoop] at flat ⊢
      split at flat
      · cases flat
      · split at flat
        next last => rw [if_pos last]; exact flat
        next other => rw [if_neg other]; exact ih flat

omit [DecidableEq K] [HasNaN K] in
theorem bind_more {A B : Type} {first second : Option A} {next next' : A → Option B} {result : B}
    (more : ∀ a, first = some a → second = some a)
    (goesOn : ∀ a, next a = some result → next' a = some result)
    (is : first.bind next = some result) : second.bind next' = some result := by
  obtain ⟨a, here, there⟩ := Option.bind_eq_some_iff.mp is
  exact Option.bind_eq_some_iff.mpr ⟨a, more a here, goesOn a there⟩

theorem find_more {item : K} {result : K × DisjointSet K}
    (found : set.find fuel item = some result) : set.find (fuel + 1) item = some result :=
  bind_more (fun _ => rootLoop_more)
    (fun _ => bind_more (fun _ => flattenLoop_more) fun _ => id) found

theorem groupsLoop_more {byRoot : List (K × List K)} {rest : List K}
    {result : List (K × List K) × DisjointSet K}
    (ran : DisjointSet.groupsLoop fuel set byRoot rest = some result) :
    DisjointSet.groupsLoop (fuel + 1) set byRoot rest = some result := by
  induction rest generalizing set byRoot with
  | nil => exact ran
  | cons item rest ih => exact bind_more (fun _ => find_more) (fun _ => ih) ran

omit [DecidableEq K] [HasNaN K] in
theorem map_more {A B : Type} {small large : Option A} {change : A → B} {result : B}
    (more : ∀ found, small = some found → large = some found)
    (done : small.map change = some result) : large.map change = some result := by
  obtain ⟨found, here, rfl⟩ := Option.map_eq_some_iff.mp done
  exact Option.map_eq_some_iff.mpr ⟨found, more found here, rfl⟩

theorem perform_more {op : Op K} {result : Answer K × DisjointSet K}
    (done : perform fuel set op = some result) : perform (fuel + 1) set op = some result := by
  cases op with
  | add item => exact done
  | find item => exact map_more (fun _ => find_more) done
  | union a b | connected a b =>
      exact map_more (fun _ => bind_more (fun _ => find_more)
        fun _ => bind_more (fun _ => find_more) fun _ => id) done
  | groupSize item =>
      exact map_more (fun _ => bind_more (fun _ => find_more) fun _ => id) done
  | groups => exact map_more (fun _ => bind_more (fun _ => groupsLoop_more) fun _ => id) done

theorem run_more {ops : List (Op K)} {steps : List (Answer K × DisjointSet K)} {more : Nat}
    (order : fuel ≤ more) (ran : run fuel set ops = some steps) :
    run more set ops = some steps := by
  induction order with
  | refl => exact ran
  | step _ ih =>
      clear ran
      induction ops generalizing set steps with
      | nil => exact ih
      | cons op ops next =>
          exact bind_more (fun _ => perform_more)
            (fun _ => bind_more (fun _ => next) fun _ => id) ih

end

/-! ### The forest -/

structure Represents (set : DisjointSet K) (past : Past K) (root : K → K) (height : K → Nat) :
    Prop where
  keys : set.parent.map Prod.fst = past.items
  nodup : past.items.Nodup
  above : ∀ item ∈ past.items, ∃ next ∈ past.items, lookup equal set.parent item = some next ∧
    root next = root item ∧ (next = item ∧ root item = item ∨ height next < height item)
  outside : ∀ item ∉ past.items, root item = item
  alone : ∀ item, HasNaN.isNaN item = true → root item = item
  number : ∀ item, HasNaN.isNaN item = false → HasNaN.isNaN (root item) = false
  sizes : ∀ item ∈ past.items, root item = item →
    lookup equal set.size item = some (past.items.countP fun other => root other = item)
  counted : set.groups = past.items.countP fun item => root item = item
  united : ∀ pair ∈ past.unions, root pair.1 = root pair.2
  related : ∀ item, past.Related item (root item)

section

variable {set : DisjointSet K} {past : Past K} {root : K → K} {height : K → Nat}

omit [HasNaN K] in
theorem mem_name {item other : K} :
    other ∈ (past.name item).items ↔ other ∈ past.items ∨ other = item := by
  unfold Past.name
  split
  next inside => exact ⟨.inl, fun either => either.elim id fun is => is ▸ inside⟩
  next => rw [List.mem_append, List.mem_singleton]

omit [DecidableEq K] [HasNaN K] in
theorem countP_either {items : List K} {p : K → Bool} (left right : K → Bool)
    (either : ∀ item ∈ items, p item = true ↔ left item = true ∨ right item = true)
    (apart : ∀ item ∈ items, left item = true → ¬right item = true) :
    items.countP p = items.countP left + items.countP right := by
  induction items with
  | nil => rfl
  | cons item items ih =>
      have here := either item List.mem_cons_self
      have differ := apart item List.mem_cons_self
      rw [List.countP_cons, List.countP_cons, List.countP_cons,
        ih (fun other there => either other (List.mem_cons_of_mem _ there))
          fun other there => apart other (List.mem_cons_of_mem _ there)]
      by_cases isLeft : left item = true
      · rw [if_pos isLeft, if_neg (differ isLeft), if_pos (here.mpr (.inl isLeft))]
        omega
      · by_cases isRight : right item = true
        · rw [if_neg isLeft, if_pos isRight, if_pos (here.mpr (.inr isRight))]
          omega
        · rw [if_neg isLeft, if_neg isRight, if_neg fun is => (here.mp is).elim isLeft isRight]
          omega

theorem strictEqual_root {left right : K} (number : HasNaN.isNaN right = false) :
    strictEqual left right = decide (left = right) := by
  rw [strictEqual, number, Bool.not_false, Bool.and_true]

namespace Represents

theorem root_spec (stands : Represents set past root height) {item : K}
    (inside : item ∈ past.items) :
    root item ∈ past.items ∧ root (root item) = root item ∧
      lookup equal set.parent (root item) = some (root item) ∧
      (root item = item ∨ height (root item) < height item) := by
  induction least : height item using Nat.strongRecOn generalizing item with
  | ind n ih =>
      obtain ⟨next, nextInside, points, same, ⟨rfl, is⟩ | lower⟩ := stands.above item inside
      · rw [is]
        exact ⟨inside, is, points, .inl rfl⟩
      · obtain ⟨rootInside, fixed, loops, order⟩ := ih _ (least ▸ lower) nextInside rfl
        rw [same] at rootInside fixed loops order
        refine ⟨rootInside, fixed, loops, .inr ?_⟩
        rcases order with is | below
        · rw [is]
          omega
        · omega

theorem related_iff (stands : Represents set past root height) {a b : K} :
    past.Related a b ↔ root a = root b := by
  constructor
  · intro related
    induction related with
    | rel a b united => exact stands.united _ united
    | refl a => rfl
    | symm a b _ ih => exact ih.symm
    | trans a b c _ _ first second => exact first.trans second
  · intro same
    have back := (stands.related b).symm
    rw [← same] at back
    exact (stands.related a).trans _ _ _ back

/-! ### Adding -/

theorem add (stands : Represents set past root height) (item : K) :
    Represents (set.add item) (past.name item) root height := by
  unfold DisjointSet.add Past.name
  by_cases inside : item ∈ past.items
  · rw [if_pos (mem_keys_iff.mp (stands.keys ▸ inside)), if_pos inside]
    exact stands
  have absent : item ∉ set.parent.map Prod.fst := stands.keys ▸ inside
  have itself := stands.outside item inside
  rw [if_neg fun found => absent (mem_keys_iff.mpr found), if_neg inside]
  have rootsInside : ∀ other ∈ past.items, root other ≠ item :=
    fun other there is => inside (is ▸ (stands.root_spec there).1)
  constructor
  case keys => rw [keys_put, if_neg absent, stands.keys]
  case nodup =>
    rw [← List.concat_eq_append]
    exact List.Nodup.concat inside stands.nodup
  case above =>
    intro other there
    rw [lookup_put_equal]
    rcases List.mem_append.mp there with old | new
    · obtain ⟨next, nextInside, points, rest⟩ := stands.above other old
      refine ⟨next, List.mem_append_left _ nextInside, ?_, rest⟩
      rw [Function.update_of_ne (ne_of_mem_of_not_mem old inside), points]
    · obtain rfl := List.mem_singleton.mp new
      exact ⟨other, there, Function.update_self _ _ _, rfl, .inl ⟨rfl, itself⟩⟩
  case outside =>
    exact fun other away => stands.outside other fun there => away (List.mem_append_left _ there)
  case alone => exact stands.alone
  case number => exact stands.number
  case sizes =>
    intro other there fixed
    rw [lookup_put_equal, List.countP_append, List.countP_singleton]
    rcases List.mem_append.mp there with old | new
    · have apart := ne_of_mem_of_not_mem old inside
      rw [Function.update_of_ne apart, stands.sizes other old fixed, if_neg]
      · rfl
      · rw [decide_eq_true_iff, itself]
        exact apart.symm
    · obtain rfl := List.mem_singleton.mp new
      rw [Function.update_self, if_pos (decide_eq_true itself), List.countP_eq_zero.mpr]
      intro one old is
      exact rootsInside one old (of_decide_eq_true is)
  case counted =>
    rw [List.countP_append, List.countP_singleton, if_pos (decide_eq_true itself), stands.counted]
  case united => exact stands.united
  case related => exact stands.related

/-! ### Finding -/

theorem rootLoop_eq (stands : Represents set past root height) {item : K}
    (inside : item ∈ past.items) (number : HasNaN.isNaN (root item) = false) {fuel : Nat}
    (enough : height item < fuel) :
    DisjointSet.rootLoop set.parent fuel item = some (root item) := by
  induction fuel generalizing item with
  | zero => omega
  | succ fuel ih =>
      obtain ⟨next, nextInside, points, same, ⟨rfl, is⟩ | lower⟩ := stands.above item inside
      · rw [is] at number ⊢
        rw [DisjointSet.rootLoop, points]
        exact if_pos (strictEqual_iff.mpr ⟨rfl, number⟩)
      · have goesOn := ih nextInside (same ▸ number) (by omega)
        rw [same] at goesOn
        rw [DisjointSet.rootLoop, points, ← goesOn]
        refine if_neg fun is => ?_
        rw [(strictEqual_iff.mp is).1] at lower
        omega

theorem point (stands : Represents set past root height) {item : K} (inside : item ∈ past.items)
    (below : height (root item) < height item) :
    Represents { set with parent := put equal set.parent item (root item) } past root height where
  keys := by
    rw [keys_put, if_pos (stands.keys ▸ inside), stands.keys]
  nodup := stands.nodup
  above other there := by
    rw [lookup_put_equal]
    by_cases is : other = item
    · obtain ⟨rootInside, fixed, -⟩ := stands.root_spec inside
      rw [is, Function.update_self]
      exact ⟨root item, rootInside, rfl, fixed, .inr below⟩
    · rw [Function.update_of_ne is]
      exact stands.above other there
  outside := stands.outside
  alone := stands.alone
  number := stands.number
  sizes := stands.sizes
  counted := stands.counted
  united := stands.united
  related := stands.related

theorem flattenLoop_spec (stands : Represents set past root height) {item : K}
    (inside : item ∈ past.items) (number : HasNaN.isNaN (root item) = false) :
    ∃ parent, (∀ fuel > height item,
        DisjointSet.flattenLoop (root item) fuel set.parent item = some parent) ∧
      Represents { set with parent := parent } past root height := by
  induction least : height item using Nat.strongRecOn generalizing item set with
  | ind n ih =>
      obtain ⟨next, nextInside, points, same, order⟩ := stands.above item inside
      by_cases last : next = root item
      · refine ⟨set.parent, fun fuel enough => ?_, stands⟩
        obtain ⟨fuel, rfl⟩ := Nat.exists_eq_add_of_lt enough
        rw [DisjointSet.flattenLoop, points]
        exact if_pos (strictEqual_iff.mpr ⟨last, number⟩)
      · have lower : height next < height item :=
          order.resolve_left fun ⟨is, fixed⟩ => last (is.trans fixed.symm)
        have below : height (root item) < height item := by
          rcases (stands.root_spec nextInside).2.2.2 with is | under
          · exact absurd (is.symm.trans same) last
          · rw [same] at under
            omega
        have pointed := stands.point inside below
        obtain ⟨parent, flat, after⟩ := ih _ (least ▸ lower) pointed nextInside (same ▸ number) rfl
        refine ⟨parent, fun fuel enough => ?_, after⟩
        obtain ⟨fuel, rfl⟩ := Nat.exists_eq_add_of_lt enough
        rw [DisjointSet.flattenLoop, points]
        rw [same] at flat
        exact (if_neg fun is => last (strictEqual_iff.mp is).1).trans (flat _ (by omega))

theorem find_spec (stands : Represents set past root height) {item : K}
    (number : HasNaN.isNaN item = false) :
    ∃ after, (∀ fuel > height item, set.find fuel item = some (root item, after)) ∧
      Represents after (past.name item) root height := by
  have added := stands.add item
  have inside : item ∈ (past.name item).items := mem_name.mpr (.inr rfl)
  have rootNumber := stands.number item number
  obtain ⟨parent, flat, after⟩ := added.flattenLoop_spec inside rootNumber
  refine ⟨_, fun fuel enough => ?_, after⟩
  unfold DisjointSet.find
  dsimp only
  rw [added.rootLoop_eq inside rootNumber enough]
  dsimp only [Option.bind_eq_bind, Option.bind_some]
  rw [flat fuel enough]
  rfl

theorem find_stuck (stands : Represents set past root height) {item : K}
    (odd : HasNaN.isNaN item = true) (fuel : Nat) : set.find fuel item = none := by
  have inside : item ∈ (past.name item).items := mem_name.mpr (.inr rfl)
  have loops := ((stands.add item).root_spec inside).2.2.1
  rw [stands.alone item odd] at loops
  have never : DisjointSet.rootLoop (set.add item).parent fuel item = none := by
    induction fuel with
    | zero => rfl
    | succ fuel ih =>
        rw [DisjointSet.rootLoop, loops, ← ih]
        refine if_neg fun is => ?_
        rw [(strictEqual_iff.mp is).2] at odd
        cases odd
  unfold DisjointSet.find
  dsimp only
  rw [never]
  rfl

/-! ### Uniting -/

theorem join (stands : Represents set past root height) {a b small big : K}
    (sides : root a = small ∧ root b = big ∨ root a = big ∧ root b = small)
    (smallInside : small ∈ past.items) (bigInside : big ∈ past.items) (apart : small ≠ big)
    (smallNumber : HasNaN.isNaN small = false) (bigNumber : HasNaN.isNaN big = false)
    (smallFixed : root small = small) (bigFixed : root big = big) :
    Represents
      { parent := put equal set.parent small big
        size := put equal set.size big ((past.items.countP fun other => root other = small) +
          past.items.countP fun other => root other = big)
        groups := set.groups - 1 }
      { past with unions := (a, b) :: past.unions }
      (fun item => if root item = small then big else root item)
      (fun item => if root item = small then height item + height big + 1 else height item) := by
  constructor
  case keys =>
    rw [keys_put, if_pos (stands.keys ▸ smallInside), stands.keys]
  case nodup => exact stands.nodup
  case above =>
    intro item inside
    rw [lookup_put_equal]
    by_cases isSmall : item = small
    · subst isSmall
      refine ⟨big, bigInside, Function.update_self _ _ _, ?_, .inr ?_⟩
      · rw [smallFixed, bigFixed, if_neg apart.symm, if_pos rfl]
      · rw [smallFixed, bigFixed, if_neg apart.symm, if_pos rfl]
        omega
    · obtain ⟨next, nextInside, points, same, order⟩ := stands.above item inside
      refine ⟨next, nextInside, ?_, by rw [same], ?_⟩
      · rw [Function.update_of_ne isSmall, points]
      · rw [same]
        rcases order with ⟨is, fixed⟩ | lower
        · rw [if_neg (by rw [fixed]; exact isSmall)]
          exact .inl ⟨is, fixed⟩
        · right
          split <;> omega
  case outside =>
    intro item away
    have fixed := stands.outside item away
    rw [fixed, if_neg]
    rintro rfl
    exact away smallInside
  case alone =>
    intro item odd
    have fixed := stands.alone item odd
    rw [fixed, if_neg]
    rintro rfl
    rw [smallNumber] at odd
    cases odd
  case number =>
    intro item number
    split
    · exact bigNumber
    · exact stands.number item number
  case sizes =>
    intro item inside fixed
    have own : root item = item := by
      split at fixed
      next is => exact absurd (is.symm.trans (fixed ▸ bigFixed)) (fixed ▸ apart)
      next => exact fixed
    have notSmall : item ≠ small := by
      rintro rfl
      rw [if_pos own] at fixed
      exact apart fixed.symm
    rw [lookup_put_equal]
    by_cases isBig : item = big
    · rw [isBig, Function.update_self, Option.some_inj]
      refine (countP_either _ _ (fun other _ => ?_) fun other _ is => ?_).symm
      · rw [decide_eq_true_iff, decide_eq_true_iff, decide_eq_true_iff]
        by_cases under : root other = small
        · rw [if_pos under]
          exact iff_of_true rfl (.inl under)
        · rw [if_neg under, or_iff_right under]
      · rw [decide_eq_true_iff] at is ⊢
        rw [is]
        exact apart
    · rw [Function.update_of_ne isBig, stands.sizes item inside own, Option.some_inj]
      refine List.countP_congr fun other _ => ?_
      rw [decide_eq_true_iff, decide_eq_true_iff]
      by_cases under : root other = small
      · rw [if_pos under, under]
        exact iff_of_false notSmall.symm (Ne.symm isBig)
      · rw [if_neg under]
  case counted =>
    have once : past.items.countP (fun item => item = small) = 1 :=
      (List.count_eq_one_of_mem stands.nodup smallInside :)
    have split := @countP_either K past.items (fun item => root item = item)
      (fun item => item = small)
      (fun item => (if root item = small then big else root item) = item)
      (fun item _ => ?_) fun item _ is => ?_
    · rw [stands.counted, split, once, Nat.add_sub_cancel_left]
    · rw [decide_eq_true_iff, decide_eq_true_iff, decide_eq_true_iff]
      by_cases isSmall : item = small
      · rw [isSmall]
        exact iff_of_true smallFixed (.inl rfl)
      · rw [or_iff_right isSmall]
        by_cases under : root item = small
        · rw [if_pos under, under]
          refine iff_of_false (Ne.symm isSmall) ?_
          rintro rfl
          exact apart (under.symm.trans bigFixed)
        · rw [if_neg under]
    · rw [decide_eq_true_iff] at is ⊢
      rw [is, if_pos smallFixed]
      exact apart.symm
  case united =>
    intro pair member
    rcases List.mem_cons.mp member with rfl | old
    · rcases sides with ⟨left, right⟩ | ⟨left, right⟩
      · rw [left, right, if_pos rfl, if_neg apart.symm]
      · rw [left, right, if_pos rfl, if_neg apart.symm]
    · rw [stands.united pair old]
  case related =>
    intro item
    have old : ∀ {x y}, past.Related x y →
        Relation.EqvGen (fun x y => (x, y) ∈ (a, b) :: past.unions) x y := fun related =>
      Relation.EqvGen.mono (fun _ _ member => List.mem_cons_of_mem _ member) _ _ related
    have new : Relation.EqvGen (fun x y => (x, y) ∈ (a, b) :: past.unions) a b :=
      .rel _ _ List.mem_cons_self
    change Relation.EqvGen _ _ _
    split
    next is =>
      have up := old (stands.related item)
      rw [is] at up
      refine up.trans _ _ _ ?_
      have first := old (stands.related a)
      have second := old (stands.related b)
      rcases sides with ⟨left, right⟩ | ⟨left, right⟩
      · rw [left] at first
        rw [right] at second
        exact (first.symm.trans _ _ _ new).trans _ _ _ second
      · rw [left] at first
        rw [right] at second
        exact (second.symm.trans _ _ _ new.symm).trans _ _ _ first
    next => exact old (stands.related item)

theorem union_spec (stands : Represents set past root height) {a b : K}
    (numberA : HasNaN.isNaN a = false) (numberB : HasNaN.isNaN b = false) :
    ∃ after newRoot newHeight,
      (∀ fuel > max (height a) (height b),
        set.union fuel a b = some (decide (root a ≠ root b), after)) ∧
      Represents after (past.after (.union a b)) newRoot newHeight := by
  obtain ⟨first, foundA, one⟩ := stands.find_spec numberA
  obtain ⟨second, foundB, two⟩ := one.find_spec numberB
  have rootNumberA := stands.number a numberA
  have rootNumberB := stands.number b numberB
  have insideA : a ∈ ((past.name a).name b).items := mem_name.mpr (.inl (mem_name.mpr (.inr rfl)))
  have insideB : b ∈ ((past.name a).name b).items := mem_name.mpr (.inr rfl)
  obtain ⟨rootInA, fixedA, -⟩ := two.root_spec insideA
  obtain ⟨rootInB, fixedB, -⟩ := two.root_spec insideB
  have sizeA := two.sizes _ rootInA fixedA
  have sizeB := two.sizes _ rootInB fixedB
  by_cases same : root a = root b
  · refine ⟨second, root, height, fun fuel enough => ?_, ?_⟩
    · unfold DisjointSet.union
      rw [foundA fuel (by omega), decide_eq_false (not_not.mpr same)]
      dsimp only [Option.bind_eq_bind, Option.bind_some]
      rw [foundB fuel (by omega)]
      exact if_pos (strictEqual_iff.mpr ⟨same, rootNumberB⟩)
    · exact { two with
        united := fun pair member => by
          rcases List.mem_cons.mp member with rfl | old
          · exact same
          · exact two.united pair old
        related := fun item =>
          Relation.EqvGen.mono (fun _ _ member => List.mem_cons_of_mem _ member) _ _
            (two.related item) }
  · have turns : ∀ fuel > max (height a) (height b), set.union fuel a b = some (true,
        let (big, small) :=
          if (lookup equal second.size (root b)).getD 0 ≤ (lookup equal second.size (root a)).getD 0
          then (root a, root b) else (root b, root a)
        { parent := put equal second.parent small big
          size := put equal second.size big ((lookup equal second.size (root a)).getD 0 +
            (lookup equal second.size (root b)).getD 0)
          groups := second.groups - 1 }) := by
      intro fuel enough
      unfold DisjointSet.union
      rw [foundA fuel (by omega)]
      dsimp only [Option.bind_eq_bind, Option.bind_some]
      rw [foundB fuel (by omega)]
      exact if_neg fun is => same (strictEqual_iff.mp is).1
    rw [sizeA, sizeB, Option.getD_some, Option.getD_some] at turns
    rw [decide_eq_true same]
    by_cases order : ((past.name a).name b).items.countP (fun other => root other = root b) ≤
        ((past.name a).name b).items.countP fun other => root other = root a
    · simp only [if_pos order] at turns
      have joined := two.join (.inr ⟨rfl, rfl⟩) rootInB rootInA (Ne.symm same) rootNumberB
        rootNumberA fixedB fixedA
      rw [Nat.add_comm] at joined
      exact ⟨_, _, _, turns, joined⟩
    · simp only [if_neg order] at turns
      exact ⟨_, _, _, turns, two.join (.inl ⟨rfl, rfl⟩) rootInA rootInB same rootNumberA
        rootNumberB fixedA fixedB⟩

end Represents

/-! ### The groups -/

omit [HasNaN K] in
theorem flatten_put (items : List (K × List K)) (key item : K) :
    ((put equal items key ((lookup equal items key).getD [] ++ [item])).map
      Prod.snd).flatten.Perm ((items.map Prod.snd).flatten ++ [item]) := by
  induction items with
  | nil => exact List.Perm.refl _
  | cons head rest ih =>
      obtain ⟨held, group⟩ := head
      unfold put lookup
      by_cases here : equal held key = true
      · rw [if_pos here, if_pos here]
        simp only [Option.getD_some, List.map_cons, List.flatten_cons, List.append_assoc]
        exact (List.perm_append_comm).append_left group
      · rw [if_neg here, if_neg here]
        simp only [List.map_cons, List.flatten_cons, List.append_assoc]
        exact ih.append_left group

structure Gathered (root : K → K) (done : List K) (byRoot : List (K × List K)) : Prop where
  distinct : Distinct equal byRoot
  all : (byRoot.map Prod.snd).flatten.Perm done
  group : ∀ leader members, lookup equal byRoot leader = some members →
    members ≠ [] ∧ ∀ item, item ∈ members ↔ item ∈ done ∧ root item = leader
  none : ∀ leader, lookup equal byRoot leader = none → ∀ item ∈ done, root item ≠ leader

omit [HasNaN K] in
theorem Gathered.add {done : List K} {byRoot : List (K × List K)}
    (gathered : Gathered root done byRoot) (item : K) :
    Gathered root (done ++ [item]) (put equal byRoot (root item)
      ((lookup equal byRoot (root item)).getD [] ++ [item])) where
  distinct := gathered.distinct.put _ _
  all := (flatten_put byRoot (root item) item).trans (gathered.all.append_right [item])
  group leader members found := by
    rw [lookup_put_equal] at found
    by_cases here : leader = root item
    · rw [here, Function.update_self, Option.some_inj] at found
      rw [← found]
      refine ⟨List.append_ne_nil_of_right_ne_nil _ (List.cons_ne_nil _ _), fun other => ?_⟩
      rw [List.mem_append, List.mem_append, List.mem_singleton]
      cases held : lookup equal byRoot (root item) with
      | none =>
          have before := gathered.none _ held other
          grind
      | some members =>
          have before := (gathered.group _ _ held).2 other
          grind
    · rw [Function.update_of_ne here] at found
      obtain ⟨nonempty, are⟩ := gathered.group leader members found
      refine ⟨nonempty, fun other => ?_⟩
      rw [are, List.mem_append, List.mem_singleton]
      grind
  none leader found other there := by
    rw [lookup_put_equal] at found
    by_cases here : leader = root item
    · rw [here, Function.update_self] at found
      cases found
    · rw [Function.update_of_ne here] at found
      rcases List.mem_append.mp there with old | new
      · exact gathered.none leader found other old
      · rw [List.mem_singleton.mp new]
        exact Ne.symm here

theorem Represents.groupsLoop_spec (stands : Represents set past root height) {done rest : List K}
    {byRoot : List (K × List K)} (inside : ∀ item ∈ rest, item ∈ past.items)
    (number : ∀ item ∈ rest, HasNaN.isNaN item = false) (gathered : Gathered root done byRoot) :
    ∃ found after, (∀ fuel, (∀ item ∈ rest, height item < fuel) →
        DisjointSet.groupsLoop fuel set byRoot rest = some (found, after)) ∧
      Gathered root (done ++ rest) found ∧ Represents after past root height := by
  induction rest generalizing set done byRoot with
  | nil =>
      rw [List.append_nil]
      exact ⟨byRoot, set, fun _ _ => rfl, gathered, stands⟩
  | cons item rest ih =>
      have here := inside item List.mem_cons_self
      obtain ⟨after, looked, found⟩ := stands.find_spec (number item List.mem_cons_self)
      have same : past.name item = past := if_pos here
      rw [same] at found
      obtain ⟨final, last, loops, gatheredLast, standsLast⟩ := ih found
        (fun other there => inside other (List.mem_cons_of_mem _ there))
        (fun other there => number other (List.mem_cons_of_mem _ there)) (gathered.add item)
      rw [List.append_assoc] at gatheredLast
      refine ⟨final, last, fun fuel enough => ?_, gatheredLast, standsLast⟩
      rw [DisjointSet.groupsLoop, looked fuel (enough item List.mem_cons_self)]
      exact loops fuel fun other there => enough other (List.mem_cons_of_mem _ there)

theorem Represents.groupsLoop_stuck (stands : Represents set past root height) {rest : List K}
    {byRoot : List (K × List K)} (inside : ∀ item ∈ rest, item ∈ past.items)
    (odd : ∃ item ∈ rest, HasNaN.isNaN item = true) {fuel : Nat}
    (enough : ∀ item ∈ rest, height item < fuel) :
    DisjointSet.groupsLoop fuel set byRoot rest = none := by
  induction rest generalizing set byRoot with
  | nil => exact absurd odd (by simp)
  | cons item rest ih =>
      rw [DisjointSet.groupsLoop]
      cases here : HasNaN.isNaN item with
      | true =>
          rw [stands.find_stuck here]
          rfl
      | false =>
          obtain ⟨after, looked, found⟩ := stands.find_spec here
          have same : past.name item = past := if_pos (inside item List.mem_cons_self)
          rw [same] at found
          rw [looked fuel (enough item List.mem_cons_self)]
          refine ih found (fun other there => inside other (List.mem_cons_of_mem _ there)) ?_
            fun other there => enough other (List.mem_cons_of_mem _ there)
          obtain ⟨other, there, is⟩ := odd
          rcases List.mem_cons.mp there with rfl | behind
          · rw [here] at is
            cases is
          · exact ⟨other, behind, is⟩

theorem Represents.partition (stands : Represents set past root height)
    {byRoot : List (K × List K)} (gathered : Gathered root past.items byRoot) :
    past.Partition (byRoot.map Prod.snd) := by
  refine ⟨gathered.all, fun group member => ?_⟩
  obtain ⟨⟨leader, members⟩, held, rfl⟩ := List.mem_map.mp member
  obtain ⟨nonempty, are⟩ := gathered.group leader members
    ((lookup_some_iff gathered.distinct).mpr held)
  refine ⟨nonempty, fun item there other inside => ?_⟩
  rw [are, stands.related_iff, ((are item).mp there).2, and_iff_right inside, eq_comm]

/-! ### Every run -/

theorem Represents.classes (stands : Represents set past root height) :
    past.Classes set.groups := by
  refine ⟨past.items.filter fun item => root item = item, ?_, ?_, List.filter_subset_self _, ?_⟩
  · refine (stands.nodup.filter _).pairwise_of_forall_ne fun a inA b inB differ related => ?_
    have fixedA := of_decide_eq_true (List.mem_filter.mp inA).2
    have fixedB := of_decide_eq_true (List.mem_filter.mp inB).2
    exact differ (fixedA.symm.trans ((stands.related_iff.mp related).trans fixedB))
  · rw [stands.counted, List.countP_eq_length_filter]
  · intro item inside
    obtain ⟨rootInside, fixed, -⟩ := stands.root_spec inside
    exact ⟨root item, List.mem_filter.mpr ⟨rootInside, decide_eq_true fixed⟩,
      stands.related_iff.mpr fixed⟩

theorem Represents.together (stands : Represents set past root height) {item : K}
    (inside : item ∈ past.items) :
    past.Together item ((lookup equal set.size (root item)).getD 0) := by
  obtain ⟨rootInside, fixed, -⟩ := stands.root_spec inside
  rw [stands.sizes _ rootInside fixed]
  refine ⟨past.items.filter fun other => root other = root item, stands.nodup.filter _, ?_, ?_⟩
  · rw [Option.getD_some, List.countP_eq_length_filter]
  · intro other
    rw [List.mem_filter, decide_eq_true_iff, stands.related_iff, eq_comm (a := root item)]

omit [DecidableEq K] [HasNaN K] in
theorem exists_above (height : K → Nat) (items : List K) :
    ∃ bound, ∀ item ∈ items, height item < bound := by
  induction items with
  | nil => exact ⟨0, fun item there => absurd there List.not_mem_nil⟩
  | cons item items ih =>
      obtain ⟨bound, above⟩ := ih
      refine ⟨max bound (height item + 1), fun other there => ?_⟩
      rcases List.mem_cons.mp there with rfl | behind
      · omega
      · have under := above other behind
        omega

theorem Represents.perform_spec (stands : Represents set past root height) {op : Op K}
    (allowed : Allowed past op) :
    ∃ answer after newRoot newHeight enough,
      (∀ fuel ≥ enough, perform fuel set op = some (answer, after)) ∧
      past.Answers op answer ∧ Represents after (past.after op) newRoot newHeight := by
  cases op with
  | add item => exact ⟨_, _, root, height, 0, fun _ _ => rfl, rfl, stands.add item⟩
  | find item =>
      obtain ⟨after, looked, found⟩ := stands.find_spec allowed
      have inside : item ∈ (past.name item).items := mem_name.mpr (.inr rfl)
      refine ⟨_, after, root, height, height item + 1, fun fuel enough => ?_,
        ⟨root item, rfl, (found.root_spec inside).1, stands.related item⟩, found⟩
      rw [perform, looked fuel enough]
      rfl
  | union a b =>
      obtain ⟨after, newRoot, newHeight, united, found⟩ := stands.union_spec allowed.1 allowed.2
      refine ⟨.bool (decide (root a ≠ root b)), after, newRoot, newHeight,
        max (height a) (height b) + 1, fun fuel enough => ?_, ⟨_, rfl, ?_⟩, found⟩
      · rw [perform, united fuel enough]
        rfl
      · rw [decide_eq_true_iff, stands.related_iff]
  | connected a b =>
      obtain ⟨first, foundA, one⟩ := stands.find_spec allowed.1
      obtain ⟨second, foundB, two⟩ := one.find_spec allowed.2
      refine ⟨.bool (strictEqual (root a) (root b)), second, root, height,
        max (height a) (height b) + 1, fun fuel enough => ?_, ⟨_, rfl, ?_⟩, two⟩
      · rw [perform, DisjointSet.connected, foundA fuel (by omega)]
        dsimp only [Option.bind_eq_bind, Option.bind_some]
        rw [foundB fuel (by omega)]
        rfl
      · rw [strictEqual_root (stands.number b allowed.2), decide_eq_true_iff, stands.related_iff]
  | groupSize item =>
      obtain ⟨after, looked, found⟩ := stands.find_spec allowed
      have inside : item ∈ (past.name item).items := mem_name.mpr (.inr rfl)
      refine ⟨_, after, root, height, height item + 1, fun fuel enough => ?_,
        ⟨_, rfl, found.together inside⟩, found⟩
      rw [perform, DisjointSet.groupSize, looked fuel enough]
      rfl
  | groups =>
      have start : Gathered root ([] : List K) [] :=
        ⟨List.Pairwise.nil, List.Perm.refl _, fun _ _ is => (nomatch is),
          fun _ _ _ there => absurd there List.not_mem_nil⟩
      obtain ⟨byRoot, after, loops, gathered, found⟩ :=
        stands.groupsLoop_spec (fun _ there => there) allowed start
      obtain ⟨bound, above⟩ := exists_above height past.items
      refine ⟨_, after, root, height, bound, fun fuel enough => ?_,
        ⟨_, rfl, found.partition gathered⟩, found⟩
      rw [perform, DisjointSet.groupLists, stands.keys, loops fuel fun item there =>
        Nat.lt_of_lt_of_le (above item there) enough]
      rfl

theorem Represents.perform_stuck (stands : Represents set past root height) {op : Op K}
    (not : ¬Allowed past op) : ∃ enough, ∀ fuel ≥ enough, perform fuel set op = none := by
  have two {a b : K} {A : Type} (next : K × DisjointSet K → K × DisjointSet K → Option A)
      (odd : ¬(HasNaN.isNaN a = false ∧ HasNaN.isNaN b = false)) :
      ∀ fuel > height a, ((set.find fuel a).bind fun first =>
        (first.2.find fuel b).bind fun second => next first second) = none := by
    intro fuel enough
    cases here : HasNaN.isNaN a with
    | true => rw [stands.find_stuck here, Option.bind_none]
    | false =>
        obtain ⟨after, looked, found⟩ := stands.find_spec here
        rw [looked fuel enough, Option.bind_some, found.find_stuck, Option.bind_none]
        rw [← Bool.not_eq_false]
        exact fun is => odd ⟨here, is⟩
  cases op with
  | add item => exact absurd trivial not
  | find item =>
      refine ⟨0, fun fuel _ => ?_⟩
      rw [perform, stands.find_stuck (Bool.not_eq_false _ ▸ not)]
      rfl
  | union a b =>
      exact ⟨height a + 1, fun fuel enough => Option.map_eq_none_iff.mpr (two _ not fuel enough)⟩
  | connected a b =>
      exact ⟨height a + 1, fun fuel enough => Option.map_eq_none_iff.mpr (two _ not fuel enough)⟩
  | groupSize item =>
      refine ⟨0, fun fuel _ => ?_⟩
      rw [perform, DisjointSet.groupSize, stands.find_stuck (Bool.not_eq_false _ ▸ not)]
      rfl
  | groups =>
      obtain ⟨bound, above⟩ := exists_above height past.items
      have odd : ∃ item ∈ past.items, HasNaN.isNaN item = true := by
        simpa only [Allowed, not_forall, exists_prop, Bool.not_eq_false] using not
      refine ⟨bound, fun fuel enough => ?_⟩
      rw [perform, DisjointSet.groupLists, stands.keys, stands.groupsLoop_stuck
        (fun _ there => there) odd fun item there => Nat.lt_of_lt_of_le (above item there) enough]
      rfl

theorem Represents.run_spec (stands : Represents set past root height) (ops : List (Op K)) :
    (∃ fuel steps, run fuel set ops = some steps ∧ Correct past ops steps) ↔
      AllAllowed past ops := by
  induction ops generalizing set past root height with
  | nil => exact iff_of_true ⟨0, [], rfl, trivial⟩ trivial
  | cons op ops ih =>
      constructor
      · rintro ⟨fuel, steps, ran, correct⟩
        by_cases allowed : Allowed past op
        · obtain ⟨answer, after, newRoot, newHeight, enough, comes, answers, found⟩ :=
            stands.perform_spec allowed
          have later := run_more (Nat.le_max_left fuel enough) ran
          rw [run, comes _ (Nat.le_max_right fuel enough)] at later
          dsimp only [Option.bind_eq_bind, Option.bind_some] at later
          obtain ⟨rest, goesOn, is⟩ := Option.bind_eq_some_iff.mp later
          cases is
          exact ⟨allowed, (ih found).mp ⟨_, rest, goesOn, correct.2.2.2⟩⟩
        · obtain ⟨enough, stuck⟩ := stands.perform_stuck allowed
          have later := run_more (Nat.le_max_left fuel enough) ran
          rw [run, stuck _ (Nat.le_max_right fuel enough)] at later
          cases later
      · rintro ⟨allowed, rest⟩
        obtain ⟨answer, after, newRoot, newHeight, enough, comes, answers, found⟩ :=
          stands.perform_spec allowed
        obtain ⟨fuel, steps, ran, correct⟩ := (ih found).mpr rest
        refine ⟨max fuel enough, (answer, after) :: steps, ?_, answers, found.classes, ?_, correct⟩
        · rw [run, comes _ (Nat.le_max_right fuel enough)]
          dsimp only [Option.bind_eq_bind, Option.bind_some]
          rw [run_more (Nat.le_max_left fuel enough) ran]
          rfl
        · rw [← found.keys, List.length_map]

end

theorem empty_represents :
    Represents (K := K) .empty { items := [], unions := [] } id fun _ => 0 where
  keys := rfl
  nodup := List.nodup_nil
  above _ there := absurd there List.not_mem_nil
  outside _ _ := rfl
  alone _ _ := rfl
  number _ number := number
  sizes _ there := absurd there List.not_mem_nil
  counted := rfl
  united _ there := absurd there List.not_mem_nil
  related item := .refl item

/-- A set of groups keeps a partition, in every run in which nothing looks for NaN; a run in which
something does never ends. -/
theorem disjointSet_partition_iff (ops : List (Op K)) :
    (∃ fuel steps, run fuel .empty ops = some steps ∧
        Correct { items := [], unions := [] } ops steps) ↔
      AllAllowed { items := [], unions := [] } ops :=
  empty_represents.run_spec ops

inductive Sample where
  | one
  | nan
  deriving DecidableEq

instance : HasNaN Sample where
  isNaN key := decide (key = .nan)

/-- `new DisjointSet().find(NaN)` -/
theorem find_endless :
    ¬∀ (K : Type) [DecidableEq K] [HasNaN K] (ops : List (Op K)),
      ∃ fuel steps, run fuel .empty ops = some steps ∧
        Correct { items := [], unions := [] } ops steps := by
  intro all
  have allowed := (empty_represents.run_spec [.find Sample.nan]).mp (all Sample _)
  exact Bool.noConfusion allowed.1

end CScript.Disjoint
