/-
The priority queue of std:collections, a binary heap in an array.
-/

import CScript.Foundation.BinaryHeap
import CScript.Foundation.Refinement
import CScript.Library.Compare

namespace CScript.PriorityQueue

open BinaryHeap Foundation

variable {V : Type} (compare : V → V → Int)

/-- Whether the first of two elements compares less. -/
def less (items : Array V) (a b : Nat) : Bool :=
  match items[a]?, items[b]? with
  | some left, some right => decide (compare left right < 0)
  | _, _ => false

def swap (items : Array V) (a b : Nat) : Array V :=
  items.swapIfInBounds a b

/-- The loop of `push`. -/
def siftUp (items : Array V) (place : Nat) : Array V :=
  if h : 0 < place then
    if less compare items place (parent place) then
      have := parent_lt h
      siftUp (swap items place (parent place)) (parent place)
    else items
  else items
termination_by place

def push (items : Array V) (value : V) : Array V :=
  siftUp compare (items.push value) items.size

def smallest (items : Array V) (place : Nat) : Nat :=
  let left := place * 2 + 1
  let right := left + 1
  let smallest := if less compare items left place then left else place
  if less compare items right smallest then right else smallest

variable {compare}

theorem less_iff {items : Array V} {a b : Nat} : less compare items a b = true ↔
    ∃ left right, items[a]? = some left ∧ items[b]? = some right ∧ compare left right < 0 := by
  unfold less
  cases items[a]? <;> cases items[b]? <;> simp

theorem less_lt {items : Array V} {a b : Nat} (lt : less compare items a b = true) :
    a < items.size := by
  obtain ⟨left, _, found, _⟩ := less_iff.mp lt
  exact (Array.getElem?_eq_some_iff.mp found).1

/-- An element that does not stay goes to a place behind. -/
theorem smallest_cases (items : Array V) (place : Nat) : smallest compare items place = place ∨
    place < smallest compare items place ∧ smallest compare items place < items.size := by
  unfold smallest
  dsimp only
  by_cases left : less compare items (place * 2 + 1) place = true
  · rw [if_pos left]
    split
    · rename_i right
      exact .inr ⟨by omega, less_lt right⟩
    · exact .inr ⟨by omega, less_lt left⟩
  · rw [if_neg left]
    split
    · rename_i right
      exact .inr ⟨by omega, less_lt right⟩
    · exact .inl rfl

variable (compare)

/-- The loop of `pop`. -/
def siftDown (items : Array V) (place : Nat) : Array V :=
  if h : smallest compare items place = place then items
  else
    have := (smallest_cases items place).resolve_left h
    have : (swap items place (smallest compare items place)).size = items.size :=
      Array.size_swapIfInBounds
    siftDown (swap items place (smallest compare items place)) (smallest compare items place)
termination_by items.size - place

def pop (items : Array V) : Option V × Array V :=
  match items[0]?, items.back? with
  | some top, some last =>
      let rest := items.pop
      if rest.size = 0 then (some top, rest)
      else (some top, siftDown compare (rest.setIfInBounds 0 last) 0)
  | _, _ => (none, items)

def peek (items : Array V) : Option V :=
  items[0]?

theorem swap_perm {items : Array V} {a b : Nat} (first : a < items.size) (second : b < items.size) :
    (swap items a b).Perm items := by
  rw [swap, Array.swapIfInBounds_def, dif_pos first, dif_pos second]
  exact Array.swap_perm first second

theorem siftUp_perm (items : Array V) (place : Nat) (inside : place < items.size) :
    (siftUp compare items place).Perm items := by
  fun_induction siftUp compare items place with
  | case1 items place positive moves lower ih =>
      have higher := Nat.lt_trans lower inside
      have swapped := swap_perm inside higher
      exact (ih (by rwa [swapped.size_eq])).trans swapped
  | case2 => exact .refl _
  | case3 => exact .refl _

theorem push_perm (items : Array V) (value : V) :
    (push compare items value).Perm (items.push value) :=
  siftUp_perm compare _ _ (by simp)

theorem siftDown_perm (items : Array V) (place : Nat) (inside : place < items.size) :
    (siftDown compare items place).Perm items := by
  fun_induction siftDown compare items place with
  | case1 => exact .refl _
  | case2 items place moves deeper _ ih =>
      have swapped := swap_perm inside deeper.2
      exact (ih (by rw [swapped.size_eq]; exact deeper.2)).trans swapped

theorem shapes (items : Array V) : items = #[] ∨ (∃ top, items = #[top]) ∨
    ∃ top others last, items = (top :: (others ++ [last])).toArray := by
  rcases items with ⟨_ | ⟨top, rest⟩⟩
  · exact .inl rfl
  · rcases List.eq_nil_or_concat' rest with rfl | ⟨others, last, rfl⟩
    · exact .inr (.inl ⟨top, rfl⟩)
    · exact .inr (.inr ⟨top, others, last, rfl⟩)

theorem pop_more (top last : V) (others : List V) :
    pop compare (top :: (others ++ [last])).toArray =
      (some top, siftDown compare (last :: others).toArray 0) := by
  have dropped : (top :: (others ++ [last])).dropLast = top :: others := by
    rw [← List.cons_append, List.dropLast_concat]
  unfold pop
  rw [List.pop_toArray, dropped]
  simp [List.getLast?_cons]

theorem pop_perm (items : Array V) : items.toList.Perm
    ((pop compare items).1.toList ++ (pop compare items).2.toList) := by
  rcases shapes items with rfl | ⟨top, rfl⟩ | ⟨top, others, last, rfl⟩
  · rfl
  · rfl
  · rw [pop_more]
    have sifted := siftDown_perm compare (last :: others).toArray 0 (by simp)
    exact ((List.perm_append_singleton last others).trans
      (Array.perm_iff_toList_perm.mp sifted).symm).cons top

theorem pop_size {items : Array V} (more : 0 < items.size) :
    (pop compare items).2.size < items.size := by
  rcases shapes items with rfl | ⟨top, rfl⟩ | ⟨top, others, last, rfl⟩
  · exact absurd more (Nat.lt_irrefl 0)
  · exact more
  · rw [pop_more, (siftDown_perm compare _ 0 (by simp)).size_eq]
    simp

/-- The iteration. -/
def drain (items : Array V) : List V :=
  if h : 0 < items.size then
    have := pop_size compare h
    (pop compare items).1.toList ++ drain (pop compare items).2
  else []
termination_by items.size

inductive Op (V : Type) where
  | push (value : V)
  | pop

def pushed : Op V → Option V
  | .push value => some value
  | .pop => none

def step (items : Array V) : Op V → Option (Array V × Option V)
  | .push value => some (push compare items value, none)
  | .pop => some ((pop compare items).2, (pop compare items).1)

variable {compare}

/-! ### The order -/

section

variable (compare)

/-- Of two elements.  Where there is none, it is behind every element. -/
def Ahead : Option V → Option V → Prop
  | some left, some right => compare left right ≤ 0
  | _, none => True
  | none, some _ => False

def view (items : Array V) (place : Nat) : Option V :=
  items[place]?

abbrev Ordered (items : Array V) : Prop :=
  Heap (Ahead compare) (view items)

end

theorem ahead_of_less {items : Array V} {a b : Nat} (lt : less compare items a b = true) :
    Ahead compare (view items a) (view items b) := by
  obtain ⟨left, right, first, second, before⟩ := less_iff.mp lt
  rw [view, view, first, second]
  exact before.le

theorem view_swap {items : Array V} {a b : Nat} (first : a < items.size)
    (second : b < items.size) : view (swap items a b) = exchange (view items) a b := by
  funext place
  rw [view, swap, Array.swapIfInBounds_def, dif_pos first, dif_pos second, Array.getElem?_swap]
  by_cases right : b = place
  · rw [if_pos right, ← right, exchange_right]
    exact (Array.getElem?_eq_getElem first).symm
  rw [if_neg right]
  by_cases left : a = place
  · rw [if_pos left, ← left, exchange_left]
    exact (Array.getElem?_eq_getElem second).symm
  · rw [if_neg left, exchange_of_ne (Ne.symm left) (Ne.symm right)]
    rfl

section

variable (laws : Compare.Laws compare fun _ => True)

include laws

theorem ahead_refl (one : Option V) : Ahead compare one one := by
  cases one with
  | none => trivial
  | some value => exact (laws.same value trivial).le

theorem ahead_trans : IsTrans (Option V) (Ahead compare) where
  trans a b c first second := by
    rcases c with _ | c
    · rcases a with _ | a <;> trivial
    rcases b with _ | b
    · exact second.elim
    rcases a with _ | a
    · exact first.elim
    · exact laws.trans a b c trivial trivial trivial first second

theorem ahead_of_not_less {items : Array V} {a b : Nat} (inside : b < items.size)
    (lt : ¬ less compare items a b = true) : Ahead compare (view items b) (view items a) := by
  have second : view items b = some items[b] := Array.getElem?_eq_getElem inside
  rw [second]
  rcases first : view items a with _ | left
  · trivial
  have least : 0 ≤ compare left items[b] :=
    Int.not_lt.mp fun before => lt (less_iff.mpr ⟨left, _, first, second, before⟩)
  have sign := laws.sign left items[b] trivial trivial
  exact Int.sign_nonpos_iff.mp (by have := Int.sign_nonneg_iff.mpr least; omega)

theorem siftUp_ordered (items : Array V) (place : Nat) (inside : place < items.size)
    (rising : Rising (Ahead compare) (view items) place) :
    Ordered compare (siftUp compare items place) := by
  have := ahead_trans laws
  fun_induction siftUp compare items place with
  | case1 items place positive moves lower ih =>
      have higher := Nat.lt_trans lower inside
      refine ih (by rwa [(swap_perm inside higher).size_eq]) ?_
      rw [view_swap inside higher]
      exact rising.exchange positive (ahead_of_less moves)
  | case2 items place _ stays =>
      exact rising.settled fun positive =>
        ahead_of_not_less laws (Nat.lt_trans (parent_lt positive) inside) stays
  | case3 items place first => exact rising.settled fun positive => absurd positive first

theorem push_ordered {items : Array V} (ordered : Ordered compare items) (value : V) :
    Ordered compare (push compare items value) := by
  have past : ∀ {place}, items.size < place → view (items.push value) place = none := fun more =>
    Array.getElem?_eq_none (by rw [Array.size_push]; exact more)
  have old : ∀ {place}, place < items.size → view (items.push value) place = view items place :=
    fun inside =>
    (Array.getElem?_push_lt inside).trans (Array.getElem?_eq_getElem inside).symm
  refine siftUp_ordered laws _ _ (by simp) ⟨fun other positive elsewhere => ?_,
    fun positive child _ below => ?_⟩
  · rcases Nat.lt_or_gt_of_ne elsewhere with inside | outside
    · rw [old inside, old (Nat.lt_trans (parent_lt positive) inside)]
      exact ordered other positive
    · rw [past outside]
      cases view (items.push value) (parent other) <;> trivial
  · have deeper : items.size < child := by
      unfold parent at below
      omega
    rw [past deeper]
    cases view (items.push value) (parent items.size) <;> trivial

/-- The element of the three that comes first. -/
theorem smallest_ahead (items : Array V) {place : Nat} (inside : place < items.size) :
    (∀ other, other = place ∨ other = 2 * place + 1 ∨ other = 2 * place + 2 →
      Ahead compare (view items (smallest compare items place)) (view items other)) ∧
    (smallest compare items place = place ∨ 0 < smallest compare items place ∧
      parent (smallest compare items place) = place) := by
  have trans := (ahead_trans laws).trans
  unfold smallest
  rw [Nat.mul_comm place 2]
  dsimp only
  by_cases left : less compare items (2 * place + 1) place = true
  · rw [if_pos left]
    split
    · rename_i right
      have second := ahead_of_less right
      refine ⟨?_, .inr ⟨Nat.succ_pos _, (parent_eq_iff (Nat.succ_pos _)).mpr (.inr rfl)⟩⟩
      rintro other (rfl | rfl | rfl)
      · exact trans _ _ _ second (ahead_of_less left)
      · exact second
      · exact ahead_refl laws _
    · rename_i right
      refine ⟨?_, .inr ⟨Nat.succ_pos _, (parent_eq_iff (Nat.succ_pos _)).mpr (.inl rfl)⟩⟩
      rintro other (rfl | rfl | rfl)
      · exact ahead_of_less left
      · exact ahead_refl laws _
      · exact ahead_of_not_less laws (less_lt left) right
  · rw [if_neg left]
    have first := ahead_of_not_less laws inside left
    split
    · rename_i right
      refine ⟨?_, .inr ⟨Nat.succ_pos _, (parent_eq_iff (Nat.succ_pos _)).mpr (.inr rfl)⟩⟩
      rintro other (rfl | rfl | rfl)
      · exact ahead_of_less right
      · exact trans _ _ _ (ahead_of_less right) first
      · exact ahead_refl laws _
    · rename_i right
      refine ⟨?_, .inl rfl⟩
      rintro other (rfl | rfl | rfl)
      · exact ahead_refl laws _
      · exact first
      · exact ahead_of_not_less laws inside right

theorem siftDown_ordered (items : Array V) (place : Nat) (inside : place < items.size)
    (sinking : Sinking (Ahead compare) (view items) place) :
    Ordered compare (siftDown compare items place) := by
  fun_induction siftDown compare items place with
  | case1 items place stays =>
      refine sinking.settled fun child positive below => ?_
      have least := (smallest_ahead laws items inside).1 child
      rw [stays] at least
      exact least (.inr ((parent_eq_iff positive).mp below))
  | case2 items place moves deeper _ ih =>
      obtain ⟨least, child⟩ := smallest_ahead laws items inside
      obtain ⟨positive, below⟩ := child.resolve_left moves
      refine ih (by rw [(swap_perm inside deeper.2).size_eq]; exact deeper.2) ?_
      rw [view_swap inside deeper.2]
      exact sinking.exchange positive below (least place (.inl rfl)) fun other above under =>
        least other (.inr ((parent_eq_iff above).mp under))

theorem pop_ordered {items : Array V} (ordered : Ordered compare items) :
    Ordered compare (pop compare items).2 := by
  rcases shapes items with rfl | ⟨top, rfl⟩ | ⟨top, others, last, rfl⟩
  · exact fun _ _ => trivial
  · exact fun _ _ => trivial
  · rw [pop_more]
    refine siftDown_ordered laws _ 0 (by simp) ⟨fun other positive elsewhere => ?_,
      fun positive => absurd positive (Nat.lt_irrefl 0)⟩
    -- Behind the first place nothing has changed, but for the last element.
    have old : ∀ {place}, 0 < place → place < others.length + 1 →
        view (last :: others).toArray place =
          view (top :: (others ++ [last])).toArray place := fun {place} after inside => by
      obtain ⟨place, rfl⟩ := Nat.exists_eq_succ_of_ne_zero (Nat.ne_of_gt after)
      have same : (others ++ [last])[place]? = others[place]? :=
        List.getElem?_append_left (Nat.lt_of_succ_lt_succ inside)
      simp [view, same]
    by_cases inside : other < others.length + 1
    · rw [old positive inside, old (Nat.pos_of_ne_zero elsewhere)
        (Nat.lt_trans (parent_lt positive) inside)]
      exact ordered other positive
    · have past : view (last :: others).toArray other = none :=
        Array.getElem?_eq_none (by simpa using inside)
      rw [past]
      cases view (last :: others).toArray (parent other) <;> trivial

theorem peek_least {items : Array V} (ordered : Ordered compare items) {top : V}
    (first : peek items = some top) {value : V} (there : value ∈ items) :
    compare top value ≤ 0 := by
  have := ahead_trans laws
  obtain ⟨place, found⟩ := Array.mem_iff_getElem?.mp there
  have least := ordered.first_le (ahead_refl laws) place
  rw [view, view, found] at least
  rw [peek] at first
  rw [first] at least
  exact least

omit laws in
theorem pop_top (items : Array V) : (pop compare items).1 = peek items := by
  rcases shapes items with rfl | ⟨top, rfl⟩ | ⟨top, others, last, rfl⟩
  · rfl
  · rfl
  · rw [pop_more]
    rfl

theorem drain_sorted (items : Array V) (ordered : Ordered compare items) :
    (drain compare items).Perm items.toList ∧
      (drain compare items).Pairwise (compare · · ≤ 0) := by
  fun_induction drain compare items with
  | case1 items more smaller ih =>
      obtain ⟨perm, sorted⟩ := ih (pop_ordered laws ordered)
      have kept := pop_perm compare items
      refine ⟨(perm.append_left _).trans kept.symm, List.pairwise_append.mpr
        ⟨?_, sorted, fun top first value there => ?_⟩⟩
      · cases (pop compare items).1 <;> simp
      · rw [pop_top] at first
        exact peek_least laws ordered (Option.mem_toList.mp first)
          (Array.mem_toList_iff.mp (kept.mem_iff.mpr
            (List.mem_append_right _ (perm.mem_iff.mp there))))
  | case2 items none =>
      obtain rfl := Array.size_eq_zero_iff.mp (Nat.eq_zero_of_not_pos none)
      exact ⟨.nil, .nil⟩

omit laws in
theorem step_perm {items next : Array V} {op : Op V} {answer : Option V}
    (stepped : step compare items op = some (next, answer)) :
    (answer.toList ++ next.toList).Perm (items.toList ++ (pushed op).toList) := by
  cases op with
  | push value =>
      obtain ⟨rfl, rfl⟩ := Prod.mk.inj (Option.some.inj stepped)
      have added := Array.perm_iff_toList_perm.mp (push_perm compare items value)
      rwa [Array.toList_push] at added
  | pop =>
      obtain ⟨rfl, rfl⟩ := Prod.mk.inj (Option.some.inj stepped)
      rw [pushed, Option.toList_none, List.append_nil]
      exact (pop_perm compare items).symm

omit laws in
theorem run_perm {ops : List (Op V)} {items last : Array V} {answers : List (Option V)}
    (ran : Refinement.run (step compare) items ops = some (last, answers)) :
    (answers.filterMap id ++ last.toList).Perm (items.toList ++ ops.filterMap pushed) := by
  induction ops generalizing items answers with
  | nil =>
      obtain ⟨rfl, rfl⟩ := Prod.mk.inj (Option.some.inj ran)
      exact .of_eq (List.append_nil _).symm
  | cons op ops ih =>
      obtain ⟨next, answer, rest, stepped, runs, rfl⟩ := Refinement.run_cons ran
      have after := (ih runs).append_left answer.toList
      have first := (step_perm stepped).append_right (ops.filterMap pushed)
      rw [List.append_assoc, List.append_assoc] at first
      simp only [List.filterMap_eq_flatMap_toList, List.flatMap_cons, List.append_assoc] at *
      exact after.trans first

/-- After any pushes and pops a pop takes an element that none of the queue comes before, and
the queue and what was taken are what was put in; so an iteration sorts. -/
theorem queue_sorts {ops : List (Op V)} {items : Array V} {answers : List (Option V)}
    (ran : Refinement.run (step compare) #[] ops = some (items, answers)) :
    (∀ top ∈ (pop compare items).1, ∀ value ∈ items, compare top value ≤ 0) ∧
      (drain compare items).Pairwise (compare · · ≤ 0) ∧
      (answers.filterMap id ++ drain compare items).Perm (ops.filterMap pushed) := by
  have start : Ordered compare #[] := fun _ _ => trivial
  have ordered := (Refinement.run_invariant (Ordered compare) (fun _ => True)
    (fun {items op next answer} ordered stepped => by
      cases op with
      | push value =>
          obtain ⟨rfl, rfl⟩ := Prod.mk.inj (Option.some.inj stepped)
          exact ⟨push_ordered laws ordered value, trivial⟩
      | pop =>
          obtain ⟨rfl, rfl⟩ := Prod.mk.inj (Option.some.inj stepped)
          exact ⟨pop_ordered laws ordered, trivial⟩) start ran).1
  obtain ⟨perm, sorted⟩ := drain_sorted laws items ordered
  refine ⟨fun top first value there => ?_, sorted,
    (perm.append_left _).trans (run_perm ran)⟩
  rw [pop_top] at first
  exact peek_least laws ordered first there

end

theorem texts_sorted :
    (drain ArraySort.compareStrings (push ArraySort.compareStrings
      (push ArraySort.compareStrings #[] [98]) [97])).Pairwise
        (ArraySort.compareStrings · · ≤ 0) :=
  (@queue_sorts _ ArraySort.compareStrings (Compare.compareStrings_laws fun _ => True)
    [.push [98], .push [97]] _ _ rfl).2.1

end CScript.PriorityQueue
