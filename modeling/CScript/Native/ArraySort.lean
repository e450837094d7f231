/-
Sorting an array in place.

Undefined elements are moved to the end first and no comparison ever sees one.  The
others go through an insertion sort, which is stable.  Without a comparator two elements
are compared by their texts with `strcmp`, so up to the first zero byte of each, while
the comparator of std:cmp for strings goes by their lengths.
-/

import CScript.Library.JsonOrder
import CScript.Native.NativeCall
import CScript.Runtime.BigIntNumbers

namespace CScript.ArraySort

open NativeCall Rendering StdJson

/-! ### The source -/

section

variable {Ref : Type}

def isUndefined : Shown Ref → Bool
  | .undefined => true
  | _ => false

/-- The sign of C's `strcmp`. -/
def strcmp (left right : List UInt8) : Int :=
  if comesAfter left right then 1 else if comesAfter right left then -1 else 0

def signOf (number : Double) : Int :=
  if CompareOp.greater.numbers number ⟨0⟩ then 1
  else if CompareOp.less.numbers number ⟨0⟩ then -1
  else 0

section

variable (csValueToCString : Shown Ref → Option (List UInt8))
  (csVMCallAdapted : Shown Ref → List (Shown Ref) → Except (Failure Ref) (Shown Ref))

def compareAsStrings (a b : Shown Ref) : Except (Failure Ref) Int :=
  match csValueToCString a, csValueToCString b with
  | some left, some right => .ok (strcmp left right)
  | _, _ => .error (.runtimeError (ascii "out of memory while sorting"))

def compareByCall (callback a b : Shown Ref) : Except (Failure Ref) Int := do
  match ← csVMCallAdapted callback [a, b] with
  | .number verdict => .ok (signOf verdict)
  | verdict =>
      .error (.runtimeError
        (ascii "sort comparator must return a number, got " ++ NativeCall.csValueTypeName verdict))

end

def moveDown (state : List (Shown Ref) × Nat) (i : Nat) : List (Shown Ref) × Nat :=
  let value := state.1.getD i .undefined
  if isUndefined value then state else (state.1.set state.2 value, state.2 + 1)

def partitionUndefined (elements : List (Shown Ref)) : List (Shown Ref) × Nat :=
  let moved := (List.range elements.length).foldl moveDown (elements, 0)
  ((List.range' moved.2 (elements.length - moved.2)).foldl (fun values i => values.set i .undefined)
    moved.1, moved.2)

variable (compare : Shown Ref → Shown Ref → Except (Failure Ref) Int)

/-- The inner loop: `hole` is `j + 1`, the place the key goes to unless the element
before it comes after the key.  A failed comparison leaves the elements as they are. -/
def shift (key : Shown Ref) : Nat → List (Shown Ref) →
    Except (Failure Ref × List (Shown Ref)) (List (Shown Ref))
  | 0, values => .ok (values.set 0 key)
  | j + 1, values =>
      match compare (values.getD j .undefined) key with
      | .error failure => .error (failure, values)
      | .ok order =>
          if order ≤ 0 then .ok (values.set (j + 1) key)
          else shift key j (values.set (j + 1) (values.getD j .undefined))

def insertionSort (sortable : Nat) (values : List (Shown Ref)) :
    Except (Failure Ref × List (Shown Ref)) (List (Shown Ref)) :=
  (List.range' 1 (sortable - 1)).foldlM
    (fun values i => shift compare (values.getD i .undefined) i values) values

end

/-- `arraySort`: the elements it leaves, or the failure with those it has left. -/
def arraySort {Ref : Type} (csValueToCString : Shown Ref → Option (List UInt8))
    (csVMCallAdapted : Shown Ref → List (Shown Ref) → Except (Failure Ref) (Shown Ref))
    (args elements : List (Shown Ref)) :
    Except (Failure Ref × List (Shown Ref)) (List (Shown Ref)) :=
  let (values, defined) := partitionUndefined elements
  match args.head?.filter (fun callback => !isUndefined callback) with
  | some callback => insertionSort (compareByCall csVMCallAdapted callback) defined values
  | none => insertionSort (compareAsStrings csValueToCString) defined values

/-- `compareNumbers` of std:cmp on two lengths. -/
def compareNumbers (a b : Nat) : Int :=
  if a < b then -1 else if a > b then 1 else 0

/-- The loop of `compareStrings` over the places that both strings have. -/
def compareCodes (a b : List UInt8) : List Nat → Option Int
  | [] => none
  | i :: rest =>
      if a.getD i 0 < b.getD i 0 then some (-1)
      else if a.getD i 0 > b.getD i 0 then some 1
      else compareCodes a b rest

def compareStrings (a b : List UInt8) : Int :=
  let shorter := if a.length < b.length then a.length else b.length
  (compareCodes a b (List.range shorter)).getD (compareNumbers a.length b.length)

/-! ### The order of std:cmp -/

theorem compareCodes_succ (c d : UInt8) (a b : List UInt8) (places : List Nat) :
    compareCodes (c :: a) (d :: b) (places.map Nat.succ) = compareCodes a b places := by
  induction places with
  | nil => rfl
  | cons i rest ih => simp only [List.map_cons, compareCodes, Nat.succ_eq_add_one,
      List.getD_cons_succ, ih]

theorem compareStrings_cons (c d : UInt8) (a b : List UInt8) :
    compareStrings (c :: a) (d :: b) =
      if c < d then -1 else if c > d then 1 else compareStrings a b := by
  have shorter : (if (c :: a).length < (d :: b).length then (c :: a).length else (d :: b).length) =
      (if a.length < b.length then a.length else b.length) + 1 := by
    simp only [List.length_cons]
    split <;> split <;> omega
  have lengths : compareNumbers (c :: a).length (d :: b).length =
      compareNumbers a.length b.length := by
    simp only [compareNumbers, List.length_cons, Nat.add_lt_add_iff_right, gt_iff_lt]
  unfold compareStrings
  simp only [shorter, lengths, List.range_succ_eq_map, compareCodes, List.getD_cons_zero,
    compareCodes_succ]
  split
  · rfl
  · split <;> rfl

theorem compareStrings_pos_iff (a b : List UInt8) : 0 < compareStrings a b ↔ b < a := by
  induction a generalizing b with
  | nil =>
      cases b with
      | nil =>
          exact ⟨fun positive => absurd positive (Int.lt_irrefl 0),
            fun less => absurd less (List.lt_irrefl _)⟩
      | cons d b =>
          constructor
          · intro positive
            simp [compareStrings, compareCodes, compareNumbers] at positive
          · exact fun less => absurd less (List.not_lt_nil _)
  | cons c a ih =>
      cases b with
      | nil =>
          constructor
          · exact fun _ => List.nil_lt_cons c a
          · intro _
            simp [compareStrings, compareCodes, compareNumbers]
      | cons d b =>
          rw [compareStrings_cons, List.cons_lt_cons_iff, ← ih]
          by_cases less : c < d
          · rw [if_pos less]
            constructor
            · intro positive
              cases positive
            · rintro (greater | ⟨same, _⟩)
              · exact absurd greater (UInt8.lt_asymm less)
              · exact absurd less (same ▸ UInt8.lt_irrefl c)
          · rw [if_neg less]
            by_cases greater : d < c
            · rw [if_pos greater]
              exact ⟨fun _ => .inl greater, fun _ => by decide⟩
            · rw [if_neg greater]
              have same : d = c :=
                UInt8.le_antisymm (UInt8.not_lt.mp less) (UInt8.not_lt.mp greater)
              constructor
              · exact fun positive => .inr ⟨same, positive⟩
              · rintro (greater' | ⟨_, positive⟩)
                · exact absurd greater' greater
                · exact positive

/-! ### The undefined elements -/

section

variable {Ref : Type}

def definedOf (elements : List (Shown Ref)) : List (Shown Ref) :=
  elements.filter (fun value => !isUndefined value)

theorem isUndefined_iff (value : Shown Ref) : isUndefined value = true ↔ value = .undefined := by
  cases value <;> simp [isUndefined]

theorem moveDown_range (elements : List (Shown Ref)) {seen : Nat}
    (within : seen ≤ elements.length) :
    ∃ between, (List.range seen).foldl moveDown (elements, 0) =
        (definedOf (elements.take seen) ++ between ++ elements.drop seen,
          (definedOf (elements.take seen)).length) ∧
      (definedOf (elements.take seen)).length + between.length = seen := by
  induction seen with
  | zero => exact ⟨[], by simp [definedOf], by simp [definedOf]⟩
  | succ seen ih =>
      obtain ⟨between, reached, size⟩ := ih (by omega)
      have here : elements.drop seen = elements[seen] :: elements.drop (seen + 1) :=
        List.drop_eq_getElem_cons (by omega)
      have grown : elements.take (seen + 1) = elements.take seen ++ [elements[seen]] :=
        (List.take_concat_get' _ _ _).symm
      have read : (definedOf (elements.take seen) ++ between ++ elements.drop seen).getD seen
          .undefined = elements[seen] := by
        rw [here, List.getD_append_right _ _ _ _ (by rw [List.length_append]; omega),
          List.length_append, size, Nat.sub_self, List.getD_cons_zero]
      rw [List.range_succ, List.foldl_append, reached, List.foldl_cons, List.foldl_nil]
      unfold moveDown
      simp only [read]
      rw [grown, here]
      unfold definedOf at size ⊢
      rw [List.filter_append]
      cases absent : isUndefined elements[seen] with
      | true =>
          refine ⟨between ++ [elements[seen]], ?_, ?_⟩
          · simp [absent]
          · simp only [absent, List.filter_cons, List.filter_nil, List.append_nil, Bool.not_true,
              Bool.false_eq_true, if_false, List.length_append, List.length_singleton]
            omega
      | false =>
          simp only [absent, List.filter_cons, List.filter_nil, Bool.not_false, if_true,
            Bool.false_eq_true, if_false, List.length_append, List.length_singleton]
          cases between with
          | nil =>
              refine ⟨[], ?_, by simp only [List.length_nil] at size ⊢; omega⟩
              rw [List.append_nil, List.append_nil, List.set_append_right _ _ (Nat.le_refl _),
                Nat.sub_self, List.set_cons_zero, List.append_assoc, List.singleton_append]
          | cons last between =>
              refine ⟨between ++ [elements[seen]], ?_, ?_⟩
              · simp
              · simp only [List.length_cons, List.length_append, List.length_nil] at size ⊢
                omega

theorem setUndefined_eq (front back : List (Shown Ref)) :
    (List.range' front.length back.length).foldl (fun values i => values.set i .undefined)
      (front ++ back) = front ++ List.replicate back.length .undefined := by
  induction back generalizing front with
  | nil => rfl
  | cons value back ih =>
      have longer : front.length + 1 = (front ++ [Shown.undefined]).length := by simp
      rw [List.length_cons, List.range'_succ, List.foldl_cons,
        List.set_append_right _ _ (Nat.le_refl _), Nat.sub_self, List.set_cons_zero, longer,
        List.append_cons, ih, List.append_assoc, List.replicate_succ, List.singleton_append]

theorem partitionUndefined_eq (elements : List (Shown Ref)) :
    partitionUndefined elements =
      (definedOf elements ++
        List.replicate (elements.length - (definedOf elements).length) .undefined,
        (definedOf elements).length) := by
  obtain ⟨between, reached, size⟩ := moveDown_range elements (Nat.le_refl _)
  rw [List.take_length] at reached size
  rw [List.drop_length, List.append_nil] at reached
  unfold partitionUndefined
  simp only [reached]
  have holes : elements.length - (definedOf elements).length = between.length := by omega
  rw [holes, setUndefined_eq]

end

/-! ### The insertion sort -/

section

variable {Ref : Type} {compare : Shown Ref → Shown Ref → Except (Failure Ref) Int}
  {order : Shown Ref → Shown Ref → Int}

def keyed (elements : List (Shown Ref)) : List (Shown Ref × Unit) :=
  elements.map (fun value => (value, ()))

def comes (order : Shown Ref → Shown Ref → Int) (a b : Shown Ref) : Bool :=
  decide (0 < order a b)

theorem keyed_fst (elements : List (Shown Ref)) : (keyed elements).map Prod.fst = elements := by
  unfold keyed
  rw [List.map_map]
  exact List.map_id _

theorem comes_iff (a b : Shown Ref) : comes order a b = true ↔ 0 < order a b :=
  decide_eq_true_iff

def sortedBy (order : Shown Ref → Shown Ref → Int) (elements : List (Shown Ref)) :
    List (Shown Ref) :=
  (KeySort.sortByKey (comes order) (keyed elements)).map Prod.fst

theorem shift_eq (key : Shown Ref) (front : List (Shown Ref))
    (compared : ∀ value ∈ front, compare value key = .ok (order value key)) :
    ∀ hole back, shift compare key front.length (front ++ hole :: back) =
      .ok (((KeySort.sink (comes order) (key, ()) (keyed front.reverse)).map Prod.fst).reverse ++
        back) := by
  induction front using List.reverseRecOn with
  | nil => exact fun _ _ => rfl
  | append_singleton front last ih =>
      intro hole back
      have read : (front ++ [last] ++ hole :: back).getD front.length .undefined = last := by
        rw [List.append_assoc, List.getD_append_right _ _ _ _ (Nat.le_refl _), Nat.sub_self]
        rfl
      have written : ∀ value, (front ++ [last] ++ hole :: back).set (front.length + 1) value =
          front ++ last :: (value :: back) := by
        intro value
        rw [List.set_append_right _ _ (by simp)]
        simp
      have answer := compared last (List.mem_append_right _ List.mem_cons_self)
      rw [List.length_append, List.length_singleton, shift, read, answer]
      simp only [written, List.reverse_append, List.reverse_singleton, List.singleton_append,
        keyed, List.map_cons, KeySort.sink, comes_iff]
      by_cases stays : order last key ≤ 0
      · rw [if_pos stays, if_neg (Int.not_lt.mpr stays), List.map_cons, List.map_cons, ← keyed,
          keyed_fst]
        simp
      · rw [if_neg stays, if_pos (Int.not_le.mp stays),
          ih (fun value member => compared value (List.mem_append_left _ member))]
        simp [keyed]

theorem sortedBy_concat (elements : List (Shown Ref)) (key : Shown Ref) :
    sortedBy order (elements ++ [key]) =
      ((KeySort.sink (comes order) (key, ()) (keyed (sortedBy order elements).reverse)).map
        Prod.fst).reverse := by
  have back : keyed (sortedBy order elements).reverse =
      (KeySort.sortByKey (comes order) (keyed elements)).reverse := by
    unfold keyed sortedBy
    rw [← List.map_reverse, List.map_map]
    exact List.map_id _
  have grown : keyed (elements ++ [key]) = keyed elements ++ [(key, ())] := List.map_append
  rw [back, ← List.map_reverse, ← KeySort.sortByKey_concat, ← grown]
  rfl

theorem sortedBy_perm (order : Shown Ref → Shown Ref → Int) (elements : List (Shown Ref)) :
    (sortedBy order elements).Perm elements := by
  have perm := (@KeySort.sortByKey_perm _ _ (comes order) (keyed elements)).map Prod.fst
  rw [keyed_fst] at perm
  exact perm

theorem insertionSort_range (elements rest : List (Shown Ref))
    (compared : ∀ a ∈ elements, ∀ b ∈ elements, compare a b = .ok (order a b)) {steps : Nat}
    (within : steps ≤ elements.length - 1) :
    (List.range' 1 steps).foldlM
        (fun values i => shift compare (values.getD i .undefined) i values) (elements ++ rest) =
      .ok (sortedBy order (elements.take (steps + 1)) ++ (elements.drop (steps + 1) ++ rest)) := by
  induction steps with
  | zero =>
      cases elements with
      | nil => rfl
      | cons first elements => rfl
  | succ steps ih =>
      have inside : steps + 1 < elements.length := by omega
      have here : elements.drop (steps + 1) =
          elements[steps + 1] :: elements.drop (steps + 1 + 1) :=
        List.drop_eq_getElem_cons inside
      have grown : elements.take (steps + 1 + 1) =
          elements.take (steps + 1) ++ [elements[steps + 1]] :=
        (List.take_concat_get' _ _ inside).symm
      have size : (sortedBy order (elements.take (steps + 1))).length = 1 + steps := by
        rw [(sortedBy_perm order _).length_eq, List.length_take]
        omega
      have read : (sortedBy order (elements.take (steps + 1)) ++
          (elements[steps + 1] :: elements.drop (steps + 1 + 1) ++ rest)).getD (1 + steps)
          .undefined = elements[steps + 1] := by
        rw [List.getD_append_right _ _ _ _ (Nat.le_of_eq size), size, Nat.sub_self]
        rfl
      rw [List.range'_1_concat, List.foldlM_append, ih (by omega), here]
      simp only [List.foldlM_cons, List.foldlM_nil, bind_pure]
      have sorted := @shift_eq _ compare order elements[steps + 1]
        (sortedBy order (elements.take (steps + 1)))
        (fun value member => compared value
          (List.mem_of_mem_take ((sortedBy_perm order _).mem_iff.mp member)) _
          (List.getElem_mem inside))
        elements[steps + 1] (elements.drop (steps + 1 + 1) ++ rest)
      rw [size] at sorted
      rw [grown, sortedBy_concat, ← sorted]
      exact congrArg (fun key => shift compare key (1 + steps) _) read

theorem insertionSort_eq (elements rest : List (Shown Ref))
    (compared : ∀ a ∈ elements, ∀ b ∈ elements, compare a b = .ok (order a b)) :
    insertionSort compare elements.length (elements ++ rest) =
      .ok (sortedBy order elements ++ rest) := by
  unfold insertionSort
  rw [insertionSort_range elements rest compared (Nat.le_refl _),
    List.take_of_length_le (by omega), List.drop_of_length_le (by omega), List.nil_append]

structure TotalPreorder (order : Shown Ref → Shown Ref → Int) (elements : List (Shown Ref)) :
    Prop where
  total : ∀ a ∈ elements, ∀ b ∈ elements, order a b ≤ 0 ∨ order b a ≤ 0
  trans : ∀ a ∈ elements, ∀ b ∈ elements, ∀ c ∈ elements,
    order a b ≤ 0 → order b c ≤ 0 → order a c ≤ 0

def ties (order : Shown Ref → Shown Ref → Int) (value other : Shown Ref) : Bool :=
  decide (order value other ≤ 0) && decide (order other value ≤ 0)

/-- The same elements, the undefined ones last and the others in order, those that tie
in the order they were in. -/
structure StableSort (order : Shown Ref → Shown Ref → Int) (elements sorted : List (Shown Ref)) :
    Prop where
  perm : sorted.Perm elements
  undefinedLast : ∃ holes, sorted = definedOf sorted ++ List.replicate holes .undefined
  inOrder : (definedOf sorted).Pairwise (fun a b => order a b ≤ 0)
  stable : ∀ value ∈ definedOf elements,
    (definedOf sorted).filter (ties order value) = (definedOf elements).filter (ties order value)

theorem comes_false_iff (a b : Shown Ref) : comes order a b = false ↔ order a b ≤ 0 := by
  rw [← Bool.not_eq_true, comes_iff, Int.not_lt]

theorem keyed_mem {item : Shown Ref × Unit} {elements : List (Shown Ref)}
    (member : item ∈ keyed elements) : item.1 ∈ elements := by
  obtain ⟨value, there, rfl⟩ := List.mem_map.mp member
  exact there

theorem sortedBy_stable (elements : List (Shown Ref)) (class_ : Shown Ref → Bool)
    (tied : ∀ a ∈ elements, ∀ b ∈ elements, class_ a = true → class_ b = true → order a b ≤ 0) :
    (sortedBy order elements).filter class_ = elements.filter class_ := by
  have kept := congrArg (List.map Prod.fst) (@KeySort.sortByKey_stable _ _ (comes order)
    (keyed elements) class_ (fun a left b right leftClass rightClass => (comes_false_iff _ _).mpr
      (tied a.1 (keyed_mem left) b.1 (keyed_mem right) leftClass rightClass)))
  have split (items : List (Shown Ref × Unit)) :
      (items.filter (fun item => class_ item.1)).map Prod.fst =
        (items.map Prod.fst).filter class_ := by
    rw [List.filter_map]
    rfl
  rw [split, split, keyed_fst] at kept
  exact kept

theorem sortedBy_inOrder (elements : List (Shown Ref)) (preorder : TotalPreorder order elements) :
    (sortedBy order elements).Pairwise (fun a b => order a b ≤ 0) := by
  have among : KeySort.OrdersAmong (comes order) (fun value => value ∈ elements) := by
    constructor
    · intro a b left right after
      rw [comes_iff] at after
      rw [comes_false_iff]
      exact (preorder.total a left b right).resolve_left (Int.not_le.mpr after)
    · intro a b c left middle right
      simp only [comes_false_iff]
      exact preorder.trans a left b middle c right
  have sorted := KeySort.sortByKey_sorted_among among (keyed elements) (fun _ => keyed_mem)
  unfold sortedBy
  rw [List.pairwise_map]
  apply sorted.imp
  intro a b settled
  exact (comes_false_iff a.1 b.1).mp settled

theorem definedOf_defined {elements : List (Shown Ref)}
    (defined : ∀ value ∈ elements, isUndefined value = false) (holes : Nat) :
    definedOf (elements ++ List.replicate holes .undefined) = elements := by
  unfold definedOf
  rw [List.filter_append, List.filter_eq_self.mpr (by simpa using defined)]
  simp [isUndefined]

theorem definedOf_perm (elements : List (Shown Ref)) :
    (definedOf elements ++
      List.replicate (elements.length - (definedOf elements).length) Shown.undefined).Perm
      elements := by
  have rest : elements.filter (fun value => !!isUndefined value) =
      List.replicate (elements.length - (definedOf elements).length) .undefined := by
    have sizes := List.length_eq_length_filter_add (l := elements) (fun value => !isUndefined value)
    apply List.eq_replicate_iff.mpr
    constructor
    · unfold definedOf
      omega
    · intro value member
      have absent := (List.mem_filter.mp member).2
      rw [Bool.not_not] at absent
      exact (isUndefined_iff value).mp absent
  rw [← rest]
  exact List.filter_append_perm _ elements

theorem partition_insertionSort (elements : List (Shown Ref))
    (compared : ∀ a ∈ definedOf elements, ∀ b ∈ definedOf elements,
      compare a b = .ok (order a b)) :
    ∃ sorted, insertionSort compare (partitionUndefined elements).2
        (partitionUndefined elements).1 = .ok sorted ∧
      sorted.Perm elements ∧
      (∃ holes, sorted = definedOf sorted ++ List.replicate holes .undefined) ∧
      definedOf sorted = sortedBy order (definedOf elements) := by
  have perm := sortedBy_perm order (definedOf elements)
  have defined : ∀ value ∈ sortedBy order (definedOf elements), isUndefined value = false := by
    intro value member
    have present := (List.mem_filter.mp (perm.mem_iff.mp member)).2
    simpa using present
  rw [partitionUndefined_eq]
  generalize holesEq : elements.length - (definedOf elements).length = holes
  have whole := definedOf_perm elements
  rw [holesEq] at whole
  have parts := definedOf_defined defined holes
  exact ⟨_, insertionSort_eq _ _ compared, (perm.append_right _).trans whole,
    ⟨holes, by rw [parts]⟩, parts⟩

theorem sorts_of_preorder (elements : List (Shown Ref))
    (compared : ∀ a ∈ definedOf elements, ∀ b ∈ definedOf elements,
      compare a b = .ok (order a b))
    (preorder : TotalPreorder order (definedOf elements)) :
    ∃ sorted, insertionSort compare (partitionUndefined elements).2
        (partitionUndefined elements).1 = .ok sorted ∧ StableSort order elements sorted := by
  obtain ⟨sorted, returned, perm, last, defined⟩ := partition_insertionSort elements compared
  refine ⟨sorted, returned, perm, last, ?_, ?_⟩
  · rw [defined]
    exact sortedBy_inOrder _ preorder
  · intro value member
    rw [defined]
    apply sortedBy_stable
    intro a left b right leftTies rightTies
    have before := of_decide_eq_true (Bool.and_eq_true_iff.mp leftTies).2
    have behind := of_decide_eq_true (Bool.and_eq_true_iff.mp rightTies).1
    exact preorder.trans a left value member b right before behind

/-! ### The order of the texts -/

variable {text : Shown Ref → List UInt8}

def CutDecides (text : Shown Ref → List UInt8) (a b : Shown Ref) : Prop :=
  upToZero (text a) = upToZero (text b) → text a ≤ text b

theorem strcmp_le_iff (a b : List UInt8) : strcmp a b ≤ 0 ↔ upToZero a ≤ upToZero b := by
  rw [← List.not_lt, ← comesAfter_iff]
  unfold strcmp
  cases comesAfter a b with
  | true => simp
  | false => cases comesAfter b a <;> simp

theorem compareStrings_le_iff (a b : List UInt8) : compareStrings a b ≤ 0 ↔ a ≤ b := by
  rw [← Int.not_lt, compareStrings_pos_iff, List.not_lt]

theorem strcmp_preorder (text : Shown Ref → List UInt8) (elements : List (Shown Ref)) :
    TotalPreorder (fun a b => strcmp (text a) (text b)) elements := by
  constructor
  · intro a _ b _
    simp only [strcmp_le_iff]
    exact List.le_total _ _
  · intro a _ b _ c _
    simp only [strcmp_le_iff]
    exact List.le_trans

theorem sortedBy_cut (elements : List (Shown Ref)) (cut : List UInt8) :
    (sortedBy (fun a b => strcmp (text a) (text b)) elements).filter
        (fun value => decide (upToZero (text value) = cut)) =
      elements.filter (fun value => decide (upToZero (text value) = cut)) := by
  apply sortedBy_stable
  intro a _ b _ left right
  rw [strcmp_le_iff, of_decide_eq_true left, of_decide_eq_true right]
  exact List.le_refl _

theorem pairwise_of_classes {Item Key : Type} [DecidableEq Key] {differ : Item → Item → Prop}
    {key : Item → Key} {items : List Item}
    (within : ∀ class_, (items.filter (fun item => key item = class_)).Pairwise differ)
    (across : ∀ early ∈ items, ∀ late ∈ items, key early ≠ key late → differ early late) :
    items.Pairwise differ := by
  induction items with
  | nil => exact List.Pairwise.nil
  | cons head tail ih =>
      refine List.pairwise_cons.mpr ⟨fun late member => ?_, ih ?_ ?_⟩
      · by_cases same : key head = key late
        · have own := within (key head)
          rw [List.filter_cons_of_pos (by simp)] at own
          exact (List.pairwise_cons.mp own).1 late
            (List.mem_filter.mpr ⟨member, decide_eq_true same.symm⟩)
        · exact across head List.mem_cons_self late (List.mem_cons_of_mem head member) same
      · intro class_
        exact (within class_).sublist ((List.sublist_cons_self head tail).filter _)
      · intro early earlyMember late lateMember
        exact across early (List.mem_cons_of_mem head earlyMember) late
          (List.mem_cons_of_mem head lateMember)

theorem cutDecides_congr {left right : List (Shown Ref)}
    (classes : ∀ cut, left.filter (fun value => decide (upToZero (text value) = cut)) =
      right.filter (fun value => decide (upToZero (text value) = cut)))
    (decides : left.Pairwise (CutDecides text)) : right.Pairwise (CutDecides text) := by
  refine @pairwise_of_classes _ _ _ _ (fun value => upToZero (text value)) _ ?_ ?_
  · intro cut
    rw [← classes cut]
    exact decides.sublist List.filter_sublist
  · intro early _ late _ apart same
    exact absurd same apart

theorem inOrder_iff (text : Shown Ref → List UInt8) (elements : List (Shown Ref)) :
    (sortedBy (fun a b => strcmp (text a) (text b)) elements).Pairwise
        (fun a b => compareStrings (text a) (text b) ≤ 0) ↔
      elements.Pairwise (CutDecides text) := by
  simp only [compareStrings_le_iff]
  constructor
  · intro inOrder
    apply cutDecides_congr (sortedBy_cut elements)
    apply inOrder.imp
    intro a b before _
    exact before
  · intro decides
    have cuts := sortedBy_inOrder elements (strcmp_preorder text elements)
    have within := cutDecides_congr (fun cut => (sortedBy_cut elements cut).symm) decides
    apply (cuts.and within).imp
    rintro a b ⟨before, cut⟩
    rw [strcmp_le_iff] at before
    by_cases same : upToZero (text a) = upToZero (text b)
    · exact cut same
    · have less : upToZero (text a) < upToZero (text b) := by
        by_contra notLess
        exact same (List.le_antisymm before (List.not_lt.mp notLess))
      exact List.le_of_lt (lt_of_upToZero less)

end

/-- A comparator that orders the defined elements sorts them.  Without one they are in the
order of their whole texts exactly if no two of them agree up to their first zero byte
and stand the wrong way round. -/
theorem arraySort_stable_iff {Ref : Type} (shortestDigits : Double → Digits) (graph : Graph Ref)
    (fuel : Nat)
    (csVMCallAdapted : Shown Ref → List (Shown Ref) → Except (Failure Ref) (Shown Ref))
    (args elements : List (Shown Ref)) :
    (∀ (callback : Shown Ref) (answer : Shown Ref → Shown Ref → Double),
      args.head? = some callback → isUndefined callback = false →
      (∀ a ∈ definedOf elements, ∀ b ∈ definedOf elements,
        csVMCallAdapted callback [a, b] = .ok (.number (answer a b))) →
      TotalPreorder (fun a b => signOf (answer a b)) (definedOf elements) →
      ∃ sorted,
        arraySort (csValueToCString shortestDigits graph fuel) csVMCallAdapted args elements =
          .ok sorted ∧
        StableSort (fun a b => signOf (answer a b)) elements sorted) ∧
    (∀ text : Shown Ref → List UInt8, args.head?.getD .undefined = .undefined →
      (∀ value ∈ definedOf elements,
        csValueToCString shortestDigits graph fuel value = some (text value)) →
      ∃ sorted,
        arraySort (csValueToCString shortestDigits graph fuel) csVMCallAdapted args elements =
          .ok sorted ∧
        (StableSort (fun a b => compareStrings (text a) (text b)) elements sorted ↔
          (definedOf elements).Pairwise
            (fun a b => upToZero (text a) = upToZero (text b) → text a ≤ text b))) := by
  constructor
  · intro callback answer given callable answers preorder
    have chosen : args.head?.filter (fun callback => !isUndefined callback) = some callback := by
      rw [given, Option.filter_some, callable]
      rfl
    unfold arraySort
    simp only [chosen]
    apply sorts_of_preorder elements _ preorder
    intro a left b right
    unfold compareByCall
    rw [answers a left b right]
    rfl
  · intro text absent texts
    have chosen : args.head?.filter (fun callback => !isUndefined callback) = none := by
      cases given : args.head? with
      | none => rfl
      | some callback =>
          rw [given, Option.getD_some] at absent
          rw [absent]
          rfl
    have compared : ∀ a ∈ definedOf elements, ∀ b ∈ definedOf elements,
        compareAsStrings (csValueToCString shortestDigits graph fuel) a b =
          .ok (strcmp (text a) (text b)) := by
      intro a left b right
      unfold compareAsStrings
      rw [texts a left, texts b right]
    unfold arraySort
    simp only [chosen]
    obtain ⟨sorted, returned, perm, last, defined⟩ := partition_insertionSort elements compared
    refine ⟨sorted, returned, ?_⟩
    have iff := inOrder_iff text (definedOf elements)
    rw [← defined] at iff
    constructor
    · intro stable
      exact iff.mp stable.inOrder
    · intro decides
      refine ⟨perm, last, iff.mpr decides, ?_⟩
      intro value _
      rw [defined]
      apply sortedBy_stable
      intro a _ b _ leftTies rightTies
      have before := of_decide_eq_true (Bool.and_eq_true_iff.mp leftTies).2
      have behind := of_decide_eq_true (Bool.and_eq_true_iff.mp rightTies).1
      have after := of_decide_eq_true (Bool.and_eq_true_iff.mp leftTies).1
      have front := of_decide_eq_true (Bool.and_eq_true_iff.mp rightTies).2
      rw [compareStrings_le_iff] at before behind after front
      have same := List.le_antisymm (List.le_trans before behind) (List.le_trans front after)
      rw [strcmp_le_iff, same]
      exact List.le_refl _

/-! ### Arrays that are sorted, and one that is not -/

def letters (text : String) : Shown Unit :=
  .string ⟨ascii text⟩

def lettersOf : Shown Unit → List UInt8
  | .string s => s.chars
  | _ => []

/-- `(a, b) => a === b ? 0 : a ? Infinity : -Infinity`. -/
def falseFirst : Shown Unit → Shown Unit → Double
  | .bool true, .bool false => ⟨0x7ff0000000000000⟩
  | .bool false, .bool true => ⟨0xfff0000000000000⟩
  | _, _ => ⟨0⟩

def callFalseFirst (_ : Shown Unit) : List (Shown Unit) →
    Except (Failure Unit) (Shown Unit)
  | [a, b] => .ok (.number (falseFirst a b))
  | _ => .error (.thrown .undefined)

theorem signOf_zero : signOf ⟨0⟩ = 0 := by
  unfold signOf CompareOp.numbers
  cases (⟨0⟩ : Double).place with
  | none => rfl
  | some place => simp [CompareOp.orders]

theorem signOf_infinities :
    signOf ⟨0x7ff0000000000000⟩ = 1 ∧ signOf ⟨0xfff0000000000000⟩ = -1 := by
  have top : (⟨0x7ff0000000000000⟩ : Double).place = some ⊤ := rfl
  have bottom : (⟨0xfff0000000000000⟩ : Double).place = some ⊥ := rfl
  have zero : (⟨0⟩ : Double).place = some (NumberPlace.ofRat (⟨0⟩ : Double).value) := rfl
  have below : NumberPlace.ofRat (⟨0⟩ : Double).value < ⊤ :=
    WithBot.coe_lt_coe.mpr (WithTop.coe_lt_top _)
  have above : ⊥ < NumberPlace.ofRat (⟨0⟩ : Double).value := WithBot.bot_lt_coe _
  unfold signOf CompareOp.numbers
  rw [top, bottom, zero]
  simp [CompareOp.orders, below, above]

/-- Two flags and two strings around something undefined, both ways of sorting. -/
theorem arraySort_stable_flags :
    (∃ sorted, arraySort (csValueToCString noDigits emptyGraph 1) callFalseFirst
        [.callable (.function none)] [.bool true, .undefined, .bool false] = .ok sorted ∧
      StableSort (fun a b => signOf (falseFirst a b)) [.bool true, .undefined, .bool false]
        sorted) ∧
    (∃ sorted, arraySort (csValueToCString noDigits emptyGraph 1) callFalseFirst
        [] [letters "b", .undefined, letters "a"] = .ok sorted ∧
      StableSort (fun a b => compareStrings (lettersOf a) (lettersOf b))
        [letters "b", .undefined, letters "a"] sorted) := by
  constructor
  · have flags : ∀ value ∈ definedOf [.bool true, (.undefined : Shown Unit), .bool false],
        value = .bool true ∨ value = .bool false := by
      simp [definedOf, isUndefined]
    have infinities := signOf_infinities
    apply (arraySort_stable_iff noDigits emptyGraph 1 callFalseFirst
      [.callable (.function none)] [.bool true, .undefined, .bool false]).1
      (.callable (.function none)) falseFirst rfl rfl (fun _ _ _ _ => rfl)
    constructor
    · intro a left b right
      rcases flags a left with rfl | rfl <;> rcases flags b right with rfl | rfl <;>
        simp [falseFirst, signOf_zero, infinities]
    · intro a left b middle c right
      rcases flags a left with rfl | rfl <;> rcases flags b middle with rfl | rfl <;>
        rcases flags c right with rfl | rfl <;> simp [falseFirst, signOf_zero, infinities]
  · have strings : ∀ value ∈ definedOf [letters "b", .undefined, letters "a"],
        csValueToCString noDigits emptyGraph 1 value = some (lettersOf value) := by
      simp [definedOf, isUndefined, letters, lettersOf, csValueToCString, flatText, scalarText]
    obtain ⟨sorted, returned, iff⟩ := (arraySort_stable_iff noDigits emptyGraph 1 callFalseFirst
      [] [letters "b", .undefined, letters "a"]).2 lettersOf rfl strings
    refine ⟨sorted, returned, iff.mpr ?_⟩
    simp only [definedOf, letters, isUndefined, lettersOf]
    decide

/-- Two strings that differ behind a zero byte stay as they are. -/
theorem arraySort_unsorted :
    arraySort (csValueToCString noDigits emptyGraph 1) callFalseFirst []
      [.string ⟨[0, 98]⟩, .string ⟨[0, 97]⟩] = .ok [.string ⟨[0, 98]⟩, .string ⟨[0, 97]⟩] ∧
    ¬StableSort (fun a b => compareStrings (lettersOf a) (lettersOf b))
      [.string ⟨[0, 98]⟩, .string ⟨[0, 97]⟩] [.string ⟨[0, 98]⟩, .string ⟨[0, 97]⟩] := by
  constructor
  · rfl
  · intro stable
    have inOrder := stable.inOrder
    simp only [definedOf, isUndefined, lettersOf] at inOrder
    revert inOrder
    decide

end CScript.ArraySort
