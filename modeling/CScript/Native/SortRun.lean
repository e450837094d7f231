/-
A sort whose comparator may fail.

The comparator is the answers it gives in one run, call after call.  While elements are
moved up over the place of the key, the key is in a local and on the stack, not in the
array; an exit there leaves the array without it and the stack with what is on it.
-/

import CScript.Native.ArraySort

namespace CScript.SortRun

open NativeCall Rendering
open ArraySort (isUndefined partitionUndefined partitionUndefined_eq definedOf definedOf_perm
  compareAsStrings)

variable {Ref : Type}

inductive Answer (Ref : Type) where
  | returned (verdict : Shown Ref)
  /-- An exception is on its way out, with what the call had put on the stack. -/
  | threw (above : List (Shown Ref))
  /-- A runtime error ends the program. -/
  | ended

structure Sorting (Ref : Type) where
  elements : List (Shown Ref)
  stack : List (Shown Ref)

namespace Sorting

def set (sorting : Sorting Ref) (place : Nat) (value : Shown Ref) : Sorting Ref :=
  { sorting with elements := sorting.elements.set place value }

def get (sorting : Sorting Ref) (place : Nat) : Shown Ref :=
  sorting.elements.getD place .undefined

def push (sorting : Sorting Ref) (value : Shown Ref) : Sorting Ref :=
  { sorting with stack := value :: sorting.stack }

def pop (sorting : Sorting Ref) : Sorting Ref :=
  { sorting with stack := sorting.stack.tail }

/-- `csVMRuntimeError` -/
def runtimeError (sorting : Sorting Ref) : Sorting Ref :=
  { sorting with stack := [] }

end Sorting

/-- The comparison with the key, or nothing where `arraySort` returns false. -/
def compareByCall (sorting : Sorting Ref) (key : Shown Ref) :
    Answer Ref → Sorting Ref × Option Int
  | .returned verdict =>
      match verdict with
      | .number number => ((sorting.push key).pop, some (ArraySort.signOf number))
      | _ => ((sorting.push key).pop.runtimeError, none)
  | .threw above => ({ sorting.push key with stack := above ++ (sorting.push key).stack }, none)
  | .ended => ((sorting.push key).runtimeError, none)

abbrev Outcome (Ref : Type) := Sorting Ref × Bool

/-- The inner loop, with `hole` for `j + 1`; it takes an answer for each comparison. -/
def shift (key : Shown Ref) : Nat → Sorting Ref → List (Answer Ref) →
    Option (Outcome Ref × List (Answer Ref))
  | 0, sorting, answers => some ((sorting.set 0 key, true), answers)
  | _ + 1, _, [] => none
  | j + 1, sorting, answer :: answers =>
      match compareByCall sorting key answer with
      | (sorting, none) => some ((sorting, false), answers)
      | (sorting, some order) =>
          if order ≤ 0 then some ((sorting.set (j + 1) key, true), answers)
          else shift key j (sorting.set (j + 1) (sorting.get j)) answers

def insertionSort : List Nat → Sorting Ref → List (Answer Ref) →
    Option (Outcome Ref × List (Answer Ref))
  | [], sorting, answers => some ((sorting, true), answers)
  | i :: rest, sorting, answers =>
      match shift (sorting.get i) i sorting answers with
      | some ((sorting, true), answers) => insertionSort rest sorting answers
      | other => other

/-- `arraySort` called on an array with what is below it on the stack: what is left, and the
answers that have not been asked for. -/
def arraySort (csValueToCString : Shown Ref → Option (List UInt8)) (args : List (Shown Ref))
    (sorting : Sorting Ref) (answers : List (Answer Ref)) :
    Option (Outcome Ref × List (Answer Ref)) :=
  let (values, sortable) := partitionUndefined sorting.elements
  match args.head?.filter (fun callback => !isUndefined callback) with
  | some _ => insertionSort (List.range' 1 (sortable - 1)) { sorting with elements := values } answers
  | none =>
      match ArraySort.insertionSort (compareAsStrings csValueToCString) sortable values with
      | .ok sorted => some (({ sorting with elements := sorted }, true), answers)
      | .error (_, left) => some (({ sorting with elements := left }.runtimeError, false), answers)

/-! ### The key beside the array -/

theorem set_perm {values : List (Shown Ref)} {place : Nat} (within : place < values.length)
    (key : Shown Ref) :
    (key :: values).Perm (values.getD place .undefined :: values.set place key) := by
  have there : values.getD place .undefined = values[place] := List.getD_eq_getElem _ _ within
  have left := (List.getElem_cons_eraseIdx_perm within).symm
  have right := (List.set_perm_cons_eraseIdx within key).symm
  rw [there]
  exact (left.cons key).trans ((List.Perm.swap _ _ _).trans (right.cons _))

theorem hole_perm {values : List (Shown Ref)} {j : Nat} (within : j + 1 < values.length)
    (key : Shown Ref) :
    ((values.set (j + 1) (values.getD j .undefined)).set j key).Perm (values.set (j + 1) key) := by
  have above : values.getD (j + 1) .undefined = values[j + 1] := List.getD_eq_getElem _ _ within
  have kept : (values.set (j + 1) (values.getD j .undefined)).getD j .undefined =
      values.getD j .undefined := by
    rw [List.getD_eq_getElem?_getD, List.getD_eq_getElem?_getD,
      List.getElem?_set_ne (Nat.succ_ne_self j)]
  generalize beside : values.getD j .undefined = stale at *
  have moved := set_perm within stale
  have restored := set_perm within key
  have last := @set_perm _ (values.set (j + 1) stale) j (by rw [List.length_set]; omega) key
  rw [kept] at last
  have whole : (values[j + 1] :: stale :: (values.set (j + 1) stale).set j key).Perm
      (values[j + 1] :: stale :: values.set (j + 1) key) := by
    rw [← above]
    calc (values.getD (j + 1) .undefined :: stale :: (values.set (j + 1) stale).set j key).Perm
          (values.getD (j + 1) .undefined :: key :: values.set (j + 1) stale) := last.symm.cons _
      _ |>.Perm (key :: values.getD (j + 1) .undefined :: values.set (j + 1) stale) :=
          List.Perm.swap _ _ _
      _ |>.Perm (key :: stale :: values) := moved.symm.cons _
      _ |>.Perm (stale :: key :: values) := List.Perm.swap _ _ _
      _ |>.Perm (stale :: values.getD (j + 1) .undefined :: values.set (j + 1) key) :=
          restored.cons _
      _ |>.Perm (values.getD (j + 1) .undefined :: stale :: values.set (j + 1) key) :=
          List.Perm.swap _ _ _
  exact (whole.cons_inv).cons_inv

/-! ### One comparison -/

def Answer.IsNumber : Answer Ref → Prop
  | .returned (.number _) => True
  | _ => False

def Abandoned (key : Shown Ref) (stack left : List (Shown Ref)) : Prop :=
  left = [] ∨ ∃ above, left = above ++ key :: stack

theorem Abandoned.length_ne {key : Shown Ref} {stack left : List (Shown Ref)}
    (abandoned : Abandoned key stack left) (occupied : stack ≠ []) :
    left.length ≠ stack.length := by
  rcases abandoned with rfl | ⟨above, rfl⟩
  · exact fun same => occupied (List.eq_nil_of_length_eq_zero same.symm)
  · rw [List.length_append, List.length_cons]
    omega

theorem compareByCall_failed (sorting : Sorting Ref) (key : Shown Ref) {answer : Answer Ref}
    (failed : ¬answer.IsNumber) :
    ∃ left, compareByCall sorting key answer = ({ sorting with stack := left }, none) ∧
      Abandoned key sorting.stack left := by
  cases answer with
  | returned verdict =>
      refine ⟨[], ?_, .inl rfl⟩
      cases verdict <;> first | rfl | exact absurd trivial failed
  | threw above => exact ⟨_, rfl, .inr ⟨above, rfl⟩⟩
  | ended => exact ⟨[], rfl, .inl rfl⟩

/-! ### One round -/

structure Settled (before : List (Shown Ref)) (stack : List (Shown Ref)) (outcome : Outcome Ref)
    (used : List (Answer Ref)) : Prop where
  went : outcome.2 = true →
    outcome.1.elements.Perm before ∧ outcome.1.stack = stack ∧ ∀ answer ∈ used, answer.IsNumber
  failed : outcome.2 = false →
    ∃ key stale, (key :: outcome.1.elements).Perm (stale :: before) ∧
      Abandoned key stack outcome.1.stack ∧ ∃ answer ∈ used, ¬answer.IsNumber

theorem shift_settled {key : Shown Ref} {hole : Nat} {sorting : Sorting Ref}
    {answers rest : List (Answer Ref)} {outcome : Outcome Ref}
    (within : hole < sorting.elements.length)
    (run : shift key hole sorting answers = some (outcome, rest)) :
    ∃ used, answers = used ++ rest ∧
      outcome.1.elements.length = sorting.elements.length ∧
      Settled (sorting.elements.set hole key) sorting.stack outcome used := by
  induction hole generalizing sorting answers with
  | zero =>
      cases run
      exact ⟨[], rfl, List.length_set, fun _ => ⟨.refl _, rfl, List.forall_mem_nil _⟩, nofun⟩
  | succ j ih =>
      cases answers with
      | nil => cases run
      | cons answer answers =>
          rw [shift] at run
          by_cases number : answer.IsNumber
          · obtain ⟨verdict, rfl⟩ : ∃ verdict, answer = .returned (.number verdict) := by
              match answer, number with
              | .returned (.number verdict), _ => exact ⟨verdict, rfl⟩
            rw [show compareByCall sorting key (.returned (.number verdict)) =
              (sorting, some (ArraySort.signOf verdict)) from rfl] at run
            dsimp only at run
            split at run
            · cases run
              exact ⟨[.returned (.number verdict)], rfl, List.length_set,
                fun _ => ⟨.refl _, rfl, List.forall_mem_singleton.mpr trivial⟩, nofun⟩
            · obtain ⟨used, rfl, size, settled⟩ := ih (by
                show j < (sorting.elements.set (j + 1) _).length
                rw [List.length_set]
                omega) run
              refine ⟨.returned (.number verdict) :: used, rfl, size.trans List.length_set, ?_, ?_⟩
              · intro went
                obtain ⟨perm, stack, numbers⟩ := settled.went went
                exact ⟨perm.trans (hole_perm within key), stack,
                  List.forall_mem_cons.mpr ⟨trivial, numbers⟩⟩
              · intro failed
                obtain ⟨lost, stale, perm, stack, answer, there, other⟩ := settled.failed failed
                exact ⟨lost, stale, perm.trans ((hole_perm within key).cons stale), stack, answer,
                  List.mem_cons_of_mem _ there, other⟩
          · obtain ⟨left, is, abandoned⟩ := compareByCall_failed sorting key number
            rw [is] at run
            cases run
            exact ⟨[answer], rfl, rfl, nofun, fun _ => ⟨key, _, set_perm within key, abandoned,
              answer, List.mem_singleton_self _, number⟩⟩

/-! ### The whole sort -/

theorem insertionSort_settled {places : List Nat} {sorting : Sorting Ref}
    {answers rest : List (Answer Ref)} {outcome : Outcome Ref}
    (within : ∀ place ∈ places, place < sorting.elements.length)
    (run : insertionSort places sorting answers = some (outcome, rest)) :
    ∃ used, answers = used ++ rest ∧
      outcome.1.elements.length = sorting.elements.length ∧
      Settled sorting.elements sorting.stack outcome used := by
  induction places generalizing sorting answers with
  | nil =>
      cases run
      exact ⟨[], rfl, rfl, fun _ => ⟨.refl _, rfl, List.forall_mem_nil _⟩, nofun⟩
  | cons place places ih =>
      have here := within place List.mem_cons_self
      have same : sorting.elements.set place (sorting.get place) = sorting.elements := by
        unfold Sorting.get
        rw [List.getD_eq_getElem _ _ here, List.set_getElem_self]
      rw [insertionSort] at run
      cases round : shift (sorting.get place) place sorting answers with
      | none =>
          rw [round] at run
          cases run
      | some done =>
          obtain ⟨⟨next, went⟩, left⟩ := done
          obtain ⟨used, rfl, size, settled⟩ := shift_settled here round
          rw [same] at settled
          rw [round] at run
          cases went with
          | false =>
              cases run
              exact ⟨used, rfl, size, settled⟩
          | true =>
              obtain ⟨perm, stack, numbers⟩ := settled.went rfl
              obtain ⟨more, rfl, size', settled'⟩ := ih
                (fun place there => size ▸ within place (List.mem_cons_of_mem _ there)) run
              refine ⟨used ++ more, (List.append_assoc _ _ _).symm, size'.trans size, ?_, ?_⟩
              · intro went
                obtain ⟨perm', stack', numbers'⟩ := settled'.went went
                exact ⟨perm'.trans perm, stack'.trans stack,
                  List.forall_mem_append.mpr ⟨numbers, numbers'⟩⟩
              · intro failed
                obtain ⟨lost, stale, perm', abandoned, answer, there, other⟩ :=
                  settled'.failed failed
                exact ⟨lost, stale, perm'.trans (perm.cons stale), stack ▸ abandoned, answer,
                  List.mem_append_right _ there, other⟩

theorem arraySort_callback (csValueToCString : Shown Ref → Option (List UInt8))
    {callback : Shown Ref} (called : isUndefined callback = false) (more : List (Shown Ref))
    (sorting : Sorting Ref) (answers : List (Answer Ref)) :
    arraySort csValueToCString (callback :: more) sorting answers =
      insertionSort (List.range' 1 ((partitionUndefined sorting.elements).2 - 1))
        { sorting with elements := (partitionUndefined sorting.elements).1 } answers := by
  unfold arraySort
  rw [List.head?_cons, Option.filter_some, called]
  rfl

/-- A sort keeps its elements and the height of the stack just when every comparison has been
answered by a number; it keeps the length always, and a sort that fails puts an element that is
there already in the place of one that is lost. -/
theorem arraySort_keeps_iff {csValueToCString : Shown Ref → Option (List UInt8)}
    {callee callback : Shown Ref} {more elements below : List (Shown Ref)}
    (called : isUndefined callback = false) {answers : List (Answer Ref)} {after : Sorting Ref}
    {returned : Bool}
    (run : arraySort csValueToCString (callback :: more)
      ⟨elements, (callback :: more).reverse ++ callee :: below⟩ answers =
        some ((after, returned), [])) :
    after.elements.length = elements.length ∧
      (after.elements.Perm elements ∧
          after.stack.length = ((callback :: more).reverse ++ callee :: below).length ↔
        ∀ answer ∈ answers, answer.IsNumber) ∧
      (returned = true ↔ ∀ answer ∈ answers, answer.IsNumber) ∧
      (returned = false →
        ∃ key stale, (key :: after.elements).Perm (stale :: elements)) := by
  have whole : (partitionUndefined elements).1.Perm elements := by
    rw [partitionUndefined_eq]
    exact definedOf_perm elements
  have fits : (partitionUndefined elements).2 ≤ elements.length := by
    rw [partitionUndefined_eq]
    exact List.length_filter_le _ _
  have occupied : (callback :: more).reverse ++ callee :: below ≠ [] :=
    List.append_ne_nil_of_right_ne_nil _ (List.cons_ne_nil _ _)
  generalize (callback :: more).reverse ++ callee :: below = stack at run occupied ⊢
  rw [arraySort_callback csValueToCString called] at run
  obtain ⟨used, rfl, size, settled⟩ := insertionSort_settled (by
    intro place there
    rw [List.mem_range'_1] at there
    show place < (partitionUndefined elements).1.length
    rw [whole.length_eq]
    dsimp only at there
    omega) run
  rw [List.append_nil]
  refine ⟨size.trans whole.length_eq, ?_⟩
  cases returned with
  | true =>
      obtain ⟨perm, kept, numbers⟩ := settled.went rfl
      exact ⟨iff_of_true ⟨perm.trans whole, congrArg List.length kept⟩ numbers,
        iff_of_true rfl numbers, nofun⟩
  | false =>
      obtain ⟨key, stale, perm, abandoned, answer, there, other⟩ := settled.failed rfl
      have some : ¬∀ answer ∈ used, answer.IsNumber := fun numbers => other (numbers answer there)
      exact ⟨iff_of_false (fun kept => abandoned.length_ne occupied kept.2) some,
        iff_of_false Bool.false_ne_true some,
        fun _ => ⟨key, stale, perm.trans (whole.cons stale)⟩⟩

/-- `["b", "a"].sort(cmp)` where `cmp` throws at once. -/
theorem arraySort_keeps_iff_threw :
    [ArraySort.letters "b", ArraySort.letters "a"].Perm
          [ArraySort.letters "b", ArraySort.letters "a"] ∧
        [ArraySort.letters "a", .callable (.function none), .undefined].length =
          [(.callable (.function none) : Shown Unit), .undefined].length ↔
      ∀ answer ∈ [(Answer.threw [] : Answer Unit)], answer.IsNumber :=
  (@arraySort_keeps_iff Unit (fun _ => none) .undefined (.callable (.function none)) [] _ [] rfl
    [.threw []] ⟨[ArraySort.letters "b", ArraySort.letters "a"],
      [ArraySort.letters "a", .callable (.function none), .undefined]⟩ false rfl).2.1

/-- `["c", "a", "b"].sort(cmp)` where `cmp` answers Infinity twice and throws then: "b" is gone,
and the key is still on the stack. -/
theorem element_lost :
    ∃ after : Sorting Unit,
      arraySort (fun _ => none) [.callable (.function none)]
          ⟨[ArraySort.letters "c", ArraySort.letters "a", ArraySort.letters "b"],
            [.callable (.function none), .undefined]⟩
          [.returned (.number ⟨0x7ff0000000000000⟩), .returned (.number ⟨0x7ff0000000000000⟩),
            .threw []] = some ((after, false), []) ∧
      after.elements = [ArraySort.letters "a", ArraySort.letters "c", ArraySort.letters "c"] ∧
      ¬after.elements.Perm
        [ArraySort.letters "c", ArraySort.letters "a", ArraySort.letters "b"] ∧
      after.stack.length ≠ 2 := by
  refine ⟨⟨[ArraySort.letters "a", ArraySort.letters "c", ArraySort.letters "c"],
    [ArraySort.letters "b", .callable (.function none), .undefined]⟩, ?_, rfl, ?_, by decide⟩
  · have apart : partitionUndefined
        [ArraySort.letters "c", ArraySort.letters "a", ArraySort.letters "b"] =
          ([ArraySort.letters "c", ArraySort.letters "a", ArraySort.letters "b"], 3) := rfl
    have after : ∀ sorting : Sorting Unit, ∀ key,
        compareByCall sorting key (.returned (.number ⟨0x7ff0000000000000⟩)) =
          (sorting, some 1) := by
      intro sorting key
      rw [compareByCall, ArraySort.signOf_infinities.1]
      rfl
    rw [arraySort_callback _ rfl, apart]
    simp only [insertionSort, shift, after, List.range']
    rfl
  · intro perm
    have there := perm.mem_iff (a := ArraySort.letters "b")
    simp only [ArraySort.letters, ascii, List.mem_cons, Shown.string.injEq, ObjString.mk.injEq,
      List.not_mem_nil, or_false] at there
    exact absurd there (by decide)

end CScript.SortRun
