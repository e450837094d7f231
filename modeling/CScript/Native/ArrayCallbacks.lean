/-
The array methods that call user code.

A callback may do anything to the array and have the heap collected at any moment, so a
call is given by the moments it goes through, what it leaves in the array and its answer.
A run is recorded as the elements the method itself reads or writes, each with the length
at that time, and as the values it keeps over a moment of a call to use them later.
-/

import CScript.Native.ArraySort
import CScript.Runtime.MemoryMarking
import CScript.Runtime.PropertyOps

namespace CScript.ArrayCallbacks

/-! ### Calls -/

/-- While a call runs: what it has on the stack and as temporary roots, the array that is
walked over, and everything else. -/
structure Moment where
  above : List Value
  temporary : List Obj
  extras : Option Table
  elements : List Value
  machine : VM

/-- `csVMCallAdapted`: nothing is answered where it returns false. -/
structure Call where
  moments : List Moment
  elements : List Value
  cells : Cells
  answer : Option Value

/-- A native method of an array: the stack below it, its arguments, what it has pushed itself,
and the new array that it has made a temporary root. -/
structure Native where
  array : Nat
  below : List Value
  args : List Value
  pushed : List Value
  made : Option (Nat × List Value)

namespace Native

def receiver (native : Native) : Value :=
  .obj (.cell .array native.array)

def callback (native : Native) : Value :=
  native.args.headD .undefined

def stack (native : Native) : List Value :=
  native.below ++ (native.receiver :: native.args) ++ (native.pushed)

def push (native : Native) (value : Value) : Native :=
  { native with pushed := native.pushed ++ [value] }

/-- `csNativeAppendRooted` -/
def append (native : Native) (value : Value) : Native :=
  { native with made := native.made.map fun (address, values) => (address, values ++ [value]) }

def madeCell (native : Native) : List Cell :=
  native.made.toList.map fun (address, values) => ⟨.cell .array address, .array none values⟩

def vm (native : Native) (moment : Moment) : VM :=
  { moment.machine with
    objects := ⟨.cell .array native.array, .array moment.extras moment.elements⟩ ::
      (native.madeCell ++ moment.machine.objects)
    roots := { moment.machine.roots with
      stack := native.stack ++ moment.above
      tempRoots := native.made.toList.map (fun (address, _) => .cell .array address) ++
        moment.temporary } }

/-- What the method uses again after every call. -/
def locals (native : Native) : List Value :=
  native.receiver :: native.callback ::
    native.made.toList.map fun (address, _) => .obj (.cell .array address)

end Native

/-! ### What a method does -/

inductive Event where
  /-- It reads or writes `elements.values[index]`. -/
  | access (index count : Nat)
  /-- It holds a value in a local, to use it later. -/
  | held (value : Value) (vm : VM)

def Alive (vm : VM) (value : Value) : Prop :=
  ∀ object ∈ ofValue value, Live vm object

def Event.Good : Event → Prop
  | .access index count => index < count
  | .held value vm => Alive vm value

/-- A call during which so many values more are kept. -/
def during (native : Native) (more : List Value) (moments : List Moment) : List Event :=
  moments.flatMap fun moment =>
    (native.locals ++ more).map fun value => .held value (native.vm moment)

/-! ### Walking up -/

abbrev Turn := Native → Value → Call → List Event × Option Native

def walkLoop (turn : Turn) (native : Native) (i : Nat) (elements : List Value) :
    List Call → List Event
  | [] => if i < elements.length then [.access i elements.length] else []
  | call :: calls =>
      if i < elements.length then
        let (events, next) := turn native (elements.getD i .undefined) call
        .access i elements.length :: (events ++
          match next with
          | none => []
          | some native => walkLoop turn native (i + 1) call.elements calls)
      else []

def forEachTurn : Turn := fun native _ call =>
  (during native [] call.moments, call.answer.map fun _ => native)

def mapTurn : Turn := fun native _ call =>
  (during native [] call.moments, call.answer.map native.append)

def filterTurn : Turn := fun native element call =>
  match call.answer with
  | none => (during native [] call.moments, none)
  | some verdict =>
      if csValueIsTruthy call.cells verdict then
        (during native [element] call.moments, some (native.append element))
      else (during native [] call.moments, some native)

/-- The accumulator is on the stack during the call. -/
def reduceTurn : Turn := fun native _ call =>
  (during native native.pushed call.moments,
    call.answer.map fun produced => { native with pushed := [produced] })

inductive SearchMode where
  | find
  | findIndex
  | some
  | every
  deriving DecidableEq

def searchTurn (mode : SearchMode) : Turn := fun native element call =>
  match call.answer with
  | none => (during native [] call.moments, none)
  | some verdict =>
      let matched := csValueIsTruthy call.cells verdict
      match mode with
      | .every => (during native [] call.moments, if matched then some native else none)
      | .find =>
          if matched then (during native [element] call.moments, none)
          else (during native [] call.moments, some native)
      | _ => (during native [] call.moments, if matched then none else some native)

/-- Without a callback there is an error and nothing else. -/
def requireCallback {A : Type} (native : Native) (run : List A) : List A :=
  if native.args = [] then [] else run

/-- `csArrayNew`, which gives the new array its address. -/
def Native.make (native : Native) (address : Nat) : Native :=
  { native with made := some (address, []) }

def arrayForEach (native : Native) (elements : List Value) (calls : List Call) : List Event :=
  requireCallback native (walkLoop forEachTurn native 0 elements calls)

def arrayMap (address : Nat) (native : Native) (elements : List Value) (calls : List Call) :
    List Event :=
  requireCallback native (walkLoop mapTurn (native.make address) 0 elements calls)

def arrayFilter (address : Nat) (native : Native) (elements : List Value)
    (calls : List Call) : List Event :=
  requireCallback native (walkLoop filterTurn (native.make address) 0 elements calls)

def arrayReduce (native : Native) (elements : List Value) (calls : List Call) : List Event :=
  requireCallback native
    (match native.args[1]? with
    | some accumulator => walkLoop reduceTurn (native.push accumulator) 0 elements calls
    | none =>
        if elements.length = 0 then []
        else .access 0 elements.length ::
          walkLoop reduceTurn (native.push (elements.getD 0 .undefined)) 1 elements calls)

def arraySearch (mode : SearchMode) (native : Native) (elements : List Value)
    (calls : List Call) : List Event :=
  requireCallback native (walkLoop (searchTurn mode) native 0 elements calls)

/-! ### Walking down -/

def reduceRightLoop (native : Native) (elements : List Value) : Nat → List Call → List Event
  | 0, _ => []
  | index + 1, [] => [.access index elements.length]
  | index + 1, call :: calls =>
      let (events, next) := reduceTurn native (elements.getD index .undefined) call
      .access index elements.length :: (events ++
        match next with
        | none => []
        | some native => reduceRightLoop native call.elements index calls)

def arrayReduceRight (native : Native) (elements : List Value) (calls : List Call) :
    List Event :=
  requireCallback native
    (match native.args[1]? with
    | some accumulator =>
        reduceRightLoop (native.push accumulator) elements elements.length calls
    | none =>
        if elements.length = 0 then []
        else
          let last := elements.length - 1
          .access last elements.length ::
            reduceRightLoop (native.push (elements.getD last .undefined)) elements last calls)

/-! ### Sorting -/

inductive Comparison where
  | called (call : Call)
  | byStrings (order : Option Int)

namespace Comparison

def moments : Comparison → List Moment
  | .called call => call.moments
  | .byStrings _ => []

def after (elements : List Value) : Comparison → List Value
  | .called call => call.elements
  | .byStrings _ => elements

def order : Comparison → Option Int
  | .called call =>
      match call.answer with
      | some (.number verdict) => some (ArraySort.signOf verdict)
      | _ => none
  | .byStrings order => order

end Comparison

/-- The first loop: what it does, and what is defined. -/
def gatherLoop : Nat → Nat → Nat → List Value → List Event × List Value × Nat
  | 0, _, defined, elements => ([], elements, defined)
  | steps + 1, i, defined, elements =>
      let value := elements.getD i .undefined
      if value = .undefined then
        let (events, after) := gatherLoop steps (i + 1) defined elements
        (.access i elements.length :: events, after)
      else
        let (events, after) := gatherLoop steps (i + 1) (defined + 1) (elements.set defined value)
        (.access i elements.length :: .access defined elements.length :: events, after)

def fillLoop : Nat → Nat → List Value → List Event × List Value
  | 0, _, elements => ([], elements)
  | steps + 1, i, elements =>
      let (events, after) := fillLoop steps (i + 1) (elements.set i .undefined)
      (.access i elements.length :: events, after)

structure Sorting where
  i : Nat
  j : Nat
  key : Value
  elements : List Value

def nextKey (sortable i : Nat) (elements : List Value) : List Event × Option Sorting :=
  if i < sortable then
    ([.access i elements.length],
      some { i := i, j := i - 1, key := elements.getD i .undefined, elements := elements })
  else ([], none)

/-- `array->elements.values[place] = key` -/
def store (sortable : Nat) (sorting : Sorting) (place : Nat) : List Event × Option Sorting :=
  let (events, next) :=
    nextKey sortable (sorting.i + 1) (sorting.elements.set place sorting.key)
  (.access place sorting.elements.length :: events, next)

def advance (sortable : Nat) (sorting : Sorting) (order : Int) : List Event × Option Sorting :=
  let { i, j, key, elements } := sorting
  if order ≤ 0 then store sortable sorting (j + 1)
  else
    let moved := elements.set (j + 1) (elements.getD j .undefined)
    let (events, next) :=
      match j with
      | 0 => store sortable { i := i, j := 0, key := key, elements := moved } 0
      | j + 1 => ([], some { i := i, j := j, key := key, elements := moved })
    (.access j elements.length :: .access (j + 1) elements.length :: events, next)

def sortLoop (native : Native) (sortable : Nat) (sorting : Sorting) :
    List Comparison → List Event
  | [] => [.access sorting.j sorting.elements.length]
  | comparison :: rest =>
      .access sorting.j sorting.elements.length ::
        (during (native.push sorting.key) [sorting.key] comparison.moments ++
          match comparison.order with
          | none => []
          | some order =>
              let (events, next) := advance sortable
                { sorting with elements := comparison.after sorting.elements } order
              events ++
                match next with
                | none => []
                | some sorting => sortLoop native sortable sorting rest)

/-- Every `undefined` goes to the end, and how many others there are. -/
def partitionUndefined (elements : List Value) : List Event × List Value × Nat :=
  let (gathered, moved, defined) := gatherLoop elements.length 0 0 elements
  let (filled, values) := fillLoop (moved.length - defined) defined moved
  (gathered ++ filled, values, defined)

def hasComparator (native : Native) : Bool :=
  decide (native.callback ≠ .undefined)

/-- The comparisons of a run are calls, or else what `compareAsStrings` comes to. -/
def comparisonsOf (native : Native) (calls : List Call) (orders : List (Option Int)) :
    List Comparison :=
  if hasComparator native then calls.map .called else orders.map .byStrings

def arraySort (native : Native) (elements : List Value) (calls : List Call)
    (orders : List (Option Int)) : List Event :=
  let (partitioned, values, sortable) := partitionUndefined elements
  let (events, next) := nextKey sortable 1 values
  partitioned ++ (events ++
    match next with
    | none => []
    | some sorting => sortLoop native sortable sorting (comparisonsOf native calls orders))

/-! ### What is reached from the roots -/

def Safe (events : List Event) : Prop :=
  ∀ event ∈ events, event.Good

theorem safe_nil : Safe [] :=
  fun _ inside => absurd inside List.not_mem_nil

theorem safe_cons {event : Event} {events : List Event} :
    Safe (event :: events) ↔ event.Good ∧ Safe events :=
  List.forall_mem_cons

theorem safe_append {first second : List Event} :
    Safe (first ++ second) ↔ Safe first ∧ Safe second :=
  List.forall_mem_append

theorem alive_of_stack {native : Native} {value : Value} (pushed : value ∈ native.stack)
    (moment : Moment) : Alive (native.vm moment) value := by
  intro object points
  apply (live_closed (native.vm moment)).roots
  have held : object ∈ (native.vm moment).roots.stack.flatMap ofValue :=
    List.mem_flatMap.mpr ⟨value, List.mem_append_left _ pushed, points⟩
  unfold rootReferences
  simp only [List.mem_append, held, true_or]

theorem receiver_alive (native : Native) (moment : Moment) :
    Alive (native.vm moment) native.receiver :=
  alive_of_stack (by
    unfold Native.stack
    exact List.mem_append_left _ (List.mem_append_right _ List.mem_cons_self)) moment

theorem callback_alive (native : Native) (moment : Moment) :
    Alive (native.vm moment) native.callback := by
  unfold Native.callback
  cases given : native.args with
  | nil => exact fun object points => absurd points List.not_mem_nil
  | cons callback rest =>
      refine alive_of_stack ?_ moment
      unfold Native.stack
      rw [given]
      exact List.mem_append_left _
        (List.mem_append_right _ (List.mem_cons_of_mem _ List.mem_cons_self))

theorem pushed_alive {native : Native} {value : Value} (pushed : value ∈ native.pushed)
    (moment : Moment) : Alive (native.vm moment) value :=
  alive_of_stack (List.mem_append_right _ pushed) moment

theorem made_alive {native : Native} {address : Nat} {values : List Value}
    (made : native.made = some (address, values)) (moment : Moment) :
    Live (native.vm moment) (.cell .array address) := by
  apply (live_closed (native.vm moment)).roots
  have held : Obj.cell .array address ∈ (native.vm moment).roots.tempRoots := by
    unfold Native.vm
    rw [made]
    exact List.mem_cons_self
  unfold rootReferences
  simp only [List.mem_append, held, true_or, or_true]

theorem locals_alive {native : Native} {value : Value} (kept : value ∈ native.locals)
    (moment : Moment) : Alive (native.vm moment) value := by
  rcases List.mem_cons.mp kept with rfl | kept
  · exact receiver_alive native moment
  rcases List.mem_cons.mp kept with rfl | kept
  · exact callback_alive native moment
  obtain ⟨⟨address, values⟩, made, rfl⟩ := List.mem_map.mp kept
  intro object points
  obtain rfl := List.mem_singleton.mp points
  exact made_alive (Option.mem_toList.mp made) moment

theorem during_safe {native : Native} {more : List Value} {moments : List Moment} :
    Safe (during native more moments) ↔
      ∀ moment ∈ moments, ∀ value ∈ more, Alive (native.vm moment) value := by
  constructor
  · intro safe moment member value kept
    exact safe (.held value (native.vm moment)) (List.mem_flatMap.mpr ⟨moment, member,
      List.mem_map.mpr ⟨value, List.mem_append_right _ kept, rfl⟩⟩)
  · intro alive event inside
    obtain ⟨moment, member, inside⟩ := List.mem_flatMap.mp inside
    obtain ⟨value, kept, rfl⟩ := List.mem_map.mp inside
    rcases List.mem_append.mp kept with local_ | extra
    · exact locals_alive local_ moment
    · exact alive moment member value extra

theorem during_locals (native : Native) (moments : List Moment) :
    Safe (during native [] moments) :=
  during_safe.mpr fun _ _ _ none => absurd none List.not_mem_nil

/-! ### Walking up -/

structure Step where
  native : Native
  element : Value
  call : Call

def steps (turn : Turn) (native : Native) (i : Nat) (elements : List Value) :
    List Call → List Step
  | [] => []
  | call :: calls =>
      if i < elements.length then
        { native := native, element := elements.getD i .undefined, call := call } ::
          match (turn native (elements.getD i .undefined) call).2 with
          | none => []
          | some native => steps turn native (i + 1) call.elements calls
      else []

theorem walkLoop_safe (turn : Turn) (native : Native) (i : Nat) (elements : List Value)
    (calls : List Call) :
    Safe (walkLoop turn native i elements calls) ↔
      ∀ step ∈ steps turn native i elements calls,
        Safe (turn step.native step.element step.call).1 := by
  induction calls generalizing native i elements with
  | nil =>
      refine iff_of_true ?_ fun _ inside => absurd inside List.not_mem_nil
      unfold walkLoop
      split
      next within => exact safe_cons.mpr ⟨within, safe_nil⟩
      next => exact safe_nil
  | cons call calls ih =>
      unfold walkLoop steps
      split
      next within =>
        rw [safe_cons, List.forall_mem_cons, safe_append]
        refine (and_iff_right within).trans (and_congr Iff.rfl ?_)
        cases (turn native (elements.getD i .undefined) call).2 with
        | none => exact iff_of_true safe_nil fun _ inside => absurd inside List.not_mem_nil
        | some native => exact ih native (i + 1) call.elements
      next => exact iff_of_true safe_nil fun _ inside => absurd inside List.not_mem_nil

theorem walkLoop_safe_of {turn : Turn}
    (all : ∀ native element call, Safe (turn native element call).1) (native : Native) (i : Nat)
    (elements : List Value) (calls : List Call) :
    Safe (walkLoop turn native i elements calls) :=
  (walkLoop_safe turn native i elements calls).mpr fun step _ =>
    all step.native step.element step.call

def Step.Accepts (step : Step) : Prop :=
  ∃ verdict, step.call.answer = some verdict ∧
    csValueIsTruthy step.call.cells verdict = true

def Step.Keeps (step : Step) : Prop :=
  ∀ moment ∈ step.call.moments, Alive (step.native.vm moment) step.element

/-- What `arrayFilter` and `find` use after the call. -/
def usedAfter (element : Value) (call : Call) : List Value :=
  if call.answer.any (csValueIsTruthy call.cells) then [element] else []

theorem filterTurn_events (native : Native) (element : Value) (call : Call) :
    (filterTurn native element call).1 = during native (usedAfter element call) call.moments := by
  unfold filterTurn usedAfter
  cases call.answer with
  | none => rfl
  | some verdict =>
      rw [Option.any_some]
      dsimp only
      split <;> rfl

theorem findTurn_events (native : Native) (element : Value) (call : Call) :
    (searchTurn .find native element call).1 =
      during native (usedAfter element call) call.moments := by
  unfold searchTurn usedAfter
  cases call.answer with
  | none => rfl
  | some verdict =>
      rw [Option.any_some]
      dsimp only
      split <;> rfl

theorem usedAfter_safe (step : Step) :
    Safe (during step.native (usedAfter step.element step.call) step.call.moments) ↔
      (step.Accepts → step.Keeps) := by
  have accepts : step.call.answer.any (csValueIsTruthy step.call.cells) = true ↔
      step.Accepts := by
    unfold Step.Accepts
    cases step.call.answer <;> simp
  rw [during_safe]
  unfold usedAfter
  split
  next truthy =>
    refine Iff.trans ?_ ⟨fun keeps _ => keeps, fun keeps => keeps (accepts.mp truthy)⟩
    exact forall₂_congr fun _ _ => List.forall_mem_singleton
  next falsy =>
    exact iff_of_true (fun _ _ _ none => absurd none List.not_mem_nil)
      fun accepted => absurd (accepts.mpr accepted) falsy

theorem searchTurn_safe {mode : SearchMode} (other : mode ≠ .find) (native : Native)
    (element : Value) (call : Call) : Safe (searchTurn mode native element call).1 := by
  unfold searchTurn
  split
  next => exact during_locals _ _
  next =>
    cases mode with
    | find => exact absurd rfl other
    | findIndex => exact during_locals _ _
    | some => exact during_locals _ _
    | every => exact during_locals _ _

theorem reduceTurn_safe (native : Native) (element : Value) (call : Call) :
    Safe (reduceTurn native element call).1 :=
  during_safe.mpr fun moment _ _ pushed => pushed_alive pushed moment

theorem requireCallback_safe {native : Native} {run : List Event} (safe : Safe run) :
    Safe (requireCallback native run) := by
  unfold requireCallback
  split
  · exact safe_nil
  · exact safe

theorem arrayReduce_safe (native : Native) (elements : List Value) (calls : List Call) :
    Safe (arrayReduce native elements calls) := by
  apply requireCallback_safe
  split
  · exact walkLoop_safe_of reduceTurn_safe _ _ _ _
  · split
    · exact safe_nil
    next some =>
      exact safe_cons.mpr ⟨Nat.pos_of_ne_zero some, walkLoop_safe_of reduceTurn_safe _ _ _ _⟩

/-- The calls of the loop of `arrayFilter` or `arraySearch`. -/
def stepsOf (turn : Turn) (native running : Native) (elements : List Value)
    (calls : List Call) : List Step :=
  requireCallback native (steps turn running 0 elements calls)

theorem loop_safe {turn : Turn}
    (uses : ∀ native element call,
      (turn native element call).1 = during native (usedAfter element call) call.moments)
    (native running : Native) (elements : List Value) (calls : List Call) :
    Safe (requireCallback native (walkLoop turn running 0 elements calls)) ↔
      ∀ step ∈ stepsOf turn native running elements calls, step.Accepts → step.Keeps := by
  unfold stepsOf requireCallback
  split
  · exact iff_of_true safe_nil fun _ inside => absurd inside List.not_mem_nil
  · rw [walkLoop_safe]
    refine forall₂_congr fun step _ => ?_
    rw [uses]
    exact usedAfter_safe step

/-! ### Walking down -/

def LeavesEnough : Nat → List Call → Prop
  | index + 1, call :: calls =>
      call.answer.isSome → index ≤ call.elements.length ∧ LeavesEnough index calls
  | _, _ => True

theorem reduceRightLoop_safe (native : Native) (elements : List Value) (index : Nat)
    (calls : List Call) :
    Safe (reduceRightLoop native elements index calls) ↔
      index ≤ elements.length ∧ LeavesEnough index calls := by
  induction calls generalizing native elements index with
  | nil =>
      cases index with
      | zero => exact iff_of_true safe_nil ⟨Nat.zero_le _, trivial⟩
      | succ index =>
          unfold reduceRightLoop LeavesEnough
          rw [safe_cons]
          exact and_congr Iff.rfl (iff_of_true safe_nil trivial)
  | cons call calls ih =>
      cases index with
      | zero => exact iff_of_true safe_nil ⟨Nat.zero_le _, trivial⟩
      | succ index =>
          unfold reduceRightLoop LeavesEnough
          rw [safe_cons, safe_append]
          refine and_congr Iff.rfl ((and_iff_right (reduceTurn_safe _ _ _)).trans ?_)
          unfold reduceTurn
          cases call.answer with
          | none => exact iff_of_true safe_nil fun impossible => nomatch impossible
          | some produced =>
              exact (ih _ call.elements index).trans ⟨fun both _ => both, fun both => both rfl⟩

def toReduce (native : Native) (elements : List Value) : Nat :=
  if 2 ≤ native.args.length then elements.length else elements.length - 1

theorem arrayReduceRight_safe (native : Native) (elements : List Value) (calls : List Call) :
    Safe (arrayReduceRight native elements calls) ↔
      (native.args ≠ [] → LeavesEnough (toReduce native elements) calls) := by
  unfold arrayReduceRight requireCallback toReduce
  by_cases given : native.args = []
  · rw [if_pos given]
    exact iff_of_true safe_nil fun other => absurd given other
  rw [if_neg given]
  refine Iff.trans ?_ ⟨fun enough _ => enough, fun enough => enough given⟩
  cases second : native.args[1]? with
  | some accumulator =>
      have two : 2 ≤ native.args.length := (List.getElem?_eq_some_iff.mp second).1
      rw [if_pos two]
      dsimp only
      rw [reduceRightLoop_safe]
      exact and_iff_right (Nat.le_refl _)
  | none =>
      have one : ¬2 ≤ native.args.length := Nat.not_le.mpr
        (Nat.lt_succ_of_le (List.getElem?_eq_none_iff.mp second))
      rw [if_neg one]
      dsimp only
      split
      next none =>
        rw [none]
        exact iff_of_true safe_nil trivial
      next some =>
        rw [safe_cons, reduceRightLoop_safe]
        exact (and_iff_right (show elements.length - 1 < elements.length by omega)).trans
          (and_iff_right (Nat.sub_le _ _))

/-! ### Sorting -/

theorem gatherLoop_spec (steps i defined : Nat) (elements : List Value)
    (end_ : i + steps = elements.length) (behind : defined ≤ i) :
    Safe (gatherLoop steps i defined elements).1 ∧
      (gatherLoop steps i defined elements).2.1.length = elements.length ∧
      (gatherLoop steps i defined elements).2.2 ≤ elements.length := by
  induction steps generalizing i defined elements with
  | zero => exact ⟨safe_nil, rfl, by unfold gatherLoop; dsimp only; omega⟩
  | succ steps ih =>
      unfold gatherLoop
      dsimp only
      split
      · obtain ⟨safe, length, bound⟩ := ih (i + 1) defined elements (by omega) (by omega)
        exact ⟨safe_cons.mpr ⟨show i < elements.length by omega, safe⟩, length, bound⟩
      · obtain ⟨safe, length, bound⟩ := ih (i + 1) (defined + 1)
          (elements.set defined (elements.getD i .undefined))
          (by rw [List.length_set]; omega) (by omega)
        rw [List.length_set] at length bound
        exact ⟨safe_cons.mpr ⟨show i < elements.length by omega,
          safe_cons.mpr ⟨show defined < elements.length by omega, safe⟩⟩, length, bound⟩

theorem fillLoop_spec (steps i : Nat) (elements : List Value)
    (end_ : i + steps = elements.length) :
    Safe (fillLoop steps i elements).1 ∧
      (fillLoop steps i elements).2.length = elements.length := by
  induction steps generalizing i elements with
  | zero => exact ⟨safe_nil, rfl⟩
  | succ steps ih =>
      obtain ⟨safe, length⟩ := ih (i + 1) (elements.set i .undefined)
        (by rw [List.length_set]; omega)
      rw [List.length_set] at length
      exact ⟨safe_cons.mpr ⟨show i < elements.length by omega, safe⟩, length⟩

theorem partitionUndefined_spec (elements : List Value) :
    Safe (partitionUndefined elements).1 ∧
      (partitionUndefined elements).2.2 ≤ (partitionUndefined elements).2.1.length := by
  obtain ⟨gathered, length, bound⟩ := gatherLoop_spec elements.length 0 0 elements
    (Nat.zero_add _) (Nat.le_refl _)
  unfold partitionUndefined
  generalize gatherLoop elements.length 0 0 elements = result at gathered length bound
  obtain ⟨events, moved, defined⟩ := result
  dsimp only at length bound ⊢
  obtain ⟨filled, same⟩ := fillLoop_spec (moved.length - defined) defined moved (by omega)
  exact ⟨safe_append.mpr ⟨gathered, filled⟩, by omega⟩

/-- The array goes on far enough for what comes before the next comparison: the key's old
place and the one below it, or the place of the next key. -/
def needed (sortable : Nat) (sorting : Sorting) (order : Int) : Nat :=
  if (order ≤ 0 ∨ sorting.j = 0) ∧ sorting.i + 1 < sortable then sorting.i + 2
  else sorting.j + 2

theorem nextKey_safe (sortable i : Nat) (elements : List Value) :
    Safe (nextKey sortable i elements).1 ↔ (i < sortable → i < elements.length) := by
  unfold nextKey
  split
  next more => exact safe_cons.trans ((and_iff_left safe_nil).trans
      ⟨fun within _ => within, fun within => within more⟩)
  next last => exact iff_of_true safe_nil fun more => absurd more last

theorem store_safe (sortable : Nat) (sorting : Sorting) (place : Nat) :
    Safe (store sortable sorting place).1 ↔ place < sorting.elements.length ∧
      (sorting.i + 1 < sortable → sorting.i + 1 < sorting.elements.length) := by
  unfold store
  rw [safe_cons, nextKey_safe, List.length_set]
  exact Iff.rfl

theorem advance_safe (sortable : Nat) {sorting : Sorting} (order : Int)
    (below : sorting.j < sorting.i) :
    Safe (advance sortable sorting order).1 ↔
      needed sortable sorting order ≤ sorting.elements.length := by
  obtain ⟨i, j, key, elements⟩ := sorting
  unfold advance needed
  dsimp only at below ⊢
  split
  next stays =>
    rw [store_safe]
    dsimp only
    split <;> omega
  next moves =>
    rw [safe_cons, safe_cons]
    cases j with
    | zero =>
        dsimp only
        rw [store_safe, List.length_set]
        unfold Event.Good
        dsimp only
        split <;> omega
    | succ j =>
        rw [if_neg (by omega)]
        unfold Event.Good
        dsimp only
        constructor
        · omega
        · intro room
          exact ⟨by omega, by omega, safe_nil⟩

theorem nextKey_next {sortable i : Nat} {elements : List Value} {next : Sorting}
    (is : (nextKey sortable (i + 1) elements).2 = some next) :
    next.i = i + 1 ∧ next.j = i ∧ i + 1 < sortable ∧ next.elements = elements := by
  unfold nextKey at is
  split at is
  next more =>
    cases is
    exact ⟨rfl, rfl, more, rfl⟩
  next => cases is

theorem advance_next {sortable : Nat} {sorting next : Sorting} {order : Int}
    (below : sorting.j < sorting.i) (last : sorting.i < sortable)
    (is : (advance sortable sorting order).2 = some next) :
    next.j < next.i ∧ next.i < sortable ∧
      next.elements.length = sorting.elements.length ∧
      (needed sortable sorting order ≤ sorting.elements.length →
        next.j < next.elements.length) := by
  obtain ⟨i, j, key, elements⟩ := sorting
  unfold advance store at is
  unfold needed
  dsimp only at below last is ⊢
  split at is
  next stays =>
    obtain ⟨keyIs, belowIs, more, same⟩ := nextKey_next is
    rw [same, List.length_set, keyIs, belowIs, if_pos ⟨.inl stays, more⟩]
    exact ⟨Nat.lt_succ_self i, more, rfl, fun room => by omega⟩
  next moves =>
    cases j with
    | zero =>
        obtain ⟨keyIs, belowIs, more, same⟩ := nextKey_next is
        rw [same, List.length_set, List.length_set, keyIs, belowIs, if_pos ⟨.inr rfl, more⟩]
        exact ⟨Nat.lt_succ_self i, more, rfl, fun room => by omega⟩
    | succ j =>
        cases is
        dsimp only
        rw [List.length_set]
        refine ⟨by omega, last, rfl, ?_⟩
        split <;> omega

def LeavesRoom (sortable : Nat) : Sorting → List Comparison → Prop
  | _, [] => True
  | sorting, comparison :: rest =>
      ∀ order, comparison.order = some order →
        needed sortable sorting order ≤ (comparison.after sorting.elements).length ∧
          ∀ next, (advance sortable
            { sorting with elements := comparison.after sorting.elements } order).2 = some next →
              LeavesRoom sortable next rest

theorem sortLoop_safe (native : Native) {sortable : Nat} {sorting : Sorting}
    (below : sorting.j < sorting.i) (last : sorting.i < sortable)
    (within : sorting.j < sorting.elements.length) (comparisons : List Comparison) :
    Safe (sortLoop native sortable sorting comparisons) ↔
      LeavesRoom sortable sorting comparisons := by
  induction comparisons generalizing sorting with
  | nil => exact iff_of_true (safe_cons.mpr ⟨within, safe_nil⟩) trivial
  | cons comparison rest ih =>
      have rooted : Safe (during (native.push sorting.key) [sorting.key] comparison.moments) :=
        during_safe.mpr fun moment _ value kept =>
          pushed_alive (List.mem_append_right _ kept) moment
      unfold sortLoop LeavesRoom
      rw [safe_cons, safe_append]
      refine (and_iff_right within).trans ((and_iff_right rooted).trans ?_)
      cases comparison.order with
      | none => exact iff_of_true safe_nil fun _ impossible => nomatch impossible
      | some order =>
          generalize now : ({ sorting with elements := comparison.after sorting.elements } :
            Sorting) = later
          have nowBelow : later.j < later.i := by rw [← now]; exact below
          have nowLast : later.i < sortable := by rw [← now]; exact last
          have neededSame : needed sortable sorting order = needed sortable later order := by
            rw [← now]
            rfl
          have length : (comparison.after sorting.elements).length = later.elements.length := by
            rw [← now]
          dsimp only
          rw [safe_append, advance_safe sortable order nowBelow, ← neededSame, ← length]
          constructor
          · rintro ⟨room, safe⟩ order' is
            cases is
            refine ⟨room, fun next follows => ?_⟩
            obtain ⟨lower, bound, -, inside⟩ := advance_next nowBelow nowLast follows
            rw [follows] at safe
            refine (ih lower bound (inside ?_)).mp safe
            rwa [← neededSame, ← length]
          · intro leaves
            obtain ⟨room, goesOn⟩ := leaves order rfl
            refine ⟨room, ?_⟩
            cases follows : (advance sortable later order).2 with
            | none => exact safe_nil
            | some next =>
                obtain ⟨lower, bound, -, inside⟩ := advance_next nowBelow nowLast follows
                refine (ih lower bound (inside ?_)).mpr (goesOn next follows)
                rwa [← neededSame, ← length]

theorem leavesRoom_byStrings {sortable : Nat} {sorting : Sorting}
    (below : sorting.j < sorting.i) (last : sorting.i < sortable)
    (all : sortable ≤ sorting.elements.length) (orders : List (Option Int)) :
    LeavesRoom sortable sorting (orders.map .byStrings) := by
  induction orders generalizing sorting with
  | nil => trivial
  | cons first rest ih =>
      intro order _
      refine ⟨?_, fun next follows => ?_⟩
      · unfold needed Comparison.after
        dsimp only
        split <;> omega
      · obtain ⟨lower, bound, length, -⟩ := advance_next below last follows
        exact ih lower bound (by rw [length]; exact all)

/-- The run of a sort that calls a comparator, from where the `undefined` are at the end. -/
def ComparatorLeavesRoom (native : Native) (elements : List Value) (calls : List Call) : Prop :=
  let (_, values, sortable) := partitionUndefined elements
  hasComparator native = true → ∀ sorting, (nextKey sortable 1 values).2 = some sorting →
    LeavesRoom sortable sorting (calls.map .called)

theorem arraySort_safe (native : Native) (elements : List Value) (calls : List Call)
    (orders : List (Option Int)) :
    Safe (arraySort native elements calls orders) ↔
      ComparatorLeavesRoom native elements calls := by
  obtain ⟨partitioned, bound⟩ := partitionUndefined_spec elements
  unfold arraySort ComparatorLeavesRoom
  generalize partitionUndefined elements = result at partitioned bound
  obtain ⟨events, values, sortable⟩ := result
  dsimp only at partitioned bound ⊢
  have first : Safe (nextKey sortable 1 values).1 :=
    (nextKey_safe sortable 1 values).mpr fun more => by omega
  rw [safe_append, safe_append]
  refine (and_iff_right partitioned).trans ((and_iff_right first).trans ?_)
  cases follows : (nextKey sortable 1 values).2 with
  | none => exact iff_of_true safe_nil fun _ _ impossible => nomatch impossible
  | some sorting =>
      obtain ⟨keyIs, belowIs, more, same⟩ := nextKey_next follows
      have below : sorting.j < sorting.i := by omega
      have last : sorting.i < sortable := by omega
      have all : sortable ≤ sorting.elements.length := by rw [same]; exact bound
      dsimp only
      rw [sortLoop_safe native below last (by omega)]
      unfold comparisonsOf
      split
      next compared =>
        exact ⟨fun room _ _ is => by cases is; exact room, fun room => room compared _ rfl⟩
      next byStrings =>
        exact iff_of_true (leavesRoom_byStrings below last all orders)
          fun compared => absurd compared byStrings

/-! ### The ten methods -/

/-- What the methods may do in all runs, and what three kinds of callbacks must not. -/
theorem callbacks_safe (address : Nat) (native : Native) (elements : List Value)
    (calls : List Call) (orders : List (Option Int)) :
    Safe (arrayForEach native elements calls) ∧
    Safe (arrayMap address native elements calls) ∧
    (Safe (arrayFilter address native elements calls) ↔
      ∀ step ∈ stepsOf filterTurn native (native.make address) elements calls,
        step.Accepts → step.Keeps) ∧
    Safe (arrayReduce native elements calls) ∧
    (Safe (arrayReduceRight native elements calls) ↔
      (native.args ≠ [] → LeavesEnough (toReduce native elements) calls)) ∧
    (Safe (arraySearch .find native elements calls) ↔
      ∀ step ∈ stepsOf (searchTurn .find) native native elements calls,
        step.Accepts → step.Keeps) ∧
    (∀ mode, mode ≠ .find → Safe (arraySearch mode native elements calls)) ∧
    (Safe (arraySort native elements calls orders) ↔
      ComparatorLeavesRoom native elements calls) :=
  ⟨requireCallback_safe (walkLoop_safe_of (fun _ _ _ => during_locals _ _) _ _ _ _),
    requireCallback_safe (walkLoop_safe_of (fun _ _ _ => during_locals _ _) _ _ _ _),
    loop_safe filterTurn_events native (native.make address) elements calls,
    arrayReduce_safe native elements calls,
    arrayReduceRight_safe native elements calls,
    loop_safe findTurn_events native native elements calls,
    fun _ other => requireCallback_safe (walkLoop_safe_of (searchTurn_safe other) _ _ _ _),
    arraySort_safe native elements calls orders⟩

theorem not_live {vm : VM} {object : Obj}
    (unrooted : object ∉ rootReferences vm.roots vm.absentShape)
    (arrays : ∀ cell ∈ vm.objects, ∃ elements, cell.body = .array none elements ∧
      object ∉ elements.flatMap ofValue) : ¬Live vm object := by
  intro live
  refine live (fun other => other ≠ object) ?_ rfl
  constructor
  · rintro other rooted rfl
    exact unrooted rooted
  · rintro holder reached _ read other inside rfl
    unfold references at read
    cases found : findBody vm.objects holder with
    | none => rw [found] at read; cases read
    | some body =>
        obtain ⟨elements, is, without⟩ := arrays _ (mem_of_findBody found)
        dsimp only at is
        rw [found, is] at read
        cases read
        exact without inside
  · intro holder map _ found
    obtain ⟨elements, is, -⟩ := arrays _ (mem_of_findBody found)
    cases is

def bare : VM where
  objects := []
  marking := { isMarked := fun _ => false, gray := [] }
  roots :=
    { stack := [], jitRoots := [], frames := [], openUpvalues := [], pendingException := none
      pendingNewTarget := .undefined, accessorMarker := none, microtasks := [], timers := []
      rejected := [], promiseNatives := [], promiseMethods := csTableInit
      mapMethods := csTableInit, generatorMethods := csTableInit, numberMethods := csTableInit
      functionMethods := csTableInit, dateMethods := csTableInit, weakMethods := csTableInit
      symbolMethods := csTableInit, bigintMethods := csTableInit, symbolRegistry := csTableInit
      iteratorSymbol := none, asyncIteratorSymbol := none, regexMethods := csTableInit
      builtins := csTableInit, builtinConsts := csTableInit, modules := csTableInit
      mainModule := none, currentFiber := none, arrayMethods := csTableInit
      stringMethods := csTableInit, tempRoots := [], compilerFunctions := []
      jitReferences := [] }
  strings := csTableInit
  symbolsByKey := csTableInit
  absentShape := 1

def called : Native :=
  { array := 5, below := [], args := [.obj (.cell .closure 7)], pushed := [], made := none }

def popping (answer : Value) : Call :=
  { moments := [{ above := [], temporary := [], extras := none, elements := [], machine := bare }]
    elements := []
    cells :=
      { bigints := fun _ => { negative := false, limbs := [] }
        symbolKey := fun _ => ⟨[]⟩
        keyText := fun _ => ⟨[]⟩ }
    answer := some answer }

/-- The element of `filter` or `find` is lost, and `reduceRight` and `sort` go beyond the end. -/
theorem element_popped :
    ¬Safe (arrayFilter 6 called [.obj (.cell .object 9)] [popping (.bool true)]) ∧
    ¬Safe (arraySearch .find called [.obj (.cell .object 9)] [popping (.bool true)]) ∧
    ¬Safe (arrayReduceRight called [.null, .null, .null] [popping .null]) ∧
    ¬Safe (arraySort called [.null, .null] [popping (.number ⟨0⟩)] []) := by
  have lost : ∀ native : Native, native = called ∨ native = called.make 6 →
      ∀ answer, ∀ moment ∈ (popping answer).moments,
        ¬Alive (native.vm moment) (.obj (.cell .object 9)) := by
    intro native either answer moment member alive
    obtain rfl := List.mem_singleton.mp member
    refine not_live ?_ ?_ (alive _ List.mem_cons_self)
    · rcases either with rfl | rfl <;> decide
    · rcases either with rfl | rfl
      · intro cell inside
        obtain rfl := List.mem_singleton.mp inside
        exact ⟨[], rfl, List.not_mem_nil⟩
      · intro cell inside
        rcases List.mem_cons.mp inside with rfl | inside
        · exact ⟨[], rfl, List.not_mem_nil⟩
        · obtain rfl := List.mem_singleton.mp inside
          exact ⟨[], rfl, List.not_mem_nil⟩
  have accepted : ∀ native : Native, ({ native := native, element := .obj (.cell .object 9)
                                        call := popping (.bool true) } : Step).Accepts :=
    fun native => ⟨.bool true, rfl, rfl⟩
  refine ⟨fun safe => ?_, fun safe => ?_, fun safe => ?_, fun safe => ?_⟩
  · have keeps := (loop_safe filterTurn_events called (called.make 6) _ _).mp safe _
      List.mem_cons_self (accepted _)
    exact lost _ (.inr rfl) (.bool true) _ List.mem_cons_self (keeps _ List.mem_cons_self)
  · have keeps := (loop_safe findTurn_events called called _ _).mp safe _
      List.mem_cons_self (accepted _)
    exact lost _ (.inl rfl) (.bool true) _ List.mem_cons_self (keeps _ List.mem_cons_self)
  · have enough := (arrayReduceRight_safe called _ _).mp safe (List.cons_ne_nil _ _) rfl
    exact absurd enough.1 (by decide)
  · have room := (arraySort_safe called _ _ _).mp safe rfl _ rfl _ rfl
    have none := room.1
    unfold needed at none
    split at none <;> exact absurd none (Nat.not_succ_le_zero _)

end CScript.ArrayCallbacks
