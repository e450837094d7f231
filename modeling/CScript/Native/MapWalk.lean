/-
Map.prototype.forEach under a callback that changes the collection.

The walk indexes the entry array; a delete compacts the array under it and a
clear empties it.  To say which entry is meant, each entry of the collection has
a tag, in the order in which the entries were made; a key that is deleted and
stored again is a new entry.
-/

import CScript.Native.MapShape
import Mathlib.Data.List.Perm.Subperm

namespace CScript

open Foundation

/-! ### Entries with tags -/

structure Tagged where
  map : ObjMap
  tags : List Nat
  fresh : Nat

def Tagged.new (isSet : Bool) : Tagged :=
  { map := csMapNew isSet
    tags := []
    fresh := 0 }

section

variable (bigints : BigIntCells)

def Tagged.step (state : Tagged) (op : MapOp) : Option Tagged := do
  let (after, _) ← stepMap bigints state.map op
  match op with
  | .set _ _ =>
      if after.count = state.map.count then some { state with map := after }
      else
        some
          { map := after
            tags := state.tags ++ [state.fresh]
            fresh := state.fresh + 1 }
  | .delete key => do
      let found ← placeOf bigints state.map key
      match found with
      | none => some { state with map := after }
      | some place => some { state with map := after, tags := state.tags.eraseIdx place }
  | .clear => some { state with map := after, tags := [] }
  | _ => some { state with map := after }

def Tagged.run : List MapOp → Tagged → Option Tagged
  | [], state => some state
  | op :: ops, state => do
      let next ← state.step bigints op
      Tagged.run ops next

/-! ### The walk -/

structure Turn where
  ops : List MapOp
  returns : Bool

/-- A call of the callback: the entry it is for, its two arguments before the
collection itself, and the entries there are at that moment. -/
structure Call where
  tag : Nat
  value : Value
  key : Value
  held : List Nat
  deriving DecidableEq

inductive Status where
  | running
  | finished
  | failed
  deriving DecidableEq

structure Walk where
  i : Nat
  state : Tagged
  calls : List Call
  status : Status

def Walk.begin (state : Tagged) : Walk :=
  { i := 0
    state := state
    calls := []
    status := .running }

/-- One turn of the loop, given what the callback would do if it is called. -/
def Walk.iterate (walk : Walk) (turn : Turn) : Option Walk :=
  match walk.status with
  | .finished => some walk
  | .failed => some walk
  | .running =>
      match walk.state.map.entries[walk.i]? with
      | none => some { walk with status := .finished }
      | some entry =>
          if !entry.present then some { walk with i := walk.i + 1 }
          else do
            let tag ← walk.state.tags[walk.i]?
            let after ← walk.state.run bigints turn.ops
            let call : Call :=
              { tag := tag
                value := entry.value
                key := entry.key
                held := walk.state.tags }
            if turn.returns then
              return { i := walk.i + 1, state := after, calls := walk.calls ++ [call],
                       status := .running }
            else
              return { i := walk.i, state := after, calls := walk.calls ++ [call],
                       status := .failed }

def Walk.run : List Turn → Walk → Option Walk
  | [], walk => some walk
  | turn :: turns, walk => do
      let next ← walk.iterate bigints turn
      Walk.run turns next

def forEachExpects : String :=
  "forEach expects a function and a Map or Set receiver"

def mapForEach (receiver : Option Tagged) (argCount : Nat) (turns : List Turn) :
    Except String (Option Walk) :=
  match receiver with
  | none => .error forEachExpects
  | some state =>
      if argCount < 1 then .error forEachExpects
      else .ok (Walk.run bigints turns (Walk.begin state))

theorem mapForEach_walks (state : Tagged) (argCount : Nat) (turns : List Turn) :
    mapForEach bigints (some state) (argCount + 1) turns =
      .ok (Walk.run bigints turns (Walk.begin state)) := by
  have given : ¬argCount + 1 < 1 := by omega
  simp only [mapForEach, given, if_false]

end

/-! ### What a sound walk is -/

/-- No entry is called twice, and the calls come in the order of insertion; when
an entry is called, every earlier one that is still there has been called; and
at the end every entry that is there has been called. -/
structure VisitsSoundly (walk : Walk) : Prop where
  ordered : (walk.calls.map Call.tag).Pairwise (· < ·)
  inTurn : ∀ (earlier later : List Call) (call : Call), walk.calls = earlier ++ call :: later →
    ∀ tag ∈ call.held, tag < call.tag → tag ∈ earlier.map Call.tag
  ended : walk.status = .finished → ∀ tag ∈ walk.state.tags, tag ∈ walk.calls.map Call.tag

/-- A callback that returns has left the entries up to its own in the
collection, or has left no entry behind its own. -/
def TurnKeeps (bigints : BigIntCells) (walk : Walk) (turn : Turn) : Prop :=
  walk.status = .running → turn.returns = true → ∀ (tag : Nat) (after : Tagged),
    walk.state.tags[walk.i]? = some tag → walk.state.run bigints turn.ops = some after →
    (∀ kept ∈ walk.state.tags.take (walk.i + 1), kept ∈ after.tags) ∨
      ∀ left ∈ after.tags, left ≤ tag

def TurnsKeep (bigints : BigIntCells) : List Turn → Walk → Prop
  | [], _ => True
  | turn :: turns, walk =>
      TurnKeeps bigints walk turn ∧
        ∀ next, walk.iterate bigints turn = some next → TurnsKeep bigints turns next

/-! ### Increasing lists -/

private theorem increasing_split {tags : List Nat} (increasing : tags.Pairwise (· < ·))
    (bound : Nat) :
    tags = tags.filter (fun tag => decide (tag ≤ bound)) ++
      tags.filter (fun tag => decide (bound < tag)) := by
  induction tags with
  | nil => rfl
  | cons head rest ih =>
      obtain ⟨above, restIncreasing⟩ := List.pairwise_cons.mp increasing
      by_cases low : head ≤ bound
      · have notHigh : ¬bound < head := Nat.not_lt.mpr low
        simp only [List.filter_cons, low, notHigh, decide_true, decide_false, if_true,
          Bool.false_eq_true, if_false, List.cons_append]
        rw [← ih restIncreasing]
      · have noneLow : rest.filter (fun tag => decide (tag ≤ bound)) = [] := by
          rw [List.filter_eq_nil_iff]
          intro tag member
          have less := above tag member
          simp only [decide_eq_true_eq]
          omega
        have allHigh : rest.filter (fun tag => decide (bound < tag)) = rest := by
          rw [List.filter_eq_self]
          intro tag member
          have less := above tag member
          simp only [decide_eq_true_eq]
          omega
        simp only [List.filter_cons, low, Nat.not_le.mp low, decide_true, decide_false, if_true,
          Bool.false_eq_true, if_false, noneLow, allHigh, List.nil_append]

private theorem mem_take_iff {tags : List Nat} (increasing : tags.Pairwise (· < ·)) {i tag : Nat}
    (here : tags[i]? = some tag) (other : Nat) :
    other ∈ tags.take (i + 1) ↔ other ∈ tags ∧ other ≤ tag := by
  obtain ⟨bound, tagEq⟩ := List.getElem?_eq_some_iff.mp here
  have pairwise := List.pairwise_iff_getElem.mp increasing
  constructor
  · intro member
    obtain ⟨place, placeBound, isOther⟩ := List.mem_iff_getElem.mp member
    rw [List.length_take] at placeBound
    rw [List.getElem_take] at isOther
    refine ⟨List.mem_of_mem_take member, ?_⟩
    rcases Nat.lt_or_ge place i with before | reached
    · have less := pairwise place i (by omega) bound before
      omega
    · have same : place = i := by omega
      subst same
      omega
  · rintro ⟨member, small⟩
    obtain ⟨place, placeBound, isOther⟩ := List.mem_iff_getElem.mp member
    have early : place ≤ i := by
      by_contra late
      have less := pairwise i place bound placeBound (by omega)
      omega
    rw [← isOther]
    exact List.mem_take_iff_getElem.mpr ⟨place, by omega, rfl⟩

private theorem mem_take_of_lt {tags : List Nat} (increasing : tags.Pairwise (· < ·)) {i tag : Nat}
    (here : tags[i]? = some tag) {other : Nat} (member : other ∈ tags) (less : other < tag) :
    other ∈ tags.take i := by
  have within := (mem_take_iff increasing here other).mpr ⟨member, Nat.le_of_lt less⟩
  rw [List.take_add_one, here] at within
  rcases List.mem_append.mp within with earlier | last
  · exact earlier
  · have same : other = tag := List.mem_singleton.mp last
    omega

private theorem lt_of_mem_take {tags : List Nat} (increasing : tags.Pairwise (· < ·)) {i tag : Nat}
    (here : tags[i]? = some tag) {other : Nat} (member : other ∈ tags.take i) : other < tag := by
  have split := List.take_append_drop i tags
  have ahead : tag ∈ tags.drop i := by
    have first : (tags.drop i)[0]? = some tag := by
      rw [List.getElem?_drop]
      exact here
    exact List.mem_of_getElem? first
  rw [← split] at increasing
  exact (List.pairwise_append.mp increasing).2.2 other member tag ahead

/-! ### What operations do to the tags -/

structure Tagged.Good (state : Tagged) : Prop where
  shape : MapShape state.map
  length : state.tags.length = state.map.count
  increasing : state.tags.Pairwise (· < ·)
  below : ∀ tag ∈ state.tags, tag < state.fresh

structure Tagged.Moved (state after : Tagged) : Prop where
  fresh : state.fresh ≤ after.fresh
  old : ∀ tag ∈ after.tags, tag < state.fresh → tag ∈ state.tags

theorem Tagged.new_good (isSet : Bool) : (Tagged.new isSet).Good where
  shape := csMapNew_shape isSet
  length := rfl
  increasing := List.Pairwise.nil
  below _ member := absurd member List.not_mem_nil

section

variable (bigints : BigIntCells)

private theorem Tagged.Good.sublist {state : Tagged} (good : state.Good) {map : ObjMap}
    {tags : List Nat} (shape : MapShape map) (length : tags.length = map.count)
    (fewer : tags.Sublist state.tags) :
    ({ map := map, tags := tags, fresh := state.fresh } : Tagged).Good ∧
      state.Moved { map := map, tags := tags, fresh := state.fresh } :=
  ⟨{ shape := shape
     length := length
     increasing := List.Pairwise.sublist fewer good.increasing
     below := fun tag member => good.below tag (fewer.subset member) },
   { fresh := Nat.le_refl _
     old := fun _ member _ => fewer.subset member }⟩

private theorem Tagged.Good.append {state : Tagged} (good : state.Good) {map : ObjMap}
    (shape : MapShape map) (count : map.count = state.map.count + 1) :
    ({ map := map, tags := state.tags ++ [state.fresh], fresh := state.fresh + 1 } : Tagged).Good ∧
      state.Moved { map := map, tags := state.tags ++ [state.fresh], fresh := state.fresh + 1 } := by
  constructor
  · constructor
    · exact shape
    · rw [List.length_append, good.length, count]
      rfl
    · rw [List.pairwise_append]
      refine ⟨good.increasing, List.pairwise_singleton _ _, ?_⟩
      intro tag member last isLast
      rw [List.mem_singleton.mp isLast]
      exact good.below tag member
    · intro tag member
      rcases List.mem_append.mp member with old | new
      · exact Nat.lt_succ_of_lt (good.below tag old)
      · rw [List.mem_singleton.mp new]
        exact Nat.lt_succ_self _
  · constructor
    · exact Nat.le_succ _
    · intro tag member small
      rcases List.mem_append.mp member with old | new
      · exact old
      · exact absurd (List.mem_singleton.mp new) (Nat.ne_of_lt small)

theorem Tagged.step_good {state : Tagged} (good : state.Good) (op : MapOp) :
    ∃ after, state.step bigints op = some after ∧ after.Good ∧ state.Moved after := by
  have unmoved : state.Moved state := ⟨Nat.le_refl _, fun _ member _ => member⟩
  unfold Tagged.step
  cases op with
  | set key value =>
      obtain ⟨map, ran, shape, changed⟩ := csMapSet_shape bigints good.shape key value
      simp only [stepMap, ran, Option.bind_eq_bind, Option.bind_some, Option.pure_def]
      rcases changed with ⟨place, entry, _, entries⟩ | entries
      · have count : map.count = state.map.count := by
          unfold ObjMap.count
          rw [entries, List.length_set]
        rw [if_pos count]
        exact ⟨_, rfl, good.sublist shape (good.length.trans count.symm) (List.Sublist.refl _)⟩
      · have count : map.count = state.map.count + 1 := by
          unfold ObjMap.count
          rw [entries, List.length_append]
          rfl
        rw [if_neg (by omega)]
        exact ⟨_, rfl, good.append shape count⟩
  | get key =>
      obtain ⟨found, ran⟩ := csMapGet_answers bigints good.shape key
      simp only [stepMap, ran, Option.bind_eq_bind, Option.bind_some, Option.pure_def]
      exact ⟨_, rfl, good, unmoved⟩
  | has key =>
      obtain ⟨found, ran⟩ := csMapGet_answers bigints good.shape key
      simp only [stepMap, csMapHas, ran, Option.bind_eq_bind, Option.bind_some, Option.pure_def]
      exact ⟨_, rfl, good, unmoved⟩
  | delete key =>
      rcases csMapDelete_shape bigints good.shape key with
        ⟨found, ran⟩ | ⟨place, map, found, bound, ran, shape, entries⟩
      · simp only [stepMap, ran, found, Option.bind_eq_bind, Option.bind_some, Option.pure_def]
        exact ⟨_, rfl, good, unmoved⟩
      · simp only [stepMap, ran, found, Option.bind_eq_bind, Option.bind_some, Option.pure_def]
        have count : map.count = state.map.count - 1 := by
          unfold ObjMap.count
          rw [entries, List.length_eraseIdx_of_lt bound]
        refine ⟨_, rfl, good.sublist shape ?_ (List.eraseIdx_sublist _ _)⟩
        rw [List.length_eraseIdx_of_lt (by rw [good.length]; exact bound), good.length, count]
  | clear =>
      exact ⟨_, rfl, good.sublist (csMapClear_shape good.shape) rfl (List.nil_sublist _)⟩
  | toArray => exact ⟨_, rfl, good, unmoved⟩
  | collect want => exact ⟨_, rfl, good, unmoved⟩

theorem Tagged.run_good : ∀ (ops : List MapOp) {state : Tagged}, state.Good →
    ∃ after, state.run bigints ops = some after ∧ after.Good ∧ state.Moved after
  | [], state, good => ⟨state, rfl, good, Nat.le_refl _, fun _ member _ => member⟩
  | op :: ops, state, good => by
      obtain ⟨next, stepped, nextGood, moved⟩ := Tagged.step_good bigints good op
      obtain ⟨after, ran, afterGood, later⟩ := Tagged.run_good ops nextGood
      refine ⟨after, ?_, afterGood, ?_, ?_⟩
      · unfold Tagged.run
        rw [stepped]
        exact ran
      · exact Nat.le_trans moved.fresh later.fresh
      · intro tag member small
        exact moved.old tag (later.old tag member (Nat.lt_of_lt_of_le small moved.fresh)) small

end

/-! ### One turn of the loop -/

/-- A walk that is under way and has skipped nothing: the calls made are those
of the entries in front of its place, and of entries gone since. -/
structure Walk.Sound (walk : Walk) : Prop where
  good : walk.state.Good
  visits : VisitsSoundly walk
  behind : walk.status = .running → ∀ tag ∈ walk.state.tags.take walk.i,
    tag ∈ walk.calls.map Call.tag
  ahead : walk.status = .running → ∀ tag ∈ walk.state.tags.drop walk.i, ∀ call ∈ walk.calls,
    call.tag < tag

def Walk.Unsound (walk : Walk) : Prop :=
  (∃ (earlier later : List Call) (call : Call), walk.calls = earlier ++ call :: later ∧
      ∃ tag ∈ call.held, tag < call.tag ∧ tag ∉ earlier.map Call.tag) ∨
    (walk.status = .finished ∧ ∃ tag ∈ walk.state.tags, tag ∉ walk.calls.map Call.tag)

def Walk.Skipped (walk : Walk) : Prop :=
  walk.status = .running ∧ walk.state.Good ∧
    ∃ tag ∈ walk.state.tags.take walk.i, tag ∉ walk.calls.map Call.tag

theorem Walk.Unsound.not_visits {walk : Walk} (unsound : walk.Unsound) : ¬VisitsSoundly walk := by
  intro visits
  rcases unsound with ⟨earlier, later, call, calls, tag, held, less, missed⟩ |
    ⟨finished, tag, member, missed⟩
  · exact missed (visits.inTurn earlier later call calls tag held less)
  · exact missed (visits.ended finished tag member)

private theorem VisitsSoundly.call {calls : List Call} {call : Call} {walk : Walk}
    (ordered : (calls.map Call.tag).Pairwise (· < ·))
    (inTurn : ∀ (earlier later : List Call) (other : Call), calls = earlier ++ other :: later →
      ∀ tag ∈ other.held, tag < other.tag → tag ∈ earlier.map Call.tag)
    (above : ∀ other ∈ calls, other.tag < call.tag)
    (due : ∀ tag ∈ call.held, tag < call.tag → tag ∈ calls.map Call.tag)
    (logged : walk.calls = calls ++ [call]) (open_ : walk.status ≠ .finished) :
    VisitsSoundly walk where
  ordered := by
    rw [logged, List.map_append, List.pairwise_append]
    refine ⟨ordered, List.pairwise_singleton _ _, ?_⟩
    intro tag member last isLast
    obtain ⟨other, otherMember, rfl⟩ := List.mem_map.mp member
    rw [List.mem_singleton.mp isLast]
    exact above other otherMember
  inTurn earlier later other split tag held less := by
    rw [logged] at split
    rcases List.eq_nil_or_concat later with none_ | ⟨front, last, more⟩
    · subst none_
      obtain ⟨callsEq, same⟩ := List.append_inj' split rfl
      cases same
      rw [← callsEq]
      exact due tag held less
    · subst more
      rw [List.concat_eq_append, ← List.cons_append, ← List.append_assoc] at split
      obtain ⟨callsEq, _⟩ := List.append_inj' split rfl
      exact inTurn earlier front other callsEq tag held less
  ended finished := absurd finished open_

section

variable {bigints : BigIntCells}

private theorem iterate_cases (bigints : BigIntCells) {walk : Walk} (running : walk.status = .running)
    (good : walk.state.Good) (turn : Turn) :
    (walk.state.tags.length ≤ walk.i ∧
        walk.iterate bigints turn = some { walk with status := .finished }) ∨
      ∃ (tag : Nat) (after : Tagged) (call : Call), walk.state.tags[walk.i]? = some tag ∧
        walk.state.run bigints turn.ops = some after ∧ after.Good ∧ walk.state.Moved after ∧
        call.tag = tag ∧ call.held = walk.state.tags ∧
        walk.iterate bigints turn = some
          { i := if turn.returns then walk.i + 1 else walk.i
            state := after
            calls := walk.calls ++ [call]
            status := if turn.returns then .running else .failed } := by
  unfold Walk.iterate
  rw [running]
  cases entryHere : walk.state.map.entries[walk.i]? with
  | none =>
      left
      refine ⟨?_, rfl⟩
      rw [good.length]
      exact List.getElem?_eq_none_iff.mp entryHere
  | some entry =>
      right
      have present := good.shape.present entry (List.mem_of_getElem? entryHere)
      have bound : walk.i < walk.state.tags.length := by
        rw [good.length]
        exact (List.getElem?_eq_some_iff.mp entryHere).1
      have here := List.getElem?_eq_getElem bound
      obtain ⟨after, ran, afterGood, moved⟩ := Tagged.run_good bigints turn.ops good
      refine ⟨walk.state.tags[walk.i], after, ⟨walk.state.tags[walk.i], entry.value, entry.key,
        walk.state.tags⟩, here, ran, afterGood, moved, rfl, rfl, ?_⟩
      simp only [present, Bool.not_true, Bool.false_eq_true, if_false, here, ran,
        Option.bind_eq_bind, Option.bind_some, Option.pure_def]
      cases turn.returns <;> rfl

private theorem low_tags {state after : Tagged} (good : state.Good) (moved : state.Moved after)
    {i tag : Nat} (here : state.tags[i]? = some tag) :
    ∀ other ∈ after.tags.filter (fun other => decide (other ≤ tag)),
      other ∈ state.tags.take (i + 1) := by
  intro other member
  obtain ⟨there, small⟩ := List.mem_filter.mp member
  have small := of_decide_eq_true small
  have below := good.below tag (List.mem_of_getElem? here)
  exact (mem_take_iff good.increasing here other).mpr
    ⟨moved.old other there (Nat.lt_of_le_of_lt small below), small⟩

private theorem low_length {state after : Tagged} (good : state.Good) (afterGood : after.Good)
    (moved : state.Moved after) {i tag : Nat} (here : state.tags[i]? = some tag) :
    (after.tags.filter (fun other => decide (other ≤ tag))).length ≤ i + 1 := by
  have nodup : (after.tags.filter (fun other => decide (other ≤ tag))).Nodup :=
    (afterGood.increasing.imp Nat.ne_of_lt).filter _
  have short := (List.subperm_of_subset nodup (low_tags good moved here)).length_le
  rw [List.length_take] at short
  omega

private theorem take_length {tags : List Nat} {i tag : Nat} (here : tags[i]? = some tag) :
    (tags.take (i + 1)).length = i + 1 := by
  have bound := (List.getElem?_eq_some_iff.mp here).1
  rw [List.length_take]
  omega

private theorem keeps_places {state after : Tagged} (good : state.Good) (afterGood : after.Good)
    (moved : state.Moved after) {i tag : Nat} (here : state.tags[i]? = some tag)
    (keeps : (∀ kept ∈ state.tags.take (i + 1), kept ∈ after.tags) ∨
      ∀ left ∈ after.tags, left ≤ tag) :
    (∀ other ∈ after.tags.take (i + 1), other ∈ state.tags.take (i + 1)) ∧
      ∀ other ∈ after.tags.drop (i + 1), tag < other := by
  have split := increasing_split afterGood.increasing tag
  have short := low_length good afterGood moved here
  have low := low_tags good moved here
  rcases keeps with kept | noneLeft
  · have all : (state.tags.take (i + 1)).length ≤
        (after.tags.filter (fun other => decide (other ≤ tag))).length := by
      have nodup : (state.tags.take (i + 1)).Nodup :=
        (good.increasing.imp Nat.ne_of_lt).sublist (List.take_sublist _ _)
      refine (List.subperm_of_subset nodup ?_).length_le
      intro other member
      have small := ((mem_take_iff good.increasing here other).mp member).2
      exact List.mem_filter.mpr ⟨kept other member, decide_eq_true small⟩
    rw [take_length here] at all
    have length := Nat.le_antisymm short all
    constructor
    · intro other member
      rw [split, List.take_left' length] at member
      exact low other member
    · intro other member
      rw [split, List.drop_left' length] at member
      exact of_decide_eq_true (List.mem_filter.mp member).2
  · have allLow : after.tags.filter (fun other => decide (other ≤ tag)) = after.tags :=
      List.filter_eq_self.mpr (fun other member => decide_eq_true (noneLeft other member))
    rw [allLow] at short low
    constructor
    · intro other member
      exact low other (List.mem_of_mem_take member)
    · intro other member
      rw [List.drop_eq_nil_of_le short] at member
      cases member

private theorem breaks_places {state after : Tagged} (good : state.Good) (afterGood : after.Good)
    (moved : state.Moved after) {i tag : Nat} (here : state.tags[i]? = some tag)
    (breaks : ¬((∀ kept ∈ state.tags.take (i + 1), kept ∈ after.tags) ∨
      ∀ left ∈ after.tags, left ≤ tag)) :
    ∃ other ∈ after.tags.take (i + 1), tag < other := by
  push Not at breaks
  obtain ⟨⟨gone, goneMember, goneMissing⟩, left, leftMember, leftAbove⟩ := breaks
  have split := increasing_split afterGood.increasing tag
  have shorter : (after.tags.filter (fun other => decide (other ≤ tag))).length < i + 1 := by
    have nodup : (gone :: after.tags.filter (fun other => decide (other ≤ tag))).Nodup :=
      List.nodup_cons.mpr ⟨fun member => goneMissing (List.mem_filter.mp member).1,
        (afterGood.increasing.imp Nat.ne_of_lt).filter _⟩
    have bounded := (List.subperm_of_subset nodup (List.cons_subset.mpr
      ⟨goneMember, low_tags good moved here⟩)).length_le
    rw [take_length here] at bounded
    exact bounded
  cases high : after.tags.filter (fun other => decide (tag < other)) with
  | nil =>
      have member : left ∈ after.tags.filter (fun other => decide (tag < other)) :=
        List.mem_filter.mpr ⟨leftMember, decide_eq_true leftAbove⟩
      rw [high] at member
      cases member
  | cons first rest =>
      rw [high] at split
      refine ⟨first, ?_, ?_⟩
      · rw [split, List.take_append]
        apply List.mem_append_right
        obtain ⟨room, roomEq⟩ := Nat.exists_eq_succ_of_ne_zero (Nat.sub_ne_zero_of_lt shorter)
        rw [roomEq]
        exact List.mem_cons_self
      · have member : first ∈ after.tags.filter (fun other => decide (tag < other)) := by
          rw [high]
          exact List.mem_cons_self
        exact of_decide_eq_true (List.mem_filter.mp member).2


theorem Walk.Sound.iterate {walk : Walk} (sound : walk.Sound) {turn : Turn}
    (keeps : TurnKeeps bigints walk turn) :
    ∃ next, walk.iterate bigints turn = some next ∧ next.Sound := by
  cases status : walk.status with
  | finished =>
      refine ⟨walk, ?_, sound⟩
      unfold Walk.iterate
      rw [status]
  | failed =>
      refine ⟨walk, ?_, sound⟩
      unfold Walk.iterate
      rw [status]
  | running =>
      have behind := sound.behind status
      have ahead := sound.ahead status
      rcases iterate_cases bigints status sound.good turn with
        ⟨reached, ran⟩ | ⟨tag, after, call, here, ranOps, afterGood, moved, callTag, held, ran⟩
      · refine ⟨_, ran, sound.good, ⟨sound.visits.ordered, sound.visits.inTurn, ?_⟩, ?_, ?_⟩
        · intro _ tag member
          rw [← List.take_of_length_le reached] at member
          exact behind tag member
        · intro wrong
          cases wrong
        · intro wrong
          cases wrong
      · have here' : tag ∈ walk.state.tags.drop walk.i := by
          have first : (walk.state.tags.drop walk.i)[0]? = some tag := by
            rw [List.getElem?_drop]
            exact here
          exact List.mem_of_getElem? first
        have visits : VisitsSoundly
            { i := if turn.returns then walk.i + 1 else walk.i
              state := after
              calls := walk.calls ++ [call]
              status := if turn.returns then .running else .failed } := by
          refine VisitsSoundly.call sound.visits.ordered sound.visits.inTurn
            (fun other member => callTag ▸ ahead tag here' other member) ?_ rfl ?_
          · intro other member less
            rw [held] at member
            rw [callTag] at less
            exact behind other (mem_take_of_lt sound.good.increasing here member less)
          · cases turn.returns <;> simp
        refine ⟨_, ran, afterGood, visits, ?_, ?_⟩ <;> intro stillRunning <;>
          cases returns : turn.returns <;> rw [returns] at stillRunning
        · cases stillRunning
        · obtain ⟨front, _⟩ := keeps_places sound.good afterGood moved here
            (keeps status returns tag after here ranOps)
          intro other member
          have old := front other member
          rw [List.map_append]
          rw [List.take_add_one, here] at old
          rcases List.mem_append.mp old with earlier | last
          · exact List.mem_append_left _ (behind other earlier)
          · apply List.mem_append_right
            rw [List.mem_singleton.mp last, ← callTag]
            exact List.mem_singleton.mpr rfl
        · cases stillRunning
        · obtain ⟨_, back⟩ := keeps_places sound.good afterGood moved here
            (keeps status returns tag after here ranOps)
          intro other member made madeMember
          have above := back other member
          rcases List.mem_append.mp madeMember with earlier | last
          · exact Nat.lt_trans (ahead tag here' made earlier) above
          · rw [List.mem_singleton.mp last, callTag]
            exact above

theorem Walk.Sound.skips {walk : Walk} (sound : walk.Sound) {turn : Turn}
    (breaks : ¬TurnKeeps bigints walk turn) :
    ∃ next, walk.iterate bigints turn = some next ∧ next.Skipped := by
  unfold TurnKeeps at breaks
  push Not at breaks
  obtain ⟨status, returns, tag, after, here, ranOps, breaks⟩ := breaks
  have behind := sound.behind status
  have ahead := sound.ahead status
  rcases iterate_cases bigints status sound.good turn with
    ⟨reached, _⟩ | ⟨called, afterRun, call, calledHere, ranRun, afterGood, moved, callTag, _, ran⟩
  · have bound := (List.getElem?_eq_some_iff.mp here).1
    omega
  · rw [here] at calledHere
    cases calledHere
    rw [ranOps] at ranRun
    cases ranRun
    obtain ⟨skipped, member, above⟩ := breaks_places sound.good afterGood moved here
      (by push Not; exact breaks)
    rw [returns] at ran
    refine ⟨_, ran, rfl, afterGood, skipped, member, ?_⟩
    intro wasCalled
    obtain ⟨other, otherMember, otherTag⟩ := List.mem_map.mp wasCalled
    rcases List.mem_append.mp otherMember with earlier | last
    · have first : (walk.state.tags.drop walk.i)[0]? = some tag := by
        rw [List.getElem?_drop]
        exact here
      have less := ahead tag (List.mem_of_getElem? first) other earlier
      omega
    · rw [List.mem_singleton.mp last, callTag] at otherTag
      omega

theorem Walk.Skipped.iterate (bigints : BigIntCells) {walk : Walk} (skipped : walk.Skipped)
    (turn : Turn) :
    ∃ next, walk.iterate bigints turn = some next ∧ next.Unsound := by
  obtain ⟨status, good, missed, member, uncalled⟩ := skipped
  rcases iterate_cases bigints status good turn with
    ⟨_, ran⟩ | ⟨tag, after, call, here, _, _, _, callTag, held, ran⟩
  · exact ⟨_, ran, Or.inr ⟨rfl, missed, List.mem_of_mem_take member, uncalled⟩⟩
  · refine ⟨_, ran, Or.inl ⟨walk.calls, [], call, rfl, missed, ?_, ?_, uncalled⟩⟩
    · rw [held]
      exact List.mem_of_mem_take member
    · rw [callTag]
      exact lt_of_mem_take good.increasing here member

private theorem iterate_grows {walk next : Walk} {turn : Turn}
    (ran : walk.iterate bigints turn = some next) :
    (∃ more, next.calls = walk.calls ++ more) ∧ (walk.status = .finished → next = walk) := by
  unfold Walk.iterate at ran
  split at ran
  · cases ran
    exact ⟨⟨[], (List.append_nil _).symm⟩, fun _ => rfl⟩
  · cases ran
    exact ⟨⟨[], (List.append_nil _).symm⟩, fun _ => rfl⟩
  · rename_i running
    refine ⟨?_, fun finished => by rw [running] at finished; cases finished⟩
    split at ran
    · cases ran
      exact ⟨[], (List.append_nil _).symm⟩
    · split at ran
      · cases ran
        exact ⟨[], (List.append_nil _).symm⟩
      · obtain ⟨tag, _, ran⟩ := Option.bind_eq_some_iff.mp ran
        obtain ⟨after, _, ran⟩ := Option.bind_eq_some_iff.mp ran
        split at ran <;> cases ran <;> exact ⟨_, rfl⟩

theorem Walk.Unsound.iterate {walk next : Walk} (unsound : walk.Unsound) {turn : Turn}
    (ran : walk.iterate bigints turn = some next) : next.Unsound := by
  obtain ⟨⟨more, calls⟩, stays⟩ := iterate_grows ran
  rcases unsound with ⟨earlier, later, call, split, missed⟩ | ⟨finished, missed⟩
  · refine Or.inl ⟨earlier, later ++ more, call, ?_, missed⟩
    rw [calls, split, List.append_assoc, List.cons_append]
  · rw [stays finished]
    exact Or.inr ⟨finished, missed⟩

/-! ### Whole walks -/

theorem Walk.run_unsound : ∀ {turns : List Turn} {walk last : Walk}, walk.Unsound →
    Walk.run bigints turns walk = some last → last.Unsound
  | [], _, _, unsound, ran => by
      cases ran
      exact unsound
  | turn :: turns, walk, last, unsound, ran => by
      obtain ⟨next, stepped, ran⟩ := Option.bind_eq_some_iff.mp ran
      exact Walk.run_unsound (unsound.iterate stepped) ran

private theorem iterate_good (bigints : BigIntCells) {walk : Walk} (good : walk.state.Good) (turn : Turn) :
    ∃ next, walk.iterate bigints turn = some next ∧ next.state.Good ∧
      (next.status = .running → walk.status = .running ∧
        next.calls.length = walk.calls.length + 1) := by
  cases status : walk.status with
  | running =>
      rcases iterate_cases bigints status good turn with
        ⟨_, ran⟩ | ⟨tag, after, call, _, _, afterGood, _, _, _, ran⟩
      · exact ⟨_, ran, good, fun wrong => by cases wrong⟩
      · exact ⟨_, ran, afterGood, fun _ => ⟨rfl, List.length_append⟩⟩
  | finished =>
      refine ⟨walk, ?_, good, fun wrong => ?_⟩
      · unfold Walk.iterate
        rw [status]
      · rw [status] at wrong
        cases wrong
  | failed =>
      refine ⟨walk, ?_, good, fun wrong => ?_⟩
      · unfold Walk.iterate
        rw [status]
      · rw [status] at wrong
        cases wrong

theorem Walk.run_good (bigints : BigIntCells) : ∀ (turns : List Turn) {walk : Walk}, walk.state.Good →
    ∃ last, Walk.run bigints turns walk = some last ∧
      (last.status = .running → walk.status = .running ∧
        last.calls.length = walk.calls.length + turns.length)
  | [], walk, _ => ⟨walk, rfl, fun running => ⟨running, rfl⟩⟩
  | turn :: turns, walk, good => by
      obtain ⟨next, stepped, nextGood, counted⟩ := iterate_good bigints good turn
      obtain ⟨last, ran, more⟩ := Walk.run_good bigints turns nextGood
      refine ⟨last, ?_, ?_⟩
      · unfold Walk.run
        rw [stepped]
        exact ran
      · intro running
        obtain ⟨nextRunning, lastCount⟩ := more running
        obtain ⟨walkRunning, nextCount⟩ := counted nextRunning
        refine ⟨walkRunning, ?_⟩
        rw [lastCount, nextCount, List.length_cons]
        omega

theorem Walk.Sound.run : ∀ {turns : List Turn} {walk last : Walk}, walk.Sound →
    Walk.run bigints turns walk = some last → TurnsKeep bigints turns walk → last.Sound
  | [], _, _, sound, ran, _ => by
      cases ran
      exact sound
  | turn :: turns, walk, last, sound, ran, keeps => by
      obtain ⟨next, stepped, ran⟩ := Option.bind_eq_some_iff.mp ran
      obtain ⟨after, steppedAfter, afterSound⟩ := sound.iterate keeps.1
      rw [stepped] at steppedAfter
      cases steppedAfter
      exact Walk.Sound.run afterSound ran (keeps.2 next stepped)

theorem Walk.Sound.keeps : ∀ {turns : List Turn} {walk last : Walk}, walk.Sound →
    Walk.run bigints turns walk = some last → last.status ≠ .running → VisitsSoundly last →
    TurnsKeep bigints turns walk
  | [], _, _, _, _, _, _ => trivial
  | turn :: turns, walk, last, sound, ran, ended, visits => by
      obtain ⟨next, stepped, ran⟩ := Option.bind_eq_some_iff.mp ran
      by_cases keeps : TurnKeeps bigints walk turn
      · obtain ⟨after, steppedAfter, afterSound⟩ := sound.iterate keeps
        refine ⟨keeps, fun other otherStepped => ?_⟩
        rw [steppedAfter] at stepped otherStepped
        cases stepped
        cases otherStepped
        exact Walk.Sound.keeps afterSound ran ended visits
      · obtain ⟨after, steppedAfter, skipped⟩ := sound.skips keeps
        rw [stepped] at steppedAfter
        cases steppedAfter
        cases turns with
        | nil =>
            cases ran
            exact absurd skipped.1 ended
        | cons turn turns =>
            obtain ⟨later, steppedLater, unsound⟩ := skipped.iterate bigints turn
            unfold Walk.run at ran
            rw [steppedLater] at ran
            exact absurd visits (Walk.run_unsound unsound ran).not_visits

end

private theorem begin_sound {state : Tagged} (good : state.Good) : (Walk.begin state).Sound where
  good := good
  visits :=
    { ordered := List.Pairwise.nil
      inTurn := fun earlier later call split => absurd split.symm (List.append_ne_nil_of_right_ne_nil
        earlier (List.cons_ne_nil call later))
      ended := fun wrong => nomatch wrong }
  behind _ tag member := absurd member (by
    show tag ∉ state.tags.take 0
    rw [List.take_zero]
    exact List.not_mem_nil)
  ahead _ _ _ call member := absurd member List.not_mem_nil

/-- A walk over any collection, under any callback: it is sound as long as each
callback that returns keeps the entries up to its own or leaves none behind it,
and a walk that has ended is sound only then. -/
theorem mapForEach_visits (bigints : BigIntCells) (isSet : Bool) (before : List MapOp)
    (argCount : Nat) (turns : List Turn) :
    ∃ start walk, (Tagged.new isSet).run bigints before = some start ∧
      mapForEach bigints (some start) (argCount + 1) turns = .ok (some walk) ∧
      (walk.status = .running → walk.calls.length = turns.length) ∧
      (TurnsKeep bigints turns (Walk.begin start) → VisitsSoundly walk) ∧
      (walk.status ≠ .running → VisitsSoundly walk →
        TurnsKeep bigints turns (Walk.begin start)) := by
  obtain ⟨start, ranBefore, good, _⟩ := Tagged.run_good bigints before (Tagged.new_good isSet)
  have sound := begin_sound good
  obtain ⟨walk, ran, counted⟩ := Walk.run_good bigints turns sound.good
  refine ⟨start, walk, ranBefore, ?_, ?_, fun keeps => (sound.run ran keeps).visits,
    sound.keeps ran⟩
  · rw [mapForEach_walks, ran]
  · intro running
    rw [(counted running).2]
    exact Nat.zero_add _

/-! ### A callback that deletes the entry it is called with -/

private def threeKeys : List MapOp :=
  [.set (.bool true) .null, .set (.bool false) .null, .set .null .null]

private def deleting : List Turn :=
  [{ ops := [.delete (.bool true)], returns := true },
    { ops := [.delete .null], returns := true },
    { ops := [], returns := true }]

/-- The second entry is never visited. -/
theorem deleted_current_skips :
    ¬∀ (bigints : BigIntCells) (isSet : Bool) (before : List MapOp) (turns : List Turn)
      (start : Tagged) (walk : Walk), (Tagged.new isSet).run bigints before = some start →
      mapForEach bigints (some start) 1 turns = .ok (some walk) → VisitsSoundly walk := by
  intro claim
  let cells : BigIntCells := fun _ => { limbs := [], negative := false }
  have done : (((Tagged.new true).run cells threeKeys).bind (fun start =>
      (Walk.run cells deleting (Walk.begin start)).map (fun walk =>
        (walk.status, walk.state.tags, walk.calls.map Call.tag)))) =
      some (.finished, [1], [0, 2]) := by
    decide +kernel
  obtain ⟨start, ranBefore, rest⟩ := Option.bind_eq_some_iff.mp done
  obtain ⟨walk, ran, seen⟩ := Option.map_eq_some_iff.mp rest
  obtain ⟨status, tagsAndCalls⟩ := Prod.mk.inj seen
  obtain ⟨tags, calls⟩ := Prod.mk.inj tagsAndCalls
  have visits := claim cells true threeKeys deleting start walk ranBefore
    ((mapForEach_walks cells start 0 deleting).trans (congrArg Except.ok ran))
  have missed := visits.ended status 1 (by rw [tags]; exact List.mem_cons_self)
  rw [calls] at missed
  revert missed
  decide

end CScript
