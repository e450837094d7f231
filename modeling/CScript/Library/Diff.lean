/-
The line diff of std:text.

The table holds, for every two suffixes, how long a common sublist of them can be; it is
filled from the ends, and the walk from the start never takes a step that costs one.
-/

import CScript.Runtime.Value
import Mathlib.Data.List.Basic
import Mathlib.Order.Bounds.Basic
import Mathlib.Tactic.Common

namespace CScript.Diff

open scoped List

abbrev Text := List UInt8

inductive Kind where
  | same
  | added
  | removed
  deriving DecidableEq

structure Change where
  kind : Kind
  text : Text

/-- `lengths[i][j]` -/
abbrev Table := Nat → Nat → Nat

def Table.set (lengths : Table) (i j value : Nat) : Table :=
  fun row column => if row = i ∧ column = j then value else lengths row column

/-- The lines of a text, of which the empty one has none. -/
def linesOf (text : Text) : List Text :=
  if text = [] then [] else text.splitOn '\n'.toUInt8

section

variable (source target : List Text)

/-- The inner loop, over the columns below `j`. -/
def fillRow (i : Nat) : Nat → Table → Table
  | 0, lengths => lengths
  | j + 1, lengths =>
      fillRow i j (lengths.set i j
        (if source[i]? = target[j]? then lengths (i + 1) (j + 1) + 1
        else
          let down := lengths (i + 1) j
          let right := lengths i (j + 1)
          if right < down then down else right))

def fillLoop : Nat → Table → Table
  | 0, lengths => lengths
  | i + 1, lengths => fillLoop i (fillRow source target i target.length lengths)

def walkLoop (lengths : Table) (i j : Nat) : List Change :=
  if inside : i < source.length ∧ j < target.length then
    if source[i] = target[j] then
      { kind := .same, text := source[i] } :: walkLoop lengths (i + 1) (j + 1)
    else if lengths i (j + 1) ≤ lengths (i + 1) j then
      { kind := .removed, text := source[i] } :: walkLoop lengths (i + 1) j
    else { kind := .added, text := target[j] } :: walkLoop lengths i (j + 1)
  else
    ((source.drop i).map fun text => { kind := .removed, text := text }) ++
      (target.drop j).map fun text => { kind := .added, text := text }
termination_by source.length - i + (target.length - j)

end

def diffLines (before after : Text) : List Change :=
  let source := linesOf before
  let target := linesOf after
  walkLoop source target (fillLoop source target source.length fun _ _ => 0) 0 0

/-! ### Common sublists -/

def common : List Text → List Text → Nat
  | [], _ => 0
  | _ :: _, [] => 0
  | left :: source, right :: target =>
      if left = right then common source target + 1
      else max (common source (right :: target)) (common (left :: source) target)

theorem common_nil (source : List Text) : common source [] = 0 := by
  cases source <;> rw [common]

theorem length_le_common {shared source target : List Text} (inSource : shared <+ source)
    (inTarget : shared <+ target) : shared.length ≤ common source target := by
  fun_induction common source target generalizing shared with
  | case1 target =>
      rw [List.sublist_nil.mp inSource]
      exact Nat.le_refl 0
  | case2 left source =>
      rw [List.sublist_nil.mp inTarget]
      exact Nat.le_refl 0
  | case3 left source target ih =>
      have shorter := ih inSource.tail inTarget.tail
      rw [List.length_tail] at shorter
      omega
  | case4 left source right target differ ihSource ihTarget =>
      rcases List.sublist_cons_iff.mp inSource with without | ⟨rest, rfl, _⟩
      · exact (ihSource without inTarget).trans (Nat.le_max_left _ _)
      · rcases List.sublist_cons_iff.mp inTarget with without | ⟨others, is, _⟩
        · exact (ihTarget inSource without).trans (Nat.le_max_right _ _)
        · exact absurd (List.cons.inj is).1 differ

section

variable {source target : List Text}

theorem common_drop_same {i j : Nat} (here : i < source.length) (there : j < target.length)
    (same : source[i] = target[j]) :
    common (source.drop i) (target.drop j) =
      common (source.drop (i + 1)) (target.drop (j + 1)) + 1 := by
  rw [List.drop_eq_getElem_cons here, List.drop_eq_getElem_cons there, common, if_pos same]

theorem common_drop_other {i j : Nat} (here : i < source.length) (there : j < target.length)
    (differ : source[i] ≠ target[j]) :
    common (source.drop i) (target.drop j) =
      max (common (source.drop (i + 1)) (target.drop j))
        (common (source.drop i) (target.drop (j + 1))) := by
  rw [List.drop_eq_getElem_cons here, List.drop_eq_getElem_cons there, common, if_neg differ,
    ← List.drop_eq_getElem_cons here, ← List.drop_eq_getElem_cons there]

/-! ### The table -/

/-- Row `i` holds what it is meant to from column `j` on. -/
def RowFrom (source target : List Text) (lengths : Table) (i j : Nat) : Prop :=
  ∀ column, j ≤ column → column ≤ target.length →
    lengths i column = common (source.drop i) (target.drop column)

theorem fillRow_other {i row : Nat} (other : row ≠ i) (j : Nat) (lengths : Table) :
    fillRow source target i j lengths row = lengths row := by
  induction j generalizing lengths with
  | zero => rfl
  | succ j ih =>
      rw [fillRow, ih]
      funext column
      exact if_neg fun both => other both.1

theorem fillRow_rowFrom {i j : Nat} {lengths : Table} (here : i < source.length)
    (bound : j ≤ target.length) (below : RowFrom source target lengths (i + 1) 0)
    (behind : RowFrom source target lengths i j) :
    RowFrom source target (fillRow source target i j lengths) i 0 := by
  induction j generalizing lengths with
  | zero => exact behind
  | succ j ih =>
      have there : j < target.length := bound
      rw [fillRow]
      apply ih (Nat.le_of_lt there)
      · intro column _ fits
        refine (if_neg fun both => ?_).trans (below column (Nat.zero_le _) fits)
        omega
      · intro column least fits
        unfold Table.set
        by_cases isPlace : column = j
        · subst isPlace
          rw [if_pos ⟨rfl, rfl⟩, below _ (Nat.zero_le _) there,
            below _ (Nat.zero_le _) (Nat.le_of_lt there), behind _ (Nat.le_refl _) there]
          simp only [List.getElem?_eq_getElem here, List.getElem?_eq_getElem there,
            Option.some_inj]
          split
          next same => exact (common_drop_same here there same).symm
          next differ =>
            rw [common_drop_other here there differ]
            split <;> omega
        · rw [if_neg fun both => isPlace both.2]
          exact behind column (by omega) fits

theorem fillLoop_rows {i : Nat} {lengths : Table} (bound : i ≤ source.length)
    (behind : ∀ row, i ≤ row → row ≤ source.length → RowFrom source target lengths row 0)
    (ends : ∀ row, lengths row target.length = 0) (row : Nat) (fits : row ≤ source.length) :
    RowFrom source target (fillLoop source target i lengths) row 0 := by
  induction i generalizing lengths with
  | zero => exact behind row (Nat.zero_le _) fits
  | succ i ih =>
      have last (row : Nat) : RowFrom source target lengths row target.length := by
        intro column least most
        obtain rfl := Nat.le_antisymm most least
        rw [ends, List.drop_length, common_nil]
      have filled := fillRow_rowFrom bound (Nat.le_refl _) (behind (i + 1) (Nat.le_refl _) bound)
        (last i)
      rw [fillLoop]
      apply ih (Nat.le_of_succ_le bound)
      · intro row least most
        by_cases isRow : row = i
        · rw [isRow]
          exact filled
        · unfold RowFrom
          rw [fillRow_other isRow]
          exact behind row (by omega) most
      · intro row
        by_cases isRow : row = i
        · rw [isRow, filled _ (Nat.zero_le _) (Nat.le_refl _), List.drop_length, common_nil]
        · rw [fillRow_other isRow, ends]

/-! ### The walk -/

def textsBut (kind : Kind) (changes : List Change) : List Text :=
  (changes.filter fun change => change.kind ≠ kind).map Change.text

def sameCount (changes : List Change) : Nat :=
  changes.countP fun change => change.kind = .same

theorem textsBut_append (but : Kind) (front back : List Change) :
    textsBut but (front ++ back) = textsBut but front ++ textsBut but back := by
  unfold textsBut
  rw [List.filter_append, List.map_append]

theorem textsBut_map (but kind : Kind) (texts : List Text) :
    textsBut but (texts.map fun text => { kind := kind, text := text }) =
      if kind = but then [] else texts := by
  unfold textsBut
  split
  next is => simp [is]
  next other => simp [List.filter_map, Function.comp_def, other]

theorem walkLoop_spec {lengths : Table}
    (filled : ∀ row ≤ source.length, RowFrom source target lengths row 0) (i j : Nat) :
    textsBut .added (walkLoop source target lengths i j) = source.drop i ∧
      textsBut .removed (walkLoop source target lengths i j) = target.drop j ∧
      sameCount (walkLoop source target lengths i j) =
        common (source.drop i) (target.drop j) := by
  fun_induction walkLoop source target lengths i j with
  | case1 i j inside same ih =>
      rw [common_drop_same inside.1 inside.2 same, ← ih.2.2]
      refine ⟨?_, ?_, ?_⟩
      · rw [List.drop_eq_getElem_cons inside.1, ← ih.1]
        rfl
      · rw [List.drop_eq_getElem_cons inside.2, ← ih.2.1, ← same]
        rfl
      · exact List.countP_cons_of_pos rfl
  | case2 i j inside differ order ih =>
      rw [filled i (Nat.le_of_lt inside.1) _ (Nat.zero_le _) inside.2,
        filled (i + 1) inside.1 _ (Nat.zero_le _) (Nat.le_of_lt inside.2)] at order
      rw [common_drop_other inside.1 inside.2 differ, Nat.max_eq_left order, ← ih.2.2]
      refine ⟨?_, ih.2.1, List.countP_cons_of_neg Bool.false_ne_true⟩
      rw [List.drop_eq_getElem_cons inside.1, ← ih.1]
      rfl
  | case3 i j inside differ order ih =>
      rw [filled i (Nat.le_of_lt inside.1) _ (Nat.zero_le _) inside.2,
        filled (i + 1) inside.1 _ (Nat.zero_le _) (Nat.le_of_lt inside.2)] at order
      rw [common_drop_other inside.1 inside.2 differ, Nat.max_eq_right (Nat.le_of_not_le order),
        ← ih.2.2]
      refine ⟨ih.1, ?_, List.countP_cons_of_neg Bool.false_ne_true⟩
      rw [List.drop_eq_getElem_cons inside.2, ← ih.2.1]
      rfl
  | case4 i j outside =>
      refine ⟨?_, ?_, ?_⟩
      · rw [textsBut_append, textsBut_map, textsBut_map, if_neg (by decide), if_pos rfl,
          List.append_nil]
      · rw [textsBut_append, textsBut_map, textsBut_map, if_pos rfl, if_neg (by decide)]
        rfl
      · have nothing : common (source.drop i) (target.drop j) = 0 := by
          rcases Nat.lt_or_ge i source.length with here | beyond
          · rw [List.drop_eq_nil_of_le (Nat.le_of_not_lt fun there => outside ⟨here, there⟩),
              common_nil]
          · rw [List.drop_eq_nil_of_le beyond, common]
        rw [nothing, sameCount, List.countP_eq_zero]
        intro change member
        rcases List.mem_append.mp member with removed | added
        · obtain ⟨_, _, rfl⟩ := List.mem_map.mp removed
          exact Bool.false_ne_true
        · obtain ⟨_, _, rfl⟩ := List.mem_map.mp added
          exact Bool.false_ne_true

theorem same_sublist (changes : List Change) {but : Kind} (other : but ≠ .same) :
    (changes.filter fun change => change.kind = .same).map Change.text <+
      textsBut but changes := by
  apply List.Sublist.map
  apply List.monotone_filter_right
  intro change same
  rw [decide_eq_true_iff] at same ⊢
  rw [same]
  exact other.symm

end

/-- The diff is both texts at once, and no more lines could have stayed the same. -/
theorem diffLines_faithful_minimal (before after : Text) :
    textsBut .added (diffLines before after) = linesOf before ∧
      textsBut .removed (diffLines before after) = linesOf after ∧
      IsGreatest {length | ∃ shared, shared <+ linesOf before ∧ shared <+ linesOf after ∧
        shared.length = length} (sameCount (diffLines before after)) := by
  have last : ∀ row, (linesOf before).length ≤ row → row ≤ (linesOf before).length →
      RowFrom (linesOf before) (linesOf after) (fun _ _ => 0) row 0 := by
    intro row least most column _ _
    rw [Nat.le_antisymm most least, List.drop_length, common]
  have walked := walkLoop_spec (fillLoop_rows (Nat.le_refl _) last fun _ => rfl) 0 0
  obtain ⟨kept, made, count⟩ : textsBut .added (diffLines before after) = linesOf before ∧
    textsBut .removed (diffLines before after) = linesOf after ∧
      sameCount (diffLines before after) = common (linesOf before) (linesOf after) := walked
  refine ⟨kept, made, ?_, ?_⟩
  · have inBefore := same_sublist (diffLines before after) (show Kind.added ≠ .same by decide)
    have inAfter := same_sublist (diffLines before after) (show Kind.removed ≠ .same by decide)
    rw [kept] at inBefore
    rw [made] at inAfter
    refine ⟨_, inBefore, inAfter, ?_⟩
    rw [List.length_map]
    exact List.countP_eq_length_filter.symm
  · rintro _ ⟨shared, inBefore, inAfter, rfl⟩
    exact (length_le_common inBefore inAfter).trans count.ge

end CScript.Diff
