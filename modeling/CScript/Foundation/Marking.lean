/-
Marking a graph with a worklist.

A node is marked when it is first met and waits on the worklist until its
references are followed.  What a trace marks is bounded from above by any set
that holds the first nodes and is closed under references, and from below
because a trace that has ended leaves nothing waiting.  Unmarked nodes plus
waiting ones bound the number of steps.
-/

import Mathlib.Tactic.Common
import Mathlib.Logic.Function.Basic

namespace Foundation

/-- `gray` is the worklist, top first. -/
structure Marking (Node : Type) where
  isMarked : Node → Bool
  gray : List Node

namespace Marking

variable {Node : Type}

/-! ### Counting nodes -/

def white (nodes : List Node) (marking : Marking Node) : Nat :=
  nodes.countP (fun node => !marking.isMarked node)

def work (nodes : List Node) (marking : Marking Node) : Nat :=
  white nodes marking + marking.gray.length

theorem white_le {nodes : List Node} {marking after : Marking Node}
    (grows : ∀ node, marking.isMarked node = true → after.isMarked node = true) :
    white nodes after ≤ white nodes marking := by
  apply List.countP_mono_left
  intro node _ unmarked
  rw [Bool.not_eq_true'] at unmarked ⊢
  exact Bool.eq_false_iff.mpr (fun marked =>
    Bool.eq_false_iff.mp unmarked (grows node marked))

theorem white_lt {nodes : List Node} {marking after : Marking Node}
    (grows : ∀ node, marking.isMarked node = true → after.isMarked node = true)
    {node : Node} (member : node ∈ nodes) (was : marking.isMarked node = false)
    (now : after.isMarked node = true) : white nodes after < white nodes marking := by
  unfold white
  induction nodes with
  | nil => cases member
  | cons head tail ih =>
      have tailLe : tail.countP (fun node => !after.isMarked node) ≤
          tail.countP (fun node => !marking.isMarked node) := white_le grows
      rcases List.mem_cons.mp member with equal | later
      · subst equal
        rw [List.countP_cons_of_neg (by simp [now]), List.countP_cons_of_pos (by simp [was])]
        omega
      · have tailLt := ih later
        rw [List.countP_cons, List.countP_cons]
        by_cases headNow : after.isMarked head = true
        · simp only [headNow, Bool.not_true, Bool.false_eq_true, if_false]
          omega
        · have headWas : marking.isMarked head = false :=
            Bool.eq_false_iff.mpr (fun marked => headNow (grows head marked))
          simp only [headWas, Bool.eq_false_iff.mpr headNow, Bool.not_false, if_true]
          omega

/-! ### The trace -/

variable [DecidableEq Node]

def mark (marking : Marking Node) (node : Node) : Marking Node :=
  if marking.isMarked node then marking
  else
    { isMarked := Function.update marking.isMarked node true
      gray := node :: marking.gray }

def markAll (marking : Marking Node) (nodes : List Node) : Marking Node :=
  nodes.foldl mark marking

/-- Follows the references of waiting nodes until none waits.  `none` is a
reference that could not be read, or a trace that did not end in time. -/
def trace (references : Node → Option (List Node)) :
    Nat → Marking Node → Option (Marking Node)
  | _, ⟨isMarked, []⟩ => some ⟨isMarked, []⟩
  | 0, ⟨_, _ :: _⟩ => none
  | fuel + 1, ⟨isMarked, node :: rest⟩ => do
      let reached ← references node
      trace references fuel (markAll ⟨isMarked, rest⟩ reached)

/-! ### What marking changes -/

@[simp] theorem mark_isMarked (marking : Marking Node) (node other : Node) :
    (marking.mark node).isMarked other = (marking.isMarked other || decide (other = node)) := by
  unfold mark
  by_cases already : marking.isMarked node = true
  · rw [if_pos already]
    by_cases same : other = node
    · subst other
      rw [already, Bool.true_or]
    · simp only [same, decide_false, Bool.or_false]
  · rw [if_neg already]
    by_cases same : other = node
    · subst other
      simp only [Function.update_self, decide_true, Bool.or_true]
    · simp only [Function.update_of_ne same, same, decide_false, Bool.or_false]

theorem markAll_isMarked (marking : Marking Node) (nodes : List Node) (other : Node) :
    (marking.markAll nodes).isMarked other = true ↔
      marking.isMarked other = true ∨ other ∈ nodes := by
  unfold markAll
  induction nodes generalizing marking with
  | nil => simp only [List.foldl_nil, List.not_mem_nil, or_false]
  | cons node rest ih =>
      rw [List.foldl_cons, ih, mark_isMarked, Bool.or_eq_true, decide_eq_true_eq,
        List.mem_cons, or_assoc]

theorem mem_gray_mark {marking : Marking Node} {node other : Node} :
    other ∈ (marking.mark node).gray ↔
      other ∈ marking.gray ∨ other = node ∧ marking.isMarked node = false := by
  unfold mark
  by_cases already : marking.isMarked node = true
  · rw [if_pos already]
    simp only [already, Bool.true_eq_false, and_false, or_false]
  · rw [if_neg already, List.mem_cons]
    simp only [Bool.eq_false_iff.mpr already, and_true]
    exact Or.comm

theorem mem_gray_markAll {marking : Marking Node} {nodes : List Node} {other : Node} :
    other ∈ (marking.markAll nodes).gray ↔
      other ∈ marking.gray ∨ other ∈ nodes ∧ marking.isMarked other = false := by
  unfold markAll
  induction nodes generalizing marking with
  | nil => simp only [List.foldl_nil, List.not_mem_nil, false_and, or_false]
  | cons node rest ih =>
      rw [List.foldl_cons, ih, mem_gray_mark, mark_isMarked, List.mem_cons]
      by_cases same : other = node
      · subst other
        simp only [true_and, decide_true, Bool.or_true, Bool.true_eq_false, and_false,
          or_false, true_or]
      · simp only [same, false_and, or_false, false_or, decide_false, Bool.or_false]

/-! ### The work left -/

theorem work_mark {nodes : List Node} {marking : Marking Node} {node : Node}
    (member : node ∈ nodes) : work nodes (marking.mark node) ≤ work nodes marking := by
  by_cases already : marking.isMarked node = true
  · exact Nat.le_of_eq (congrArg (work nodes) (if_pos already))
  · have fewer : white nodes (marking.mark node) < white nodes marking :=
      white_lt (fun other marked => by rw [mark_isMarked, marked, Bool.true_or]) member
        (Bool.eq_false_iff.mpr already) (by rw [mark_isMarked]; simp)
    have longer : (marking.mark node).gray.length = marking.gray.length + 1 := by
      rw [mark, if_neg already, List.length_cons]
    unfold work
    omega

theorem work_markAll {nodes : List Node} {marking : Marking Node} {reached : List Node}
    (members : ∀ node ∈ reached, node ∈ nodes) :
    work nodes (marking.markAll reached) ≤ work nodes marking := by
  unfold markAll
  induction reached generalizing marking with
  | nil => exact Nat.le_refl _
  | cons node rest ih =>
      rw [List.foldl_cons]
      calc work nodes (rest.foldl mark (marking.mark node))
          ≤ work nodes (marking.mark node) :=
            ih (fun other later => members other (List.mem_cons_of_mem node later))
        _ ≤ work nodes marking := work_mark (members node List.mem_cons_self)

/-! ### The invariant of a trace -/

def Reads (references : Node → Option (List Node)) (nodes : List Node) : Prop :=
  ∀ node ∈ nodes, ∃ reached, references node = some reached ∧ ∀ other ∈ reached, other ∈ nodes

/-- `allowed` is any set closed under references. -/
structure Traced (references : Node → Option (List Node)) (nodes : List Node)
    (allowed : Node → Prop) (marking : Marking Node) : Prop where
  within : ∀ node, marking.isMarked node = true → node ∈ nodes
  sound : ∀ node, marking.isMarked node = true → allowed node
  waiting : ∀ node ∈ marking.gray, marking.isMarked node = true
  frontier : ∀ node reached, marking.isMarked node = true → node ∉ marking.gray →
    references node = some reached → ∀ other ∈ reached, marking.isMarked other = true

section

variable {references : Node → Option (List Node)} {nodes : List Node} {allowed : Node → Prop}

omit [DecidableEq Node] in
theorem traced_empty {marking : Marking Node} (clear : ∀ node, marking.isMarked node = false)
    (idle : marking.gray = []) : Traced references nodes allowed marking where
  within node marked := by rw [clear] at marked; cases marked
  sound node marked := by rw [clear] at marked; cases marked
  waiting node member := by rw [idle] at member; cases member
  frontier node reached marked _ _ := by rw [clear] at marked; cases marked

theorem Traced.markAll {marking : Marking Node}
    (traced : Traced references nodes allowed marking) {reached : List Node}
    (members : ∀ node ∈ reached, node ∈ nodes) (fine : ∀ node ∈ reached, allowed node) :
    Traced references nodes allowed (marking.markAll reached) where
  within node marked :=
    ((markAll_isMarked marking reached node).mp marked).elim (traced.within node)
      (members node)
  sound node marked :=
    ((markAll_isMarked marking reached node).mp marked).elim (traced.sound node) (fine node)
  waiting node member := by
    apply (markAll_isMarked marking reached node).mpr
    exact (mem_gray_markAll.mp member).imp (traced.waiting node) And.left
  frontier node followed marked notWaiting read other member := by
    rw [mem_gray_markAll, not_or, not_and] at notWaiting
    have before : marking.isMarked node = true := by
      rcases (markAll_isMarked marking reached node).mp marked with already | new
      · exact already
      · exact Bool.not_eq_false _ ▸ notWaiting.2 new
    exact (markAll_isMarked marking reached other).mpr
      (Or.inl (traced.frontier node followed before notWaiting.1 read other member))

theorem Traced.pop {isMarked : Node → Bool} {node : Node} {rest reached : List Node}
    (traced : Traced references nodes allowed ⟨isMarked, node :: rest⟩)
    (closed : ∀ node reached, allowed node → references node = some reached →
      ∀ other ∈ reached, allowed other)
    (read : references node = some reached) (members : ∀ other ∈ reached, other ∈ nodes) :
    Traced references nodes allowed (Marking.markAll ⟨isMarked, rest⟩ reached) := by
  have here : isMarked node = true := traced.waiting node List.mem_cons_self
  have fine : ∀ other ∈ reached, allowed other :=
    closed node reached (traced.sound node here) read
  constructor
  · intro other marked
    exact ((markAll_isMarked _ _ other).mp marked).elim (traced.within other) (members other)
  · intro other marked
    exact ((markAll_isMarked _ _ other).mp marked).elim (traced.sound other) (fine other)
  · intro other member
    apply (markAll_isMarked _ _ other).mpr
    exact (mem_gray_markAll.mp member).imp
      (fun later => traced.waiting other (List.mem_cons_of_mem node later)) And.left
  · intro other followed marked notWaiting otherRead target member
    apply (markAll_isMarked _ _ target).mpr
    by_cases same : other = node
    · subst other
      rw [read] at otherRead
      cases otherRead
      exact Or.inr member
    · rw [mem_gray_markAll, not_or, not_and] at notWaiting
      have before : isMarked other = true := by
        rcases (markAll_isMarked _ _ other).mp marked with already | new
        · exact already
        · exact Bool.not_eq_false _ ▸ notWaiting.2 new
      have elsewhere : other ∉ node :: rest := by
        rw [List.mem_cons, not_or]
        exact ⟨same, notWaiting.1⟩
      exact Or.inl (traced.frontier other followed before elsewhere otherRead target member)

theorem trace_spec (reads : Reads references nodes)
    (closed : ∀ node reached, allowed node → references node = some reached →
      ∀ other ∈ reached, allowed other) :
    ∀ (fuel : Nat) (marking : Marking Node), Traced references nodes allowed marking →
      work nodes marking ≤ fuel →
      ∃ after, trace references fuel marking = some after ∧
        Traced references nodes allowed after ∧ after.gray = [] ∧
        ∀ node, marking.isMarked node = true → after.isMarked node = true
  | fuel, ⟨isMarked, []⟩, traced, _ =>
      ⟨⟨isMarked, []⟩, by unfold trace; rfl, traced, rfl, fun _ marked => marked⟩
  | 0, ⟨isMarked, node :: rest⟩, _, enough => by
      unfold work at enough
      rw [List.length_cons] at enough
      omega
  | fuel + 1, ⟨isMarked, node :: rest⟩, traced, enough => by
      have member := traced.within node (traced.waiting node List.mem_cons_self)
      obtain ⟨reached, read, members⟩ := reads node member
      have less : work nodes (Marking.markAll ⟨isMarked, rest⟩ reached) ≤ fuel := by
        have kept : work nodes (Marking.markAll ⟨isMarked, rest⟩ reached) ≤
            work nodes ⟨isMarked, rest⟩ := work_markAll members
        have popped : work nodes ⟨isMarked, node :: rest⟩ =
            work nodes ⟨isMarked, rest⟩ + 1 := rfl
        omega
      obtain ⟨after, ran, afterTraced, done, grows⟩ := trace_spec reads closed fuel
        (Marking.markAll ⟨isMarked, rest⟩ reached) (traced.pop closed read members) less
      refine ⟨after, ?_, afterTraced, done, fun other marked =>
        grows other ((markAll_isMarked _ _ other).mpr (Or.inl marked))⟩
      unfold trace
      simp only [read, Option.bind_eq_bind, Option.bind_some]
      exact ran

omit [DecidableEq Node] in
theorem Traced.closed {marking : Marking Node}
    (traced : Traced references nodes allowed marking) (done : marking.gray = [])
    {node other : Node} {reached : List Node} (marked : marking.isMarked node = true)
    (read : references node = some reached) (member : other ∈ reached) :
    marking.isMarked other = true :=
  traced.frontier node reached marked (by rw [done]; exact List.not_mem_nil) read other member

end

end Marking

end Foundation
