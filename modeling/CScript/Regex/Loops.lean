/-
When a match comes to an end.

The note of a path has, for each instruction, where the cursor was when the path was
last there.  A path that goes back in the program only with the cursor further on
than it was there has to end: the instructions in front of where it goes back to keep
their marks, and its own mark rises.  The alternatives that pend and the calls that
wait end one after the other.
-/

import CScript.Regex.Traced
import Mathlib.Algebra.Order.Monoid.Unbundled.WithTop
import Mathlib.Data.DFinsupp.WellFounded
import Mathlib.Data.Multiset.DershowitzManna
import Mathlib.Tactic.Abel

namespace CScript

/-! ### The cursor stays in front of the end -/

theorem ofStep_proceed (pc : Nat) (sp : Int) (slots : Slots) (alive : Bool) (next : Int) :
    Move.ofStep (proceed (alone pc sp slots) alive next) =
      if alive then .goOn (pc + 1) next else .fail := by
  cases alive with
  | true => rfl
  | false => rfl

section

variable {regex : Regex} {subject : List UInt8}

def Move.Within (length : Nat) : Move → Prop
  | .goOn _ sp => sp ≤ length
  | .look _ behind => ∀ start ∈ behind, start ≤ length
  | _ => True

theorem proceed_within (pc : Nat) (sp : Int) (slots : Slots) {alive : Bool} {next : Int}
    (below : alive = true → next ≤ subject.length) :
    (Move.ofStep (proceed (alone pc sp slots) alive next)).Within subject.length := by
  rw [ofStep_proceed]
  cases alive with
  | true => exact below rfl
  | false => trivial

theorem takeByte_within (pc : Nat) (sp : Int) (slots : Slots) (accepts : UInt8 → Bool) :
    (Move.ofStep (takeByte subject (alone pc sp slots) accepts)).Within subject.length := by
  dsimp only [takeByte, alone, newActivation]
  split
  · exact proceed_within pc sp slots nofun
  · split
    · trivial
    · exact proceed_within pc sp slots (fun _ => by omega)

theorem sameSpan_inside {sp start : Int} {span : Nat}
    (same : sameSpan regex subject sp start span = some true) :
    span = 0 ∨ sp + span ≤ subject.length := by
  induction span generalizing sp start with
  | zero => exact .inl rfl
  | succ span ih =>
      right
      rw [sameSpan] at same
      cases here : byteAt subject sp with
      | none =>
          rw [here] at same
          cases same
      | some byte =>
          cases there : byteAt subject start with
          | none =>
              rw [here, there] at same
              cases same
          | some other =>
              rw [here, there] at same
              have low : 0 ≤ sp ∧ sp < subject.length := by
                unfold byteAt at here
                split at here
                · cases here
                · have inside := (List.getElem?_eq_some_iff.mp here).1
                  omega
              by_cases equal : sameByte byte other regex.ignoreCase = true
              · have rest : sameSpan regex subject (sp + 1) (start + 1) span = some true := by
                  simpa [equal] using same
                rcases ih rest with none_ | inside
                · omega
                · omega
              · simp [equal] at same

theorem stepBackref_within (pc : Nat) {sp : Int} (slots : Slots) (group : Nat)
    (inside : sp ≤ subject.length) :
    (Move.ofStep (stepBackref regex subject (alone pc sp slots) group)).Within
      subject.length := by
  dsimp only [stepBackref, alone, newActivation]
  split
  · exact proceed_within pc sp slots (fun _ => inside)
  · split
    · exact proceed_within pc sp slots nofun
    · split
      · trivial
      · rename_i alive compared
        apply proceed_within pc sp slots
        rintro rfl
        rcases sameSpan_inside compared with none_ | whole
        · omega
        · omega

theorem stepAssert_within (pc : Nat) {sp : Int} (slots : Slots) (holds : Option Bool)
    (inside : sp ≤ subject.length) :
    (Move.ofStep (stepAssert (alone pc sp slots) holds)).Within subject.length := by
  cases holds with
  | none => trivial
  | some alive => exact proceed_within pc sp slots (fun _ => inside)

theorem moveOf_within (pc : Nat) {sp : Int} (slots : Slots) (inside : sp ≤ subject.length) :
    (moveOf regex subject pc sp slots).Within subject.length := by
  unfold moveOf
  cases regex.code[pc]? with
  | none => trivial
  | some inst =>
      dsimp only
      cases op : inst.op <;> simp only [stepInst, op]
      case char => exact takeByte_within pc sp slots _
      case any =>
        unfold takeAny
        split
        · apply proceed_within pc sp slots
          intro before
          have below := of_decide_eq_true before
          dsimp only [alone, newActivation] at below ⊢
          omega
        · exact takeByte_within pc sp slots _
      case class_ =>
        split
        · trivial
        · exact takeByte_within pc sp slots _
      case split => trivial
      case jump => exact inside
      case save => trivial
      case assertBol => exact stepAssert_within pc slots _ inside
      case assertEol => exact stepAssert_within pc slots _ inside
      case assertWord => exact stepAssert_within pc slots _ inside
      case backref => exact stepBackref_within pc slots _ inside
      case look => simp [Move.Within]
      case lookbehind =>
        intro start member
        cases member
        exact inside
      case lookEnd => trivial
      case match_ => trivial

end

/-! ### Marks -/

/-- Where the cursor was when the path was last at an instruction, where the path is,
and whether it once went back to a place with no byte taken since. -/
structure LoopNote where
  marks : Nat → Option Int
  here : Nat
  stuck : Bool

def LoopNote.arrive (pc : Nat) (sp : Int) (note : LoopNote) : LoopNote :=
  { marks := Function.update note.marks pc (some sp)
    here := pc
    stuck := note.stuck ||
      (decide (pc ≤ note.here) && (note.marks pc).any (fun mark => decide (sp ≤ mark))) }

def loopTrace : Trace LoopNote where
  arrive := LoopNote.arrive
  write _ _ note := note
  adopt outer _ := outer
  cross _ _ note := note

def leftAt (length : Nat) (mark : Option Int) : WithTop Nat :=
  match mark with
  | none => ⊤
  | some mark => (((length : Int) - mark).toNat : WithTop Nat)

def LoopNote.left (size length : Nat) (note : LoopNote) (place : Fin (size + 1)) : WithTop Nat :=
  if note.here < place.val ∧ note.here < size then ⊤
  else if place.val = size then ((0 : Nat) : WithTop Nat)
  else leftAt length (note.marks place.val)

def LoopNote.rank (size length : Nat) (note : LoopNote) : Lex (Fin (size + 1) → WithTop Nat) :=
  toLex (note.left size length)

section

variable {size length : Nat}

theorem LoopNote.arrive_elsewhere (note : LoopNote) {pc place : Nat} (sp : Int)
    (elsewhere : place ≠ pc) : (note.arrive pc sp).marks place = note.marks place :=
  Function.update_of_ne elsewhere _ _

theorem LoopNote.arrive_here (note : LoopNote) (pc : Nat) (sp : Int) :
    (note.arrive pc sp).marks pc = some sp :=
  Function.update_self _ _ _

theorem LoopNote.rank_forward {note : LoopNote} {pc : Nat} {sp : Int} (inside : note.here < size)
    (forward : note.here < pc) : (note.arrive pc sp).rank size length < note.rank size length := by
  apply Pi.toLex_strictMono
  rw [Pi.lt_def]
  constructor
  · intro place
    unfold LoopNote.left
    have here : (note.arrive pc sp).here = pc := rfl
    by_cases behind : note.here < place.val ∧ note.here < size
    · rw [if_pos behind]
      exact le_top
    · have before : place.val ≤ note.here := by omega
      rw [if_neg behind, here, if_neg (by omega), arrive_elsewhere note sp (by omega)]
  · refine ⟨⟨min pc size, by omega⟩, ?_⟩
    have before : note.left size length ⟨min pc size, by omega⟩ = ⊤ := by
      rw [left, if_pos]
      dsimp only
      omega
    rw [before, left, if_neg (by dsimp only [arrive]; omega)]
    dsimp only
    by_cases last : min pc size = size
    · rw [if_pos last]
      exact WithTop.coe_lt_top _
    · have reached : min pc size = pc := by omega
      rw [if_neg last, reached, arrive_here]
      exact WithTop.coe_lt_top _

theorem LoopNote.rank_back {note : LoopNote} {pc : Nat} {sp : Int} (inside : note.here < size)
    (within : sp ≤ length) (back : pc ≤ note.here)
    (moves : (note.marks pc).any (fun mark => decide (sp ≤ mark)) = false) :
    (note.arrive pc sp).rank size length < note.rank size length := by
  refine ⟨⟨pc, by omega⟩, ?_, ?_⟩
  · intro place before
    have earlier : place.val < pc := before
    show (note.arrive pc sp).left size length place = note.left size length place
    rw [left, left, if_neg (by dsimp only [arrive]; omega), if_neg (by omega),
      if_neg (by omega), if_neg (by omega), arrive_elsewhere note sp (by omega)]
  · show (note.arrive pc sp).left size length ⟨pc, by omega⟩ < note.left size length ⟨pc, by omega⟩
    rw [left, left, if_neg (by dsimp only [arrive]; omega), if_neg (by dsimp only; omega),
      if_neg (by dsimp only; omega), if_neg (by dsimp only; omega), arrive_here]
    dsimp only
    cases marked : note.marks pc with
    | none => exact WithTop.coe_lt_top _
    | some mark =>
        rw [marked] at moves
        have rises : mark < sp := by simpa using moves
        unfold leftAt
        dsimp only
        have less : (length - sp).toNat < (length - mark).toNat := by omega
        exact WithTop.coe_lt_coe.mpr less

theorem LoopNote.rank_arrive {note : LoopNote} {pc : Nat} {sp : Int} (inside : note.here < size)
    (within : sp ≤ length) (moves : (note.arrive pc sp).stuck = false) :
    (note.arrive pc sp).rank size length < note.rank size length := by
  by_cases forward : note.here < pc
  · exact note.rank_forward inside forward
  · have back : pc ≤ note.here := Nat.le_of_not_lt forward
    have rises : (note.marks pc).any (fun mark => decide (sp ≤ mark)) = false := by
      have parts := (Bool.or_eq_false_iff.mp moves).2
      rw [decide_eq_true back, Bool.true_and] at parts
      exact parts
    exact note.rank_back inside within back rises

end

/-! ### Cursors and places of paths -/

structure PendingTracked (length : Nat) (pending : Thread × LoopNote) : Prop where
  place : pending.2.here = pending.1.pc
  cursor : pending.1.sp ≤ length

structure FrameTracked (length : Nat) (frame : TracedFrame LoopNote) : Prop where
  place : frame.now.here = frame.pc
  cursor : frame.sp ≤ length
  threads : ∀ pending ∈ frame.threads, PendingTracked length pending

structure CallerTracked (length : Nat) (caller : TracedCaller LoopNote) : Prop where
  cursor : caller.frame.sp ≤ length
  threads : ∀ pending ∈ caller.frame.threads, PendingTracked length pending
  behind : ∀ start ∈ caller.behind, start ≤ length

structure Tracked (length : Nat) (traced : Traced LoopNote) : Prop where
  frame : FrameTracked length traced.frame
  callers : ∀ caller ∈ traced.callers, CallerTracked length caller

def StepTracked (length : Nat) : TracedStep LoopNote → Prop
  | .running next => Tracked length next
  | _ => True

def ResumedTracked (length : Nat) : TracedResumed LoopNote → Prop
  | .again frame waiting _ =>
      FrameTracked length frame ∧ ∀ caller ∈ waiting, CallerTracked length caller
  | .backtracks frame _ => ∀ pending ∈ frame.threads, PendingTracked length pending

section

variable {length : Nat}

theorem CallerTracked.conclude {caller : TracedCaller LoopNote}
    (tracked : CallerTracked length caller) (held : Bool) (body : LoopNote) (slots : Slots) :
    ResumedTracked length (caller.conclude loopTrace held body slots) := by
  unfold TracedCaller.conclude
  dsimp only
  split
  · cases held with
    | true =>
        refine ⟨⟨rfl, tracked.cursor, ?_⟩, by simp⟩
        intro pending member
        obtain ⟨origin, present, rfl⟩ := List.mem_map.mp member
        exact tracked.threads origin present
    | false => exact ⟨⟨rfl, tracked.cursor, tracked.threads⟩, by simp⟩
  · exact tracked.threads

theorem CallerTracked.resume {caller : TracedCaller LoopNote}
    (tracked : CallerTracked length caller) (matched : Bool) (endSp : Int) (body : LoopNote)
    (slots : Slots) :
    ResumedTracked length (caller.resume loopTrace matched endSp body slots) := by
  apply TracedCaller.resume_cases caller matched endSp body slots
  · intro held after _
    exact tracked.conclude held body after
  · intro start behind more
    have below := tracked.behind start behind
    refine ⟨⟨rfl, ?_, List.forall_mem_nil _⟩, ?_⟩
    · dsimp only [tracedActivation]
      omega
    · intro one member
      cases member
      refine ⟨tracked.cursor, tracked.threads, ?_⟩
      intro place same
      cases same
      omega

theorem goesOn_tracked {next : TracedFrame LoopNote} {waiting : Option (TracedCaller LoopNote)}
    {slots : Slots} (resumed : ResumedTracked length (.again next waiting slots))
    {callers : List (TracedCaller LoopNote)}
    (others : ∀ caller ∈ callers, CallerTracked length caller) :
    Tracked length { frame := next, callers := waiting.toList ++ callers, slots := slots } := by
  refine ⟨resumed.1, ?_⟩
  intro caller member
  rcases List.mem_append.mp member with new | old
  · exact resumed.2 caller (by simpa using new)
  · exact others caller old

theorem backtrack_tracked {frame : TracedFrame LoopNote}
    (tracked : ∀ pending ∈ frame.threads, PendingTracked length pending) (slots : Slots)
    {callers : List (TracedCaller LoopNote)}
    (waiting : ∀ caller ∈ callers, CallerTracked length caller) :
    StepTracked length (tracedBacktrack loopTrace frame slots callers) := by
  refine @tracedBacktrack_cases _ loopTrace
    (fun frame _ callers step => (∀ pending ∈ frame.threads, PendingTracked length pending) →
      (∀ caller ∈ callers, CallerTracked length caller) → StepTracked length step)
    ?_ ?_ ?_ ?_ frame slots callers tracked waiting
  · exact fun _ _ _ => trivial
  · intro frame slots callers thread note threads pending tracked waiting
    rw [pending, List.forall_mem_cons] at tracked
    exact ⟨⟨tracked.1.place, tracked.1.cursor, tracked.2⟩, waiting⟩
  · intro frame next slots after caller one callers _ answered _ waiting
    have here := List.forall_mem_cons.mp waiting
    have resumed := here.1.resume false frame.sp frame.now slots
    rw [answered] at resumed
    exact goesOn_tracked resumed here.2
  · intro frame next slots after caller callers _ answered ih _ waiting
    have here := List.forall_mem_cons.mp waiting
    have resumed := here.1.resume false frame.sp frame.now slots
    rw [answered] at resumed
    exact ih resumed here.2

theorem succeed_tracked (frame : TracedFrame LoopNote) (slots : Slots)
    {callers : List (TracedCaller LoopNote)}
    (waiting : ∀ caller ∈ callers, CallerTracked length caller) :
    StepTracked length (tracedSucceed loopTrace frame slots callers) := by
  refine @tracedSucceed_cases _ loopTrace
    (fun callers step => (∀ caller ∈ callers, CallerTracked length caller) →
      StepTracked length step) frame slots ?_ ?_ ?_ callers waiting
  · exact fun _ => trivial
  · intro next after caller one callers answered waiting
    have here := List.forall_mem_cons.mp waiting
    have resumed := here.1.resume true frame.sp frame.now slots
    rw [answered] at resumed
    exact goesOn_tracked resumed here.2
  · intro next after caller callers answered waiting
    have here := List.forall_mem_cons.mp waiting
    have resumed := here.1.resume true frame.sp frame.now slots
    rw [answered] at resumed
    exact backtrack_tracked resumed after here.2

theorem perform_tracked {traced : Traced LoopNote} (tracked : Tracked length traced) {move : Move}
    (within : move.Within length) : StepTracked length (traced.perform loopTrace move) := by
  have frame := tracked.frame
  cases move with
  | goOn pc sp => exact ⟨⟨rfl, within, frame.threads⟩, tracked.callers⟩
  | fail => exact backtrack_tracked frame.threads _ tracked.callers
  | record slot => exact ⟨⟨rfl, frame.cursor, frame.threads⟩, tracked.callers⟩
  | fork inst =>
      refine ⟨⟨rfl, frame.cursor, ?_⟩, tracked.callers⟩
      exact List.forall_mem_cons.mpr ⟨⟨rfl, frame.cursor⟩, frame.threads⟩
  | look inst behind =>
      have waits : CallerTracked length
          { frame := traced.frame, negated := inst.x ≠ 0, continuation := inst.y
            saved := traced.slots, behind := behind } := ⟨frame.cursor, frame.threads, within⟩
      rw [Traced.perform, tracedLook]
      split
      · have resumed := waits.conclude false traced.frame.now traced.slots
        split
        · rename_i answered
          rw [answered] at resumed
          exact ⟨resumed.1, tracked.callers⟩
        · rename_i answered
          rw [answered] at resumed
          exact backtrack_tracked resumed _ tracked.callers
      · exact ⟨⟨rfl, frame.cursor, List.forall_mem_nil _⟩,
          List.forall_mem_cons.mpr ⟨waits, tracked.callers⟩⟩
  | stop op =>
      rw [Traced.perform]
      split
      · exact succeed_tracked _ _ tracked.callers
      · exact backtrack_tracked frame.threads _ tracked.callers
  | outsideSubject => trivial
  | outsideProgram => trivial

end

/-! ### What is left of a match -/

abbrev Ranks (size : Nat) : Type :=
  Multiset (Lex (Fin (size + 1) → WithTop Nat))

section

variable (size length : Nat)

def LoopNote.weight (note : LoopNote) : Ranks size :=
  if note.stuck then 0 else {note.rank size length}

def pendingWeight (threads : List (Thread × LoopNote)) : Ranks size :=
  (threads.map (fun pending => pending.2.weight size length)).sum

def bodiesWeight (frame : TracedFrame LoopNote) (starts : Nat) : Ranks size :=
  ((List.range starts).map (fun start : Nat =>
    (frame.now.arrive (frame.pc + 1) start).weight size length)).sum

/-- What a call that waits has left besides its alternatives: the path behind the body,
and the runs of the body that may follow. -/
def behindWeight (frame : TracedFrame LoopNote) (continuation : Nat) (behind : Option Int) :
    Ranks size :=
  (frame.now.arrive continuation frame.sp).weight size length +
    bodiesWeight size length frame ((behind.map Int.toNat).getD 0)

def TracedCaller.weight (caller : TracedCaller LoopNote) : Ranks size :=
  pendingWeight size length caller.frame.threads +
    behindWeight size length caller.frame caller.continuation caller.behind

def callersWeight (callers : List (TracedCaller LoopNote)) : Ranks size :=
  (callers.map (TracedCaller.weight size length)).sum

def Traced.weight (traced : Traced LoopNote) : Ranks size :=
  traced.frame.now.weight size length +
    (pendingWeight size length traced.frame.threads +
      callersWeight size length traced.callers)

def TracedStep.Leaves (bound : Ranks size) : TracedStep LoopNote → Prop
  | .running next => next.weight size length ≤ bound
  | _ => True

def TracedResumed.Leaves (bound : Ranks size) : TracedResumed LoopNote → Prop
  | .again frame waiting _ =>
      frame.now.weight size length + (pendingWeight size length frame.threads +
        callersWeight size length waiting.toList) ≤ bound
  | .backtracks frame _ => pendingWeight size length frame.threads ≤ bound

end

section

variable {size length : Nat}

theorem callersWeight_cons (caller : TracedCaller LoopNote)
    (callers : List (TracedCaller LoopNote)) :
    callersWeight size length (caller :: callers) =
      caller.weight size length + callersWeight size length callers := by
  rw [callersWeight, List.map_cons, List.sum_cons]
  rfl

theorem callersWeight_append (first second : List (TracedCaller LoopNote)) :
    callersWeight size length (first ++ second) =
      callersWeight size length first + callersWeight size length second := by
  rw [callersWeight, List.map_append, List.sum_append]
  rfl

theorem conclude_leaves (caller : TracedCaller LoopNote) (held : Bool) (body : LoopNote)
    (slots : Slots) :
    (caller.conclude loopTrace held body slots).Leaves size length
      (caller.weight size length) := by
  have goesOn : (caller.frame.now.arrive caller.continuation caller.frame.sp).weight size
      length + (pendingWeight size length caller.frame.threads + callersWeight size length []) ≤
        caller.weight size length := by
    have nobody : callersWeight size length [] = 0 := rfl
    rw [nobody, add_zero, Multiset.add_comm, TracedCaller.weight, behindWeight]
    exact add_le_add le_rfl (Multiset.le_add_right _ _)
  unfold TracedCaller.conclude
  dsimp only
  split
  · cases held with
    | true =>
        have same : caller.frame.threads.map (fun pending => (pending.1,
            loopTrace.cross caller.frame.now body pending.2)) = caller.frame.threads :=
          List.map_id _
        simp only [if_true, same]
        exact goesOn
    | false => exact goesOn
  · exact Multiset.le_add_right _ _

theorem bodiesWeight_restart (frame : TracedFrame LoopNote) {start : Int} (more : 0 < start) :
    bodiesWeight size length frame start.toNat =
      (frame.now.arrive (frame.pc + 1) (start - 1)).weight size length +
        bodiesWeight size length frame (start - 1).toNat := by
  obtain ⟨before, rfl⟩ : ∃ before : Nat, start = before + 1 := ⟨(start - 1).toNat, by omega⟩
  have whole : ((before : Int) + 1).toNat = before + 1 := by omega
  have less : ((before : Int) + 1 - 1) = before := by omega
  rw [whole, less, Int.toNat_natCast, bodiesWeight, List.range_succ, List.map_append,
    List.sum_append, List.map_singleton, List.sum_singleton, Multiset.add_comm]
  rfl

theorem resume_leaves (caller : TracedCaller LoopNote) (matched : Bool) (endSp : Int)
    (body : LoopNote) (slots : Slots) :
    (caller.resume loopTrace matched endSp body slots).Leaves size length
      (caller.weight size length) := by
  apply TracedCaller.resume_cases caller matched endSp body slots
  · intro held after _
    exact conclude_leaves caller held body after
  · intro start behind more
    have restart := @bodiesWeight_restart size length caller.frame start more
    have whole : caller.weight size length =
        pendingWeight size length caller.frame.threads +
          ((caller.frame.now.arrive caller.continuation caller.frame.sp).weight size length +
            bodiesWeight size length caller.frame start.toNat) := by
      rw [TracedCaller.weight, behindWeight, behind]
      rfl
    rw [whole, restart]
    apply le_of_eq
    simp only [tracedActivation, Option.toList_some, callersWeight, List.map_singleton,
      List.sum_singleton, TracedCaller.weight, behindWeight, Option.map_some, Option.getD_some,
      pendingWeight, List.map_nil, List.sum_nil, loopTrace]
    abel

theorem goesOn_leaves {next : TracedFrame LoopNote} {waiting : Option (TracedCaller LoopNote)}
    {slots : Slots} {caller : TracedCaller LoopNote}
    (resumed : (TracedResumed.again next waiting slots).Leaves size length
      (caller.weight size length)) (callers : List (TracedCaller LoopNote)) :
    ({ frame := next, callers := waiting.toList ++ callers, slots := slots } :
        Traced LoopNote).weight size length ≤ callersWeight size length (caller :: callers) := by
  rw [Traced.weight, callersWeight_append, callersWeight_cons, ← add_assoc, ← add_assoc]
  rw [TracedResumed.Leaves, ← add_assoc] at resumed
  exact add_le_add resumed le_rfl

theorem backtrack_leaves (frame : TracedFrame LoopNote) (slots : Slots)
    (callers : List (TracedCaller LoopNote)) :
    (tracedBacktrack loopTrace frame slots callers).Leaves size length
      (pendingWeight size length frame.threads + callersWeight size length callers) := by
  refine @tracedBacktrack_cases _ loopTrace
    (fun frame _ callers step => step.Leaves size length
      (pendingWeight size length frame.threads + callersWeight size length callers))
    ?_ ?_ ?_ ?_ frame slots callers
  · exact fun _ => trivial
  · intro frame slots callers thread note threads pending
    rw [pending, pendingWeight, List.map_cons, List.sum_cons, add_assoc]
    exact le_rfl
  · intro frame next slots after caller one callers none_ answered
    have resumed := @resume_leaves size length caller false frame.sp frame.now slots
    rw [answered] at resumed
    exact (goesOn_leaves resumed callers).trans (Multiset.le_add_left _ _)
  · intro frame next slots after caller callers none_ answered ih
    have resumed := @resume_leaves size length caller false frame.sp frame.now slots
    rw [answered] at resumed
    have below : pendingWeight size length next.threads + callersWeight size length callers ≤
        pendingWeight size length frame.threads +
          callersWeight size length (caller :: callers) := by
      rw [callersWeight_cons]
      exact (add_le_add resumed le_rfl).trans (Multiset.le_add_left _ _)
    cases stepped : tracedBacktrack loopTrace next after callers with
    | running state =>
        rw [stepped] at ih
        exact ih.trans below
    | _ => trivial

theorem succeed_leaves (frame : TracedFrame LoopNote) (slots : Slots)
    (callers : List (TracedCaller LoopNote)) :
    (tracedSucceed loopTrace frame slots callers).Leaves size length
      (callersWeight size length callers) := by
  refine @tracedSucceed_cases _ loopTrace
    (fun callers step => step.Leaves size length (callersWeight size length callers))
    frame slots ?_ ?_ ?_ callers
  · trivial
  · intro next after caller one callers answered
    have resumed := @resume_leaves size length caller true frame.sp frame.now slots
    rw [answered] at resumed
    exact goesOn_leaves resumed callers
  · intro next after caller callers answered
    have resumed := @resume_leaves size length caller true frame.sp frame.now slots
    rw [answered] at resumed
    have rest := @backtrack_leaves size length next after callers
    cases stepped : tracedBacktrack loopTrace next after callers with
    | running state =>
        rw [stepped] at rest
        rw [callersWeight_cons]
        exact rest.trans (add_le_add resumed le_rfl)
    | _ => trivial

/-! ### Each step leaves less -/

theorem dershowitzManna_of_le {α : Type} [Preorder α] {next rest fresh : Multiset α} {top : α}
    (bounded : next ≤ rest + fresh) (below : ∀ item ∈ fresh, item < top) :
    next.IsDershowitzMannaLT ({top} + rest) := by
  classical
  refine ⟨next ∩ rest, next - rest, {top} + (rest - next), by simp, ?_, ?_, ?_⟩
  · rw [Multiset.add_comm, Multiset.sub_add_inter]
  · have kept : rest - next + next ∩ rest = rest := by
      rw [Multiset.inter_comm, Multiset.sub_add_inter]
    rw [Multiset.add_comm (next ∩ rest), Multiset.add_assoc, kept]
  · intro item member
    have new : item ∈ fresh :=
      Multiset.mem_of_le (tsub_le_iff_left.mpr bounded) member
    exact ⟨top, Multiset.mem_add.mpr (.inl (Multiset.mem_singleton_self top)), below item new⟩

theorem mem_weight_arrive {note : LoopNote} {pc : Nat} {sp : Int} (inside : note.here < size)
    (within : sp ≤ length) {rank : Lex (Fin (size + 1) → WithTop Nat)}
    (member : rank ∈ (note.arrive pc sp).weight size length) : rank < note.rank size length := by
  unfold LoopNote.weight at member
  split at member
  · cases member
  · rename_i moves
    rw [Multiset.mem_singleton.mp member]
    exact note.rank_arrive inside within (Bool.not_eq_true _ ▸ moves)

theorem mem_sum_map {α β : Type} {items : List α} {parts : α → Multiset β} {member : β}
    (present : member ∈ (items.map parts).sum) : ∃ item ∈ items, member ∈ parts item := by
  induction items with
  | nil => cases present
  | cons item items ih =>
      rw [List.map_cons, List.sum_cons] at present
      rcases Multiset.mem_add.mp present with here | later
      · exact ⟨item, List.mem_cons_self, here⟩
      · obtain ⟨other, listed, found⟩ := ih later
        exact ⟨other, List.mem_cons_of_mem _ listed, found⟩

theorem mem_behindWeight {frame : TracedFrame LoopNote} {continuation : Nat}
    {behind : Option Int} (inside : frame.now.here < size) (cursor : frame.sp ≤ length)
    (within : ∀ start ∈ behind, start ≤ length)
    {rank : Lex (Fin (size + 1) → WithTop Nat)}
    (member : rank ∈ behindWeight size length frame continuation behind) :
    rank < frame.now.rank size length := by
  rcases Multiset.mem_add.mp member with goesOn | body
  · exact mem_weight_arrive inside cursor goesOn
  · obtain ⟨start, listed, found⟩ := mem_sum_map body
    have before := List.mem_range.mp listed
    have inSubject : (start : Int) ≤ length := by
      cases behind with
      | none => exact absurd before (Nat.not_lt_zero _)
      | some first =>
          have last := within first rfl
          have below : start < first.toNat := before
          omega
    exact mem_weight_arrive inside inSubject found

theorem look_leaves (traced : Traced LoopNote) (inst : ReInst) (behind : Option Int) :
    (tracedLook loopTrace traced inst behind).Leaves size length
      ((pendingWeight size length traced.frame.threads +
        callersWeight size length traced.callers) +
          ((traced.frame.now.arrive (traced.frame.pc + 1) traced.frame.sp).weight size length +
            behindWeight size length traced.frame inst.y behind)) := by
  unfold tracedLook
  dsimp only
  split
  · have resumed := @conclude_leaves size length
      { frame := traced.frame, negated := inst.x ≠ 0, continuation := inst.y
        saved := traced.slots, behind := behind } false traced.frame.now traced.slots
    have enough : pendingWeight size length traced.frame.threads +
        behindWeight size length traced.frame inst.y behind +
          callersWeight size length traced.callers ≤
        (pendingWeight size length traced.frame.threads +
          callersWeight size length traced.callers) +
            ((traced.frame.now.arrive (traced.frame.pc + 1) traced.frame.sp).weight size length +
              behindWeight size length traced.frame inst.y behind) := by
      rw [add_right_comm]
      exact add_le_add le_rfl (Multiset.le_add_left _ _)
    split
    · rename_i next waiting slots answered
      rw [answered] at resumed
      rw [TracedStep.Leaves, Traced.weight, ← add_assoc]
      refine (add_le_add ?_ le_rfl).trans enough
      refine le_trans ?_ resumed
      exact add_le_add le_rfl (Multiset.le_add_right _ _)
    · rename_i next slots answered
      rw [answered] at resumed
      have rest := @backtrack_leaves size length next slots traced.callers
      cases stepped : tracedBacktrack loopTrace next slots traced.callers with
      | running state =>
          rw [stepped] at rest
          exact (rest.trans (add_le_add resumed le_rfl)).trans enough
      | _ => trivial
  · apply le_of_eq
    simp only [tracedActivation, Traced.weight, callersWeight_cons, TracedCaller.weight,
      pendingWeight, List.map_nil, List.sum_nil, loopTrace]
    abel

theorem perform_descends {traced : Traced LoopNote} (tracked : Tracked length traced)
    (inside : traced.frame.pc < size) (moves : traced.frame.now.stuck = false) {move : Move}
    (within : move.Within length) {next : Traced LoopNote}
    (stepped : traced.perform loopTrace move = .running next) :
    (next.weight size length).IsDershowitzMannaLT (traced.weight size length) := by
  have here : traced.frame.now.here < size := tracked.frame.place ▸ inside
  have cursor := tracked.frame.cursor
  have whole : traced.weight size length = {traced.frame.now.rank size length} +
      (pendingWeight size length traced.frame.threads +
        callersWeight size length traced.callers) := by
    rw [Traced.weight, LoopNote.weight, if_neg (by simp [moves])]
  rw [whole]
  have back (bounded : TracedStep.Leaves size length (pendingWeight size length
      traced.frame.threads + callersWeight size length traced.callers) (.running next)) :
      (next.weight size length).IsDershowitzMannaLT ({traced.frame.now.rank size length} +
        (pendingWeight size length traced.frame.threads +
          callersWeight size length traced.callers)) :=
    @dershowitzManna_of_le _ _ _ _ 0 _ (by rw [add_zero]; exact bounded) nofun
  cases move with
  | goOn pc sp =>
      cases stepped
      apply dershowitzManna_of_le (le_of_eq (Multiset.add_comm _ _))
      intro rank member
      exact mem_weight_arrive here within member
  | fail =>
      have bounded := @backtrack_leaves size length traced.frame traced.slots traced.callers
      rw [Traced.perform] at stepped
      rw [stepped] at bounded
      exact back bounded
  | record slot =>
      cases stepped
      apply dershowitzManna_of_le (le_of_eq (Multiset.add_comm _ _))
      intro rank member
      exact mem_weight_arrive here cursor member
  | fork inst =>
      cases stepped
      have fresh : (tracedSplit loopTrace traced inst).weight size length =
          (pendingWeight size length traced.frame.threads +
            callersWeight size length traced.callers) +
          ((traced.frame.now.arrive inst.x traced.frame.sp).weight size length +
            (traced.frame.now.arrive inst.y traced.frame.sp).weight size length) := by
        simp only [tracedSplit, Traced.weight, pendingWeight, List.map_cons, List.sum_cons,
          loopTrace]
        abel
      apply dershowitzManna_of_le (le_of_eq fresh)
      intro rank member
      rcases Multiset.mem_add.mp member with first | second
      · exact mem_weight_arrive here cursor first
      · exact mem_weight_arrive here cursor second
  | look inst behind =>
      have bounded := @look_leaves size length traced inst behind
      rw [Traced.perform] at stepped
      rw [stepped] at bounded
      apply dershowitzManna_of_le bounded
      intro rank member
      rcases Multiset.mem_add.mp member with body | later
      · exact mem_weight_arrive here cursor body
      · exact mem_behindWeight here cursor within later
  | stop op =>
      rw [Traced.perform] at stepped
      split at stepped
      · have bounded := @succeed_leaves size length traced.frame traced.slots traced.callers
        rw [stepped] at bounded
        exact back (bounded.trans (Multiset.le_add_left _ _))
      · have bounded := @backtrack_leaves size length traced.frame traced.slots traced.callers
        rw [stepped] at bounded
        exact back bounded
  | outsideSubject => cases stepped
  | outsideProgram => cases stepped

end

end CScript
