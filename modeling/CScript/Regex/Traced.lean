/-
The matcher with a note on every path.

A path is what the matcher has done since the start of the match and has not gone back
on: an alternative keeps the note of the path it was pushed on, a lookaround that
held hands the note of its body on.  Without the notes the machine is the matcher.
-/

import CScript.Regex.Cursor
import CScript.Regex.Moves

namespace CScript

/-! ### Notes -/

/-- How notes are taken: where a path comes to a place, where it writes a slot, what a
call takes over from the body of a positive assertion, and what becomes of the notes
of the alternatives that pend in that call. -/
structure Trace (G : Type) where
  arrive : Nat → Int → G → G
  write : Nat → Int → G → G
  adopt : G → G → G
  cross : G → G → G → G

structure TracedFrame (G : Type) where
  pc : Nat
  sp : Int
  threads : List (Thread × G)
  trail : List TrailEntry
  stopOp : ReOp
  now : G

structure TracedCaller (G : Type) where
  frame : TracedFrame G
  negated : Bool
  continuation : Nat
  saved : Slots
  behind : Option Int

structure Traced (G : Type) where
  frame : TracedFrame G
  callers : List (TracedCaller G)
  slots : Slots

inductive TracedStep (G : Type) where
  | running (next : Traced G)
  | finished (matched : Bool) (endSp : Int) (slots : Slots)
  | outsideSubject
  | outsideProgram

inductive TracedResumed (G : Type) where
  | again (frame : TracedFrame G) (waiting : Option (TracedCaller G)) (slots : Slots)
  | backtracks (frame : TracedFrame G) (slots : Slots)

section

variable {G : Type}

def TracedFrame.erase (frame : TracedFrame G) : Activation :=
  { pc := frame.pc, sp := frame.sp, threads := frame.threads.map Prod.fst
    trail := frame.trail, stopOp := frame.stopOp }

def TracedCaller.erase (caller : TracedCaller G) : Caller :=
  { frame := caller.frame.erase, negated := caller.negated
    continuation := caller.continuation, saved := caller.saved, behind := caller.behind }

def Traced.erase (traced : Traced G) : Config :=
  { frame := traced.frame.erase, callers := traced.callers.map TracedCaller.erase
    slots := traced.slots }

def TracedStep.erase : TracedStep G → MatchStep
  | .running next => .running next.erase
  | .finished matched endSp slots => .finished matched endSp slots
  | .outsideSubject => .outsideSubject
  | .outsideProgram => .outsideProgram

def TracedResumed.erase : TracedResumed G → Resumed
  | .again frame waiting slots => .again frame.erase (waiting.map TracedCaller.erase) slots
  | .backtracks frame slots => .backtracks frame.erase slots

/-! ### The machine -/

def tracedActivation (pc : Nat) (sp : Int) (stopOp : ReOp) (now : G) : TracedFrame G :=
  { pc := pc, sp := sp, threads := [], trail := [], stopOp := stopOp, now := now }

variable (trace : Trace G)

/-- The call goes on behind the body it waited for. -/
def TracedCaller.conclude (caller : TracedCaller G) (held : Bool) (body : G) (slots : Slots) :
    TracedResumed G :=
  let wanted := !caller.negated
  let slots := if held && wanted then slots else caller.saved
  let frame := { caller.frame with pc := caller.continuation }
  if held = wanted then
    let now := if held then trace.adopt frame.now body else frame.now
    let threads := if held then
      frame.threads.map (fun pending => (pending.1, trace.cross frame.now body pending.2))
      else frame.threads
    .again
      { frame with
        threads := threads, now := trace.arrive caller.continuation frame.sp now }
      none slots
  else .backtracks frame slots

def TracedCaller.resume (caller : TracedCaller G) (matched : Bool) (endSp : Int) (body : G)
    (slots : Slots) : TracedResumed G :=
  match caller.behind with
  | none => caller.conclude trace matched body slots
  | some start =>
      if matched && decide (endSp = caller.frame.sp) then caller.conclude trace true body slots
      else if 0 < start then
        .again (tracedActivation (caller.frame.pc + 1) (start - 1) .lookEnd
            (trace.arrive (caller.frame.pc + 1) (start - 1) caller.frame.now))
          (some { caller with behind := some (start - 1) }) caller.saved
      else caller.conclude trace false body caller.saved

def tracedBacktrack (frame : TracedFrame G) (slots : Slots) :
    List (TracedCaller G) → TracedStep G
  | [] =>
      match frame.threads with
      | [] => .finished false frame.sp slots
      | (thread, note) :: threads =>
          let (trail, slots) := unwind thread.trail frame.trail slots
          .running
            { frame := { frame with pc := thread.pc, sp := thread.sp, threads := threads
                                    trail := trail, now := note }
              callers := []
              slots := slots }
  | caller :: callers =>
      match frame.threads with
      | [] =>
          match caller.resume trace false frame.sp frame.now slots with
          | .again frame waiting slots =>
              .running { frame := frame, callers := waiting.toList ++ callers, slots := slots }
          | .backtracks frame slots => tracedBacktrack frame slots callers
      | (thread, note) :: threads =>
          let (trail, slots) := unwind thread.trail frame.trail slots
          .running
            { frame := { frame with pc := thread.pc, sp := thread.sp, threads := threads
                                    trail := trail, now := note }
              callers := caller :: callers
              slots := slots }

def tracedSucceed (frame : TracedFrame G) (slots : Slots) :
    List (TracedCaller G) → TracedStep G
  | [] => .finished true frame.sp slots
  | caller :: callers =>
      match caller.resume trace true frame.sp frame.now slots with
      | .again frame waiting slots =>
          .running { frame := frame, callers := waiting.toList ++ callers, slots := slots }
      | .backtracks frame slots => tracedBacktrack trace frame slots callers

def tracedSave (traced : Traced G) (slot : Nat) : Traced G :=
  let frame := traced.frame
  { traced with
    frame := { frame with
      pc := frame.pc + 1
      trail := { slot := slot, value := traced.slots slot } :: frame.trail
      now := trace.arrive (frame.pc + 1) frame.sp (trace.write slot frame.sp frame.now) }
    slots := Function.update traced.slots slot frame.sp }

def tracedSplit (traced : Traced G) (inst : ReInst) : Traced G :=
  let frame := traced.frame
  let thread : Thread := { pc := inst.y, sp := frame.sp, trail := frame.trail.length }
  { traced with
    frame := { frame with
      pc := inst.x
      threads := (thread, trace.arrive inst.y frame.sp frame.now) :: frame.threads
      now := trace.arrive inst.x frame.sp frame.now } }

def tracedLook (traced : Traced G) (inst : ReInst) (behind : Option Int) : TracedStep G :=
  let caller : TracedCaller G :=
    { frame := traced.frame, negated := inst.x ≠ 0, continuation := inst.y
      saved := traced.slots, behind := behind }
  if behind.any (fun start => start < 0) then
    match caller.conclude trace false traced.frame.now traced.slots with
    | .again frame _ slots => .running { frame := frame, callers := traced.callers, slots := slots }
    | .backtracks frame slots => tracedBacktrack trace frame slots traced.callers
  else
    .running
      { frame := tracedActivation (traced.frame.pc + 1) traced.frame.sp .lookEnd
          (trace.arrive (traced.frame.pc + 1) traced.frame.sp traced.frame.now)
        callers := caller :: traced.callers
        slots := traced.slots }

def Traced.perform (traced : Traced G) : Move → TracedStep G
  | .goOn pc sp =>
      .running
        { traced with
          frame := { traced.frame with
            pc := pc, sp := sp, now := trace.arrive pc sp traced.frame.now } }
  | .fail => tracedBacktrack trace traced.frame traced.slots traced.callers
  | .record slot => .running (tracedSave trace traced slot)
  | .fork inst => .running (tracedSplit trace traced inst)
  | .look inst behind => tracedLook trace traced inst behind
  | .stop op =>
      if op = traced.frame.stopOp then
        tracedSucceed trace traced.frame traced.slots traced.callers
      else tracedBacktrack trace traced.frame traced.slots traced.callers
  | .outsideSubject => .outsideSubject
  | .outsideProgram => .outsideProgram

variable {trace}

/-! ### Case analysis -/

/-- A waiting call concludes, and that it held only with the slots of a match, or it
starts its body one place earlier. -/
theorem TracedCaller.resume_cases {holds : TracedResumed G → Prop} (caller : TracedCaller G)
    (matched : Bool) (endSp : Int) (body : G) (slots : Slots)
    (concludes : ∀ held after, (held = true → matched = true ∧ after = slots) →
      holds (caller.conclude trace held body after))
    (restarts : ∀ start, caller.behind = some start → 0 < start →
      holds (.again (tracedActivation (caller.frame.pc + 1) (start - 1) .lookEnd
          (trace.arrive (caller.frame.pc + 1) (start - 1) caller.frame.now))
        (some { caller with behind := some (start - 1) }) caller.saved)) :
    holds (caller.resume trace matched endSp body slots) := by
  unfold TracedCaller.resume
  cases behind : caller.behind with
  | none => exact concludes matched slots (fun yes => ⟨yes, rfl⟩)
  | some start =>
      dsimp only
      split
      · rename_i ends
        exact concludes true slots (fun _ => ⟨(Bool.and_eq_true_iff.mp ends).1, rfl⟩)
      · split
        · rename_i more
          exact restarts start behind more
        · exact concludes false caller.saved nofun

theorem tracedBacktrack_cases
    {holds : TracedFrame G → Slots → List (TracedCaller G) → TracedStep G → Prop}
    (finished : ∀ {frame : TracedFrame G} {slots : Slots}, frame.threads = [] →
      holds frame slots [] (.finished false frame.sp slots))
    (takes : ∀ {frame : TracedFrame G} {slots : Slots} {callers : List (TracedCaller G)}
      {thread : Thread} {note : G} {threads : List (Thread × G)},
      frame.threads = (thread, note) :: threads →
        holds frame slots callers (.running
          { frame := { frame with
              pc := thread.pc, sp := thread.sp, threads := threads
              trail := (unwind thread.trail frame.trail slots).1, now := note }
            callers := callers
            slots := (unwind thread.trail frame.trail slots).2 }))
    (again : ∀ {frame next : TracedFrame G} {slots after : Slots} {caller : TracedCaller G}
      {waiting : Option (TracedCaller G)} {callers : List (TracedCaller G)},
      frame.threads = [] →
        caller.resume trace false frame.sp frame.now slots = .again next waiting after →
          holds frame slots (caller :: callers) (.running
            { frame := next, callers := waiting.toList ++ callers, slots := after }))
    (backtracks : ∀ {frame next : TracedFrame G} {slots after : Slots}
      {caller : TracedCaller G} {callers : List (TracedCaller G)}, frame.threads = [] →
        caller.resume trace false frame.sp frame.now slots = .backtracks next after →
          holds next after callers (tracedBacktrack trace next after callers) →
            holds frame slots (caller :: callers) (tracedBacktrack trace next after callers))
    (frame : TracedFrame G) (slots : Slots) (callers : List (TracedCaller G)) :
    holds frame slots callers (tracedBacktrack trace frame slots callers) := by
  induction callers generalizing frame slots with
  | nil =>
      rw [tracedBacktrack]
      cases pending : frame.threads with
      | nil => exact finished pending
      | cons first threads => exact takes pending
  | cons caller callers ih =>
      rw [tracedBacktrack]
      cases pending : frame.threads with
      | nil =>
          dsimp only
          cases answered : caller.resume trace false frame.sp frame.now slots with
          | again next waiting after => exact again pending answered
          | backtracks next after => exact backtracks pending answered (ih next after)
      | cons first threads => exact takes pending

theorem tracedSucceed_cases {holds : List (TracedCaller G) → TracedStep G → Prop}
    {frame : TracedFrame G} {slots : Slots}
    (finished : holds [] (.finished true frame.sp slots))
    (again : ∀ {next : TracedFrame G} {after : Slots} {caller : TracedCaller G}
      {waiting : Option (TracedCaller G)} {callers : List (TracedCaller G)},
      caller.resume trace true frame.sp frame.now slots = .again next waiting after →
        holds (caller :: callers) (.running
          { frame := next, callers := waiting.toList ++ callers, slots := after }))
    (backtracks : ∀ {next : TracedFrame G} {after : Slots} {caller : TracedCaller G}
      {callers : List (TracedCaller G)},
      caller.resume trace true frame.sp frame.now slots = .backtracks next after →
        holds (caller :: callers) (tracedBacktrack trace next after callers))
    (callers : List (TracedCaller G)) :
    holds callers (tracedSucceed trace frame slots callers) := by
  cases callers with
  | nil => exact finished
  | cons caller callers =>
      rw [tracedSucceed]
      cases answered : caller.resume trace true frame.sp frame.now slots with
      | again next waiting after => exact again answered
      | backtracks next after => exact backtracks answered

/-! ### Without the notes -/

theorem erase_conclude (caller : TracedCaller G) (held : Bool) (body : G) (slots : Slots) :
    (caller.conclude trace held body slots).erase = caller.erase.conclude held slots := by
  unfold TracedCaller.conclude Caller.conclude
  dsimp only [TracedCaller.erase]
  by_cases wanted : held = !caller.negated
  · rw [if_pos wanted, if_pos wanted]
    cases held with
    | true =>
        have kept : (caller.frame.threads.map (fun pending =>
            (pending.1, trace.cross caller.frame.now body pending.2))).map Prod.fst =
              caller.frame.threads.map Prod.fst := by
          rw [List.map_map]
          rfl
        simp only [TracedResumed.erase, TracedFrame.erase, if_true, kept, Option.map_none]
    | false => rfl
  · rw [if_neg wanted, if_neg wanted]
    rfl

theorem erase_resume (caller : TracedCaller G) (matched : Bool) (endSp : Int) (body : G)
    (slots : Slots) :
    (caller.resume trace matched endSp body slots).erase =
      caller.erase.resume matched endSp slots := by
  unfold TracedCaller.resume Caller.resume
  have same : caller.erase.behind = caller.behind := rfl
  rw [same]
  cases caller.behind with
  | none => exact erase_conclude caller matched body slots
  | some start =>
      dsimp only
      have cursor : caller.erase.frame.sp = caller.frame.sp := rfl
      rw [cursor]
      split
      · exact erase_conclude caller true body slots
      · split
        · rfl
        · exact erase_conclude caller false body caller.saved

theorem erase_backtrack (frame : TracedFrame G) (slots : Slots)
    (callers : List (TracedCaller G)) :
    (tracedBacktrack trace frame slots callers).erase =
      backtrack frame.erase slots (callers.map TracedCaller.erase) := by
  induction callers generalizing frame slots with
  | nil =>
      rw [tracedBacktrack, List.map_nil, backtrack, TracedFrame.erase]
      cases frame.threads with
      | nil => rfl
      | cons pending threads => rfl
  | cons caller callers ih =>
      rw [tracedBacktrack, List.map_cons, backtrack, TracedFrame.erase]
      cases frame.threads with
      | nil =>
          dsimp only [List.map_nil]
          rw [← @erase_resume _ trace caller false frame.sp frame.now slots]
          cases caller.resume trace false frame.sp frame.now slots with
          | again frame waiting slots =>
              cases waiting with
              | none => rfl
              | some waiting => rfl
          | backtracks frame slots => exact ih frame slots
      | cons pending threads => rfl

theorem erase_succeed (frame : TracedFrame G) (slots : Slots) (callers : List (TracedCaller G)) :
    (tracedSucceed trace frame slots callers).erase =
      succeed frame.erase slots (callers.map TracedCaller.erase) := by
  cases callers with
  | nil => rfl
  | cons caller callers =>
      rw [tracedSucceed, List.map_cons, succeed]
      have cursor : frame.erase.sp = frame.sp := rfl
      rw [cursor, ← @erase_resume _ trace caller true frame.sp frame.now slots]
      cases caller.resume trace true frame.sp frame.now slots with
      | again frame waiting slots =>
          cases waiting with
          | none => rfl
          | some waiting => rfl
      | backtracks frame slots => exact erase_backtrack frame slots callers

theorem erase_goesOn (resumed : TracedResumed G) (callers : List (TracedCaller G)) :
    (match resumed with
      | .again frame _ slots =>
          TracedStep.running { frame := frame, callers := callers, slots := slots }
      | .backtracks frame slots => tracedBacktrack trace frame slots callers).erase =
      match resumed.erase with
      | .again frame _ slots =>
          .running
            { frame := frame, callers := callers.map TracedCaller.erase, slots := slots }
      | .backtracks frame slots => backtrack frame slots (callers.map TracedCaller.erase) := by
  cases resumed with
  | again frame waiting slots => rfl
  | backtracks frame slots => exact erase_backtrack frame slots callers

theorem erase_perform (traced : Traced G) (move : Move) :
    (traced.perform trace move).erase = traced.erase.perform move := by
  cases move with
  | goOn pc sp => rfl
  | fail => exact erase_backtrack _ _ _
  | record slot => rfl
  | fork inst => 
      simp only [Traced.perform, Config.perform, stepSplit, tracedSplit, TracedStep.erase,
        Traced.erase, TracedFrame.erase, List.map_cons]
  | look inst behind =>
      dsimp only [Traced.perform, Config.perform, tracedLook, stepLook]
      by_cases before : behind.any (fun start => decide (start < 0)) = true
      · rw [if_pos before, if_pos before]
        refine (erase_goesOn _ _).trans ?_
        rw [erase_conclude]
        rfl
      · rw [if_neg before, if_neg before]
        rfl
  | stop op =>
      dsimp only [Traced.perform, Config.perform, stepEnd]
      have same : traced.erase.frame.stopOp = traced.frame.stopOp := rfl
      rw [same]
      by_cases stops : op = traced.frame.stopOp
      · rw [if_pos stops, if_pos stops]
        exact erase_succeed _ _ _
      · rw [if_neg stops, if_neg stops]
        exact erase_backtrack _ _ _
  | outsideSubject => rfl
  | outsideProgram => rfl

end

/-! ### Runs with notes -/

section

variable {G : Type} (trace : Trace G) (regex : Regex) (subject : List UInt8)

def tracedMatch (traced : Traced G) : TracedStep G :=
  traced.perform trace (traced.erase.move regex subject)

def tracedStart (note : G) (at_ : Nat) : Traced G :=
  { frame := tracedActivation 0 at_ .match_ note, callers := [], slots := fun _ => -1 }

/-- The state after so many turns of the loop, if the match still runs. -/
def tracedAfter : Nat → Traced G → Option (Traced G)
  | 0, traced => some traced
  | steps + 1, traced =>
      match tracedMatch trace regex subject traced with
      | .running next => tracedAfter steps next
      | _ => none

variable {trace regex subject}

theorem erase_tracedMatch (traced : Traced G) :
    (tracedMatch trace regex subject traced).erase = stepMatch regex subject traced.erase := by
  rw [stepMatch_perform]
  exact erase_perform traced _

theorem erase_tracedAfter (steps : Nat) (traced : Traced G) :
    (tracedAfter trace regex subject steps traced).map Traced.erase =
      matchAfter regex subject steps traced.erase := by
  induction steps generalizing traced with
  | zero => rfl
  | succ steps ih =>
      rw [tracedAfter, matchAfter, ← erase_tracedMatch]
      cases tracedMatch trace regex subject traced with
      | running next => exact ih next
      | finished matched endSp slots => rfl
      | outsideSubject => rfl
      | outsideProgram => rfl

theorem tracedAfter_succ {steps : Nat} {traced reached : Traced G}
    (ran : tracedAfter trace regex subject (steps + 1) traced = some reached) :
    ∃ before, tracedAfter trace regex subject steps traced = some before ∧
      tracedMatch trace regex subject before = .running reached := by
  induction steps generalizing traced with
  | zero =>
      rw [tracedAfter] at ran
      cases stepped : tracedMatch trace regex subject traced with
      | running next =>
          rw [stepped] at ran
          cases ran
          exact ⟨traced, rfl, stepped⟩
      | _ =>
          rw [stepped] at ran
          cases ran
  | succ steps ih =>
      rw [tracedAfter] at ran
      cases stepped : tracedMatch trace regex subject traced with
      | running next =>
          rw [stepped] at ran
          obtain ⟨before, reaches, last⟩ := ih ran
          refine ⟨before, ?_, last⟩
          rw [tracedAfter, stepped]
          exact reaches
      | _ =>
          rw [stepped] at ran
          cases ran

/-- What holds at the start and is kept by every step between good notes holds in every
state that good notes lead to. -/
theorem tracedAfter_induction {start : Traced G} {good : G → Prop} {holds : Traced G → Prop}
    (base : holds start)
    (kept : ∀ {before after : Traced G}, holds before → good before.frame.now →
      tracedMatch trace regex subject before = .running after → holds after)
    {steps : Nat} {reached : Traced G}
    (goods : ∀ earlier ≤ steps, ∀ state,
      tracedAfter trace regex subject earlier start = some state → good state.frame.now)
    (ran : tracedAfter trace regex subject steps start = some reached) : holds reached := by
  induction steps generalizing reached with
  | zero =>
      cases ran
      exact base
  | succ steps ih =>
      obtain ⟨before, reaches, last⟩ := tracedAfter_succ ran
      exact kept (ih (fun earlier le => goods earlier (Nat.le_succ_of_le le)) reaches)
        (goods steps (Nat.le_succ steps) before reaches) last

end

end CScript
