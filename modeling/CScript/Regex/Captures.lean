/-
Which captures a match is left with.

The note of a path is what the saves on it wrote.  A save is undone from the trail of
the call that made it, so what the body of a positive assertion left in a slot stays
there when an alternative from before the assertion is taken up again.  As long as
that does not happen, every slot has the last value written on the path.
-/

import CScript.Regex.Traced

namespace CScript

/-! ### Writes of a path -/

structure Write where
  slot : Nat
  sp : Int
  deriving DecidableEq, Repr

def lastWrite (writes : List Write) (slot : Nat) : Int :=
  match writes.find? (fun write => write.slot = slot) with
  | some write => write.sp
  | none => -1

theorem lastWrite_cons (write : Write) (writes : List Write) :
    lastWrite (write :: writes) = Function.update (lastWrite writes) write.slot write.sp := by
  funext slot
  by_cases same : slot = write.slot
  · subst same
    simp [lastWrite, Function.update_self]
  · rw [Function.update_of_ne same]
    have other : ¬write.slot = slot := fun equal => same equal.symm
    simp [lastWrite, other]

theorem lastWrite_absent {writes : List Write} {slot : Nat}
    (absent : ∀ write ∈ writes, write.slot ≠ slot) : lastWrite writes slot = -1 := by
  unfold lastWrite
  have none_ : writes.find? (fun write => write.slot = slot) = none := by
    simpa [List.find?_eq_none] using absent
  rw [none_]

/-- What the saves on a path wrote, and whether the path was taken up again from before
a positive assertion that left a capture changed. -/
structure PathNote where
  writes : List Write
  stained : Bool
  deriving DecidableEq, Repr

def leavesCapture (outer body : List Write) : Bool :=
  (body ++ outer).any (fun write => lastWrite body write.slot ≠ lastWrite outer write.slot)

theorem lastWrite_eq_of_leaves {outer body : List Write}
    (kept : leavesCapture outer body = false) : lastWrite body = lastWrite outer := by
  funext slot
  by_cases written : ∃ write ∈ body ++ outer, write.slot = slot
  · obtain ⟨write, member, rfl⟩ := written
    have same := List.any_eq_false.mp kept write member
    simpa using same
  · push Not at written
    rw [lastWrite_absent (fun write member => written write (List.mem_append_left _ member)),
      lastWrite_absent (fun write member => written write (List.mem_append_right _ member))]

/-- A positive assertion puts the writes of its body on the path, and stains the
alternatives that pend in its call if it leaves a capture changed. -/
def captureTrace : Trace PathNote where
  arrive _ _ note := note
  write slot sp note := { note with writes := { slot := slot, sp := sp } :: note.writes }
  adopt _ body := body
  cross outer body note :=
    if leavesCapture outer.writes body.writes then { note with stained := true } else note

/-! ### Undoing -/

theorem unwind_length {height : Nat} {trail : List TrailEntry} (slots : Slots)
    (below : height ≤ trail.length) : (unwind height trail slots).1.length = height := by
  induction trail generalizing slots with
  | nil =>
      rw [unwind]
      exact (Nat.le_zero.mp below).symm
  | cons entry trail ih =>
      rw [unwind]
      split
      · rename_i above
        exact ih _ (Nat.le_of_lt_succ above)
      · rename_i reached
        exact Nat.le_antisymm (Nat.le_of_not_lt reached) below

theorem unwind_unwind {low high : Nat} (below : low ≤ high) (trail : List TrailEntry)
    (slots : Slots) :
    unwind low (unwind high trail slots).1 (unwind high trail slots).2 =
      unwind low trail slots := by
  induction trail generalizing slots with
  | nil => rfl
  | cons entry trail ih =>
      by_cases above : high < (entry :: trail).length
      · have lower : low < (entry :: trail).length := Nat.lt_of_le_of_lt below above
        have first : unwind high (entry :: trail) slots =
            unwind high trail (Function.update slots entry.slot entry.value) := by
          rw [unwind, if_pos above]
        rw [first, ih]
        conv_rhs => rw [unwind, if_pos lower]
      · have first : unwind high (entry :: trail) slots = (entry :: trail, slots) := by
          rw [unwind, if_neg above]
        rw [first]

theorem unwind_same (trail : List TrailEntry) (slots : Slots) :
    unwind trail.length trail slots = (trail, slots) := by
  cases trail with
  | nil => rfl
  | cons entry trail => rw [unwind, if_neg (Nat.lt_irrefl _)]

theorem unwind_save {height : Nat} {trail : List TrailEntry} (slots : Slots) (slot : Nat)
    (sp : Int) (below : height ≤ trail.length) :
    unwind height ({ slot := slot, value := slots slot } :: trail)
        (Function.update slots slot sp) = unwind height trail slots := by
  have above : height < (({ slot := slot, value := slots slot } : TrailEntry) :: trail).length :=
    Nat.lt_succ_of_le below
  rw [unwind, if_pos above, Function.update_idem, Function.update_eq_self]

/-! ### Slots as the path has them -/

structure FrameFits (frame : TracedFrame PathNote) (slots : Slots) : Prop where
  bounded : ∀ pending ∈ frame.threads, pending.1.trail ≤ frame.trail.length
  stacked : frame.threads.Pairwise (fun newer older => older.1.trail ≤ newer.1.trail)
  recalls : ∀ pending ∈ frame.threads, pending.2.stained = false →
    (unwind pending.1.trail frame.trail slots).2 = lastWrite pending.2.writes

structure CallerFits (caller : TracedCaller PathNote) : Prop where
  saved : caller.saved = lastWrite caller.frame.now.writes
  frame : FrameFits caller.frame caller.saved

structure Fits (traced : Traced PathNote) : Prop where
  slots : traced.frame.now.stained = false → traced.slots = lastWrite traced.frame.now.writes
  frame : FrameFits traced.frame traced.slots
  callers : ∀ caller ∈ traced.callers, CallerFits caller

def StepFits (note : PathNote) : TracedStep PathNote → Prop
  | .running next => Fits next
  | .finished matched _ slots => matched = true → slots = lastWrite note.writes
  | _ => True

def ResumedFits : TracedResumed PathNote → Prop
  | .again frame waiting slots =>
      (frame.now.stained = false → slots = lastWrite frame.now.writes) ∧ FrameFits frame slots ∧
        ∀ caller ∈ waiting, CallerFits caller
  | .backtracks frame slots => FrameFits frame slots

theorem FrameFits.none {frame : TracedFrame PathNote} {slots : Slots}
    (nothing : frame.threads = []) : FrameFits frame slots where
  bounded := by simp [nothing]
  stacked := by simp [nothing]
  recalls := by simp [nothing]

theorem FrameFits.take {frame : TracedFrame PathNote} {slots : Slots}
    (fits : FrameFits frame slots) {thread : Thread} {note : PathNote}
    {threads : List (Thread × PathNote)} (pending : frame.threads = (thread, note) :: threads)
    {callers : List (TracedCaller PathNote)} (waiting : ∀ caller ∈ callers, CallerFits caller) :
    Fits
      { frame := { frame with
          pc := thread.pc, sp := thread.sp, threads := threads
          trail := (unwind thread.trail frame.trail slots).1, now := note }
        callers := callers
        slots := (unwind thread.trail frame.trail slots).2 } where
  slots := by
    intro unstained
    exact fits.recalls (thread, note) (by rw [pending]; exact List.mem_cons_self) unstained
  frame := by
    have stacked := fits.stacked
    rw [pending, List.pairwise_cons] at stacked
    have height := fits.bounded (thread, note) (by rw [pending]; exact List.mem_cons_self)
    refine ⟨?_, stacked.2, ?_⟩
    · intro older member
      rw [unwind_length slots height]
      exact stacked.1 older member
    · intro older member unstained
      rw [unwind_unwind (stacked.1 older member)]
      exact fits.recalls older (by rw [pending]; exact List.mem_cons_of_mem _ member) unstained
  callers := waiting

theorem FrameFits.cross {frame : TracedFrame PathNote} {saved slots : Slots}
    (fits : FrameFits frame saved) (saves : saved = lastWrite frame.now.writes)
    {body : PathNote} (here : slots = lastWrite body.writes) (pc : Nat) (now : PathNote) :
    FrameFits
      { frame with
        pc := pc, now := now
        threads := frame.threads.map (fun pending =>
          (pending.1, captureTrace.cross frame.now body pending.2)) } slots where
  bounded := by
    intro pending member
    obtain ⟨origin, present, rfl⟩ := List.mem_map.mp member
    exact fits.bounded origin present
  stacked := by
    rw [List.pairwise_map]
    exact fits.stacked
  recalls := by
    intro pending member unstained
    obtain ⟨origin, present, rfl⟩ := List.mem_map.mp member
    dsimp only [captureTrace] at unstained ⊢
    by_cases leaves : leavesCapture frame.now.writes body.writes = true
    · rw [if_pos leaves] at unstained
      cases unstained
    · rw [if_neg leaves] at unstained ⊢
      have same := lastWrite_eq_of_leaves (Bool.not_eq_true _ ▸ leaves)
      rw [here, same, ← saves]
      exact fits.recalls origin present unstained

theorem CallerFits.conclude {caller : TracedCaller PathNote} (fits : CallerFits caller)
    {held : Bool} {body : PathNote} {slots : Slots}
    (here : held = true → slots = lastWrite body.writes) :
    ResumedFits (caller.conclude captureTrace held body slots) := by
  have kept : FrameFits { caller.frame with pc := caller.continuation } caller.saved :=
    ⟨fits.frame.bounded, fits.frame.stacked, fits.frame.recalls⟩
  unfold TracedCaller.conclude
  dsimp only
  cases held with
  | true =>
      cases negated : caller.negated with
      | true =>
          simp only [Bool.not_true, Bool.true_eq_false, Bool.and_false, Bool.false_eq_true,
            if_false]
          exact kept
      | false =>
          simp only [Bool.not_false, Bool.and_true, if_true]
          exact ⟨fun _ => here rfl, fits.frame.cross fits.saved (here rfl) _ _, by simp⟩
  | false =>
      cases negated : caller.negated with
      | true =>
          simp only [Bool.not_true, Bool.false_and, Bool.false_eq_true, if_false, if_true]
          exact ⟨fun _ => fits.saved, ⟨kept.bounded, kept.stacked, kept.recalls⟩, by simp⟩
      | false =>
          simp only [Bool.not_false, Bool.false_and, Bool.false_eq_true, if_false]
          exact kept

theorem CallerFits.resume {caller : TracedCaller PathNote} (fits : CallerFits caller)
    {matched : Bool} (endSp : Int) {body : PathNote} {slots : Slots}
    (here : matched = true → slots = lastWrite body.writes) :
    ResumedFits (caller.resume captureTrace matched endSp body slots) := by
  apply TracedCaller.resume_cases caller matched endSp body slots
  · intro held after answers
    apply fits.conclude
    intro yes
    obtain ⟨matches_, rfl⟩ := answers yes
    exact here matches_
  · intro start behind more
    refine ⟨fun _ => fits.saved, .none rfl, ?_⟩
    intro one member
    cases member
    exact ⟨fits.saved, fits.frame⟩

theorem goesOn_fits {next : TracedFrame PathNote} {waiting : Option (TracedCaller PathNote)}
    {slots : Slots} (resumed : ResumedFits (.again next waiting slots))
    {callers : List (TracedCaller PathNote)} (others : ∀ caller ∈ callers, CallerFits caller) :
    Fits { frame := next, callers := waiting.toList ++ callers, slots := slots } := by
  refine ⟨resumed.1, resumed.2.1, ?_⟩
  intro caller member
  rcases List.mem_append.mp member with new | old
  · exact resumed.2.2 caller (by simpa using new)
  · exact others caller old

theorem backtrack_fits {frame : TracedFrame PathNote} {slots : Slots}
    (fits : FrameFits frame slots) {callers : List (TracedCaller PathNote)}
    (waiting : ∀ caller ∈ callers, CallerFits caller) (note : PathNote) :
    StepFits note (tracedBacktrack captureTrace frame slots callers) := by
  refine @tracedBacktrack_cases _ captureTrace
    (fun frame slots callers step => FrameFits frame slots →
      (∀ caller ∈ callers, CallerFits caller) → StepFits note step)
    ?_ ?_ ?_ ?_ frame slots callers fits waiting
  · exact fun _ _ _ => nofun
  · intro frame slots callers thread now threads pending fits waiting
    exact fits.take pending waiting
  · intro frame next slots after caller one callers _ answered _ waiting
    have here := List.forall_mem_cons.mp waiting
    have resumed := @CallerFits.resume _ here.1 false frame.sp frame.now slots nofun
    rw [answered] at resumed
    exact goesOn_fits resumed here.2
  · intro frame next slots after caller callers _ answered ih _ waiting
    have here := List.forall_mem_cons.mp waiting
    have resumed := @CallerFits.resume _ here.1 false frame.sp frame.now slots nofun
    rw [answered] at resumed
    exact ih resumed here.2

theorem succeed_fits {frame : TracedFrame PathNote} {slots : Slots}
    (here : slots = lastWrite frame.now.writes) {callers : List (TracedCaller PathNote)}
    (waiting : ∀ caller ∈ callers, CallerFits caller) :
    StepFits frame.now (tracedSucceed captureTrace frame slots callers) := by
  refine @tracedSucceed_cases _ captureTrace
    (fun callers step => (∀ caller ∈ callers, CallerFits caller) → StepFits frame.now step)
    frame slots ?_ ?_ ?_ callers waiting
  · exact fun _ _ => here
  · intro next after caller one callers answered waiting
    have parts := List.forall_mem_cons.mp waiting
    have resumed := parts.1.resume frame.sp (fun _ : true = true => here)
    rw [answered] at resumed
    exact goesOn_fits resumed parts.2
  · intro next after caller callers answered waiting
    have parts := List.forall_mem_cons.mp waiting
    have resumed := parts.1.resume frame.sp (fun _ : true = true => here)
    rw [answered] at resumed
    exact backtrack_fits resumed parts.2 frame.now

theorem look_fits {traced : Traced PathNote} (fits : Fits traced)
    (here : traced.slots = lastWrite traced.frame.now.writes) (inst : ReInst)
    (behind : Option Int) :
    StepFits traced.frame.now (tracedLook captureTrace traced inst behind) := by
  have waits : CallerFits
      { frame := traced.frame, negated := inst.x ≠ 0, continuation := inst.y
        saved := traced.slots, behind := behind } := ⟨here, fits.frame⟩
  unfold tracedLook
  dsimp only
  split
  · have resumed := @CallerFits.conclude _ waits false traced.frame.now traced.slots nofun
    split
    · rename_i answered
      rw [answered] at resumed
      exact ⟨resumed.1, resumed.2.1, fits.callers⟩
    · rename_i answered
      rw [answered] at resumed
      exact backtrack_fits resumed fits.callers _
  · refine ⟨fun _ => here, .none rfl, ?_⟩
    intro caller member
    rcases List.mem_cons.mp member with rfl | older
    · exact waits
    · exact fits.callers caller older

theorem perform_fits {traced : Traced PathNote} (fits : Fits traced)
    (unstained : traced.frame.now.stained = false) (move : Move) :
    StepFits traced.frame.now (traced.perform captureTrace move) := by
  have here := fits.slots unstained
  cases move with
  | goOn pc sp =>
      exact ⟨fits.slots, ⟨fits.frame.bounded, fits.frame.stacked, fits.frame.recalls⟩,
        fits.callers⟩
  | fail => exact backtrack_fits fits.frame fits.callers _
  | record slot =>
      refine ⟨?_, ⟨?_, fits.frame.stacked, ?_⟩, fits.callers⟩
      · intro _
        dsimp only [tracedSave, captureTrace]
        rw [lastWrite_cons, here]
      · intro pending member
        exact Nat.le_succ_of_le (fits.frame.bounded pending member)
      · intro pending member clean
        dsimp only [tracedSave]
        rw [unwind_save _ _ _ (fits.frame.bounded pending member)]
        exact fits.frame.recalls pending member clean
  | fork inst =>
      refine ⟨fits.slots, ⟨?_, ?_, ?_⟩, fits.callers⟩
      · intro pending member
        rcases List.mem_cons.mp member with rfl | older
        · exact Nat.le_refl _
        · exact fits.frame.bounded pending older
      · exact List.pairwise_cons.mpr ⟨fits.frame.bounded, fits.frame.stacked⟩
      · intro pending member clean
        rcases List.mem_cons.mp member with rfl | older
        · dsimp only [tracedSplit, captureTrace]
          rw [unwind_same]
          exact here
        · exact fits.frame.recalls pending older clean
  | look inst behind => exact look_fits fits here inst behind
  | stop op =>
      rw [Traced.perform]
      split
      · exact succeed_fits here fits.callers
      · exact backtrack_fits fits.frame fits.callers _
  | outsideSubject => trivial
  | outsideProgram => trivial

/-! ### The captures of a match -/

def emptyNote : PathNote :=
  { writes := [], stained := false }

section

variable (regex : Regex) (subject : List UInt8) (at_ : Nat)

/-- The match with its notes after so many turns of the loop. -/
def notedAfter (steps : Nat) : Option (Traced PathNote) :=
  tracedAfter captureTrace regex subject steps (tracedStart emptyNote at_)

def pathWrites (steps : Nat) : List Write :=
  ((notedAfter regex subject at_ steps).map (fun state => state.frame.now.writes)).getD []

/-- Up to now no alternative was taken up again from before a positive assertion that
held and left a capture changed. -/
def Unstained (steps : Nat) : Prop :=
  ∀ earlier ≤ steps, ∀ state, notedAfter regex subject at_ earlier = some state →
    state.frame.now.stained = false

variable {regex subject at_}

theorem notedAfter_fits {steps : Nat} {reached : Traced PathNote}
    (unstained : Unstained regex subject at_ steps)
    (ran : notedAfter regex subject at_ steps = some reached) : Fits reached := by
  apply @tracedAfter_induction PathNote captureTrace regex subject (tracedStart emptyNote at_)
    (fun now => now.stained = false) Fits _ _ steps reached unstained ran
  · exact ⟨fun _ => rfl, .none rfl, List.forall_mem_nil _⟩
  · intro before after fits clean stepped
    have kept := perform_fits fits clean (before.erase.move regex subject)
    rw [tracedMatch] at stepped
    rw [stepped] at kept
    exact kept

theorem notedAfter_of_matchAfter {steps : Nat} {config : Config}
    (ran : matchAfter regex subject steps (matchStart at_) = some config) :
    ∃ state, notedAfter regex subject at_ steps = some state ∧ state.erase = config := by
  have erased : (notedAfter regex subject at_ steps).map Traced.erase =
      matchAfter regex subject steps (matchStart at_) := erase_tracedAfter steps _
  rw [ran] at erased
  obtain ⟨state, reached, same⟩ := Option.map_eq_some_iff.mp erased
  exact ⟨state, reached, same⟩

end

/-- In a run without such an alternative every slot has the last value written on the
path, at each turn and in the match. -/
theorem matchFrom_captures (regex : Regex) (subject : List UInt8) (at_ steps : Nat)
    (config : Config) (ran : matchAfter regex subject steps (matchStart at_) = some config)
    (unstained : Unstained regex subject at_ steps) :
    config.slots = lastWrite (pathWrites regex subject at_ steps) ∧
      ∀ endSp slots, stepMatch regex subject config = .finished true endSp slots →
        slots = lastWrite (pathWrites regex subject at_ steps) := by
  obtain ⟨state, reached, rfl⟩ := notedAfter_of_matchAfter ran
  have fits := notedAfter_fits unstained reached
  have clean := unstained steps (Nat.le_refl _) state reached
  have writes : pathWrites regex subject at_ steps = state.frame.now.writes := by
    rw [pathWrites, reached]
    rfl
  rw [writes]
  refine ⟨fits.slots clean, ?_⟩
  intro endSp slots matched
  have kept := perform_fits fits clean (state.erase.move regex subject)
  have stepped : (tracedMatch captureTrace regex subject state).erase =
      .finished true endSp slots := (erase_tracedMatch state).trans matched
  rw [tracedMatch] at stepped
  cases answered : state.perform captureTrace (state.erase.move regex subject) with
  | finished found place last =>
      rw [answered] at stepped kept
      cases stepped
      exact kept rfl
  | running next =>
      rw [answered] at stepped
      cases stepped
  | outsideSubject =>
      rw [answered] at stepped
      cases stepped
  | outsideProgram =>
      rw [answered] at stepped
      cases stepped

/-- The first alternative fails before any assertion, the second captures in one. -/
theorem matchFrom_captures_alternative :
    ∃ regex config, csRegexCompile (ascii "ab|(?=(a))ac") noFlags = .ok regex ∧
      matchAfter regex (ascii "ac") 12 (matchStart 0) = some config ∧
      config.slots = lastWrite (pathWrites regex (ascii "ac") 0 12) := by
  obtain ⟨regex, config, accepted, ran, tests⟩ := reached_of_reaches "ab|(?=(a))ac" "ac" 0 12
    (fun regex _ => (List.range 13).all (fun earlier =>
      (notedAfter regex (ascii "ac") 0 earlier).all (fun state => !state.frame.now.stained)))
    (by decide)
  have unstained : Unstained regex (ascii "ac") 0 12 := by
    intro earlier below state reached
    have tested := List.all_eq_true.mp tests earlier (List.mem_range.mpr (by omega))
    rw [reached] at tested
    simpa using tested
  exact ⟨regex, config, accepted, ran,
    (matchFrom_captures regex (ascii "ac") 0 12 config ran unstained).1⟩

/-- The group in the assertion of the first alternative keeps its place in a match of
the second. -/
theorem lookahead_capture_left :
    ¬∀ (pattern : List UInt8) (flags : ReFlags) (regex : Regex) (subject : List UInt8)
      (at_ steps : Nat) (config : Config) (endSp : Int) (slots : Slots),
      csRegexCompile pattern flags = .ok regex → at_ ≤ subject.length →
      matchAfter regex subject steps (matchStart at_) = some config →
      stepMatch regex subject config = .finished true endSp slots →
      ∀ slot, slots slot = lastWrite (pathWrites regex subject at_ steps) slot := by
  intro claim
  obtain ⟨regex, config, accepted, ran, tests⟩ := reached_of_reaches "(?=(a))b|a" "a" 0 10
    (fun regex config =>
      match stepMatch regex (ascii "a") config with
      | .finished true _ slots =>
          slots 2 = 0 && lastWrite (pathWrites regex (ascii "a") 0 10) 2 = -1
      | _ => false) (by decide)
  split at tests
  · rename_i endSp slots matched
    have same := claim _ _ regex (ascii "a") 0 10 config endSp slots accepted (by decide) ran
      matched 2
    simp only [Bool.and_eq_true, decide_eq_true_eq] at tests
    rw [tests.1, tests.2] at same
    exact absurd same (by decide)
  · cases tests

end CScript
