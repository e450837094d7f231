/-
Where the cursor of a match can stand.

Every step but one moves the cursor by a byte or not at all, and never out of
the subject.  A back-reference moves it by the length of its group, whose two
slots are written apart: while a group is open its start is new and its end is
that of an earlier turn.  In every run that meets no such group at a
back-reference, the cursor stays inside.
-/

import CScript.Regex.Match

namespace CScript

/-! ### Bounds -/

def SlotIn (length : Nat) (value : Int) : Prop :=
  -1 ≤ value ∧ value ≤ length

def PlaceIn (length : Nat) (sp : Int) : Prop :=
  0 ≤ sp ∧ sp ≤ length

def SlotsIn (length : Nat) (slots : Slots) : Prop :=
  ∀ slot, SlotIn length (slots slot)

structure Activation.In (length : Nat) (frame : Activation) : Prop where
  cursor : PlaceIn length frame.sp
  threads : ∀ thread ∈ frame.threads, PlaceIn length thread.sp
  trail : ∀ entry ∈ frame.trail, SlotIn length entry.value

structure Caller.In (length : Nat) (caller : Caller) : Prop where
  frame : caller.frame.In length
  saved : SlotsIn length caller.saved
  behind : ∀ start, caller.behind = some start → start ≤ length

structure Config.In (length : Nat) (config : Config) : Prop where
  frame : config.frame.In length
  callers : ∀ caller ∈ config.callers, caller.In length
  slots : SlotsIn length config.slots

def MatchStep.In (length : Nat) : MatchStep → Prop
  | .running config => config.In length
  | .outsideSubject => False
  | _ => True

section

variable {length : Nat}

theorem PlaceIn.slot {sp : Int} (place : PlaceIn length sp) : SlotIn length sp :=
  ⟨by have := place.1; omega, place.2⟩

theorem SlotsIn.update {slots : Slots} (inside : SlotsIn length slots) (slot : Nat) {value : Int}
    (here : SlotIn length value) : SlotsIn length (Function.update slots slot value) := by
  intro other
  by_cases same : other = slot
  · subst same
    rw [Function.update_self]
    exact here
  · rw [Function.update_of_ne same]
    exact inside other

theorem unwind_in (height : Nat) {trail : List TrailEntry} {slots : Slots}
    (entries : ∀ entry ∈ trail, SlotIn length entry.value) (inside : SlotsIn length slots) :
    (∀ entry ∈ (unwind height trail slots).1, SlotIn length entry.value) ∧
      SlotsIn length (unwind height trail slots).2 := by
  induction trail generalizing slots with
  | nil => exact ⟨fun _ wrong => absurd wrong List.not_mem_nil, inside⟩
  | cons entry trail ih =>
      unfold unwind
      split
      · exact ih (fun one member => entries one (List.mem_cons_of_mem _ member))
          (inside.update entry.slot (entries entry List.mem_cons_self))
      · exact ⟨entries, inside⟩

theorem newActivation_in (pc : Nat) {sp : Int} (stopOp : ReOp) (place : PlaceIn length sp) :
    (newActivation pc sp stopOp).In length where
  cursor := place
  threads _ wrong := absurd wrong List.not_mem_nil
  trail _ wrong := absurd wrong List.not_mem_nil

/-! ### Backtracking and returning -/

def Resumed.In (length : Nat) : Resumed → Prop
  | .again frame waiting slots =>
      frame.In length ∧ (∀ caller ∈ waiting, caller.In length) ∧ SlotsIn length slots
  | .backtracks frame slots => frame.In length ∧ SlotsIn length slots

theorem Caller.In.conclude {caller : Caller} (waits : caller.In length) (held : Bool)
    {slots : Slots} (inside : SlotsIn length slots) :
    (caller.conclude held slots).In length := by
  have frame : ({ caller.frame with pc := caller.continuation } : Activation).In length :=
    ⟨waits.frame.cursor, waits.frame.threads, waits.frame.trail⟩
  have restored : SlotsIn length
      (if held && !caller.negated then slots else caller.saved) := by
    split
    · exact inside
    · exact waits.saved
  unfold Caller.conclude
  dsimp only
  split
  · exact ⟨frame, fun _ wrong => absurd wrong (by simp), restored⟩
  · exact ⟨frame, restored⟩

theorem Caller.In.resume {caller : Caller} (waits : caller.In length) (matched : Bool)
    (endSp : Int) {slots : Slots} (inside : SlotsIn length slots) :
    (caller.resume matched endSp slots).In length := by
  unfold Caller.resume
  cases behind : caller.behind with
  | none => exact waits.conclude matched inside
  | some start =>
      dsimp only
      split
      · exact waits.conclude true inside
      · split
        · have below := waits.behind start behind
          refine ⟨newActivation_in _ _ ⟨by omega, by omega⟩, ?_, waits.saved⟩
          intro one member
          cases member
          exact ⟨waits.frame, waits.saved, fun place equal => by cases equal; omega⟩
        · exact waits.conclude false waits.saved

private theorem taken_in {frame : Activation} (inside : frame.In length) {slots : Slots}
    (slotsIn : SlotsIn length slots) {thread : Thread} {threads : List Thread}
    (pending : frame.threads = thread :: threads) {callers : List Caller}
    (waiting : ∀ caller ∈ callers, caller.In length) :
    Config.In length
      { frame := { frame with
          pc := thread.pc, sp := thread.sp, threads := threads
          trail := (unwind thread.trail frame.trail slots).1 }
        callers := callers
        slots := (unwind thread.trail frame.trail slots).2 } := by
  obtain ⟨trail, undone⟩ := unwind_in thread.trail inside.trail slotsIn
  have cursor := inside.threads thread (by rw [pending]; exact List.mem_cons_self)
  refine ⟨⟨cursor, ?_, trail⟩, waiting, undone⟩
  intro one member
  exact inside.threads one (by rw [pending]; exact List.mem_cons_of_mem _ member)

theorem backtrack_in {callers : List Caller} {frame : Activation} (inside : frame.In length)
    {slots : Slots} (slotsIn : SlotsIn length slots)
    (waiting : ∀ caller ∈ callers, caller.In length) :
    (backtrack frame slots callers).In length := by
  induction callers generalizing frame slots with
  | nil =>
      unfold backtrack
      cases pending : frame.threads with
      | nil => exact trivial
      | cons thread threads => exact taken_in inside slotsIn pending waiting
  | cons caller callers ih =>
      unfold backtrack
      have rest : ∀ one ∈ callers, one.In length :=
        fun one member => waiting one (List.mem_cons_of_mem _ member)
      cases pending : frame.threads with
      | nil =>
          have resumed := (waiting caller List.mem_cons_self).resume false frame.sp slotsIn
          dsimp only
          cases answer : caller.resume false frame.sp slots with
          | again frame waits slots =>
              rw [answer] at resumed
              refine ⟨resumed.1, ?_, resumed.2.2⟩
              intro one member
              rcases List.mem_append.mp member with new | old
              · exact resumed.2.1 one (Option.mem_toList.mp new)
              · exact rest one old
          | backtracks frame slots =>
              rw [answer] at resumed
              exact ih resumed.1 resumed.2 rest
      | cons thread threads => exact taken_in inside slotsIn pending waiting

theorem succeed_in {callers : List Caller} {frame : Activation} {slots : Slots}
    (slotsIn : SlotsIn length slots) (waiting : ∀ caller ∈ callers, caller.In length) :
    (succeed frame slots callers).In length := by
  cases callers with
  | nil => exact trivial
  | cons caller callers =>
      have rest : ∀ one ∈ callers, one.In length :=
        fun one member => waiting one (List.mem_cons_of_mem _ member)
      have resumed := (waiting caller List.mem_cons_self).resume true frame.sp slotsIn
      unfold succeed
      dsimp only
      cases answer : caller.resume true frame.sp slots with
      | again frame waits slots =>
          rw [answer] at resumed
          refine ⟨resumed.1, ?_, resumed.2.2⟩
          intro one member
          rcases List.mem_append.mp member with new | old
          · exact resumed.2.1 one (Option.mem_toList.mp new)
          · exact rest one old
      | backtracks frame slots =>
          rw [answer] at resumed
          exact backtrack_in resumed.1 resumed.2 rest

end

/-! ### Reads -/

section

variable {regex : Regex} {subject : List UInt8} {config : Config}

theorem byteAt_some (subject : List UInt8) {sp : Int} (low : 0 ≤ sp) (high : sp < subject.length) :
    ∃ c, byteAt subject sp = some c := by
  have below : sp.toNat < subject.length := by omega
  unfold byteAt
  rw [if_neg (by omega)]
  exact ⟨subject[sp.toNat], List.getElem?_eq_getElem below⟩

theorem proceed_in (inside : config.In subject.length) (alive : Bool) {sp : Int}
    (place : alive = true → PlaceIn subject.length sp) :
    (proceed config alive sp).In subject.length := by
  unfold proceed
  split
  · rename_i lives
    exact ⟨⟨place lives, inside.frame.threads, inside.frame.trail⟩, inside.callers, inside.slots⟩
  · have frame : ({ config.frame with pc := config.frame.pc + 1 } : Activation).In
        subject.length := ⟨inside.frame.cursor, inside.frame.threads, inside.frame.trail⟩
    exact backtrack_in frame inside.slots inside.callers

theorem takeByte_in (inside : config.In subject.length) (accepts : UInt8 → Bool) :
    (takeByte subject config accepts).In subject.length := by
  obtain ⟨low, high⟩ := inside.frame.cursor
  unfold takeByte
  split
  · exact proceed_in inside false nofun
  · obtain ⟨c, here⟩ : ∃ c, byteAt subject config.frame.sp = some c :=
      byteAt_some subject low (by omega)
    rw [here]
    exact proceed_in inside _ (fun _ => ⟨by omega, by omega⟩)

theorem takeAny_in (inside : config.In subject.length) :
    (takeAny regex subject config).In subject.length := by
  obtain ⟨low, high⟩ := inside.frame.cursor
  unfold takeAny
  split
  · refine proceed_in inside _ (fun alive => ?_)
    rw [decide_eq_true_eq] at alive
    exact ⟨by omega, by omega⟩
  · exact takeByte_in inside _

theorem byteTest_some {inside : Bool} {sp : Int}
    (fits : inside = true → 0 ≤ sp ∧ sp < subject.length) (test : UInt8 → Bool) :
    ∃ answer, byteTest subject inside sp test = some answer := by
  unfold byteTest
  split
  · rename_i reads
    obtain ⟨c, here⟩ := byteAt_some subject (fits reads).1 (fits reads).2
    exact ⟨test c, by rw [here, Option.map_some]⟩
  · exact ⟨false, rfl⟩

theorem stepAssert_in (inside : config.In subject.length) {holds : Option Bool}
    (reads : ∃ answer, holds = some answer) : (stepAssert config holds).In subject.length := by
  obtain ⟨answer, rfl⟩ := reads
  exact proceed_in inside answer (fun _ => inside.frame.cursor)

theorem assertBol_reads {sp : Int} (place : PlaceIn subject.length sp) :
    ∃ answer, assertBol regex subject sp = some answer := by
  obtain ⟨low, high⟩ := place
  unfold assertBol
  split
  · exact ⟨true, rfl⟩
  · exact byteTest_some (fun _ => ⟨by omega, by omega⟩) _

theorem assertEol_reads {sp : Int} (place : PlaceIn subject.length sp) :
    ∃ answer, assertEol regex subject sp = some answer := by
  obtain ⟨low, high⟩ := place
  unfold assertEol
  split
  · exact ⟨true, rfl⟩
  · exact byteTest_some (fun _ => ⟨by omega, by omega⟩) _

theorem assertWord_reads {sp : Int} (place : PlaceIn subject.length sp) (wanted : Bool) :
    ∃ answer, assertWord subject sp wanted = some answer := by
  obtain ⟨low, high⟩ := place
  have beforeFits : decide (0 < sp) = true → 0 ≤ sp - 1 ∧ sp - 1 < subject.length := by
    intro positive
    rw [decide_eq_true_eq] at positive
    omega
  have afterFits : decide (sp < subject.length) = true → 0 ≤ sp ∧ sp < subject.length := by
    intro below
    rw [decide_eq_true_eq] at below
    exact ⟨low, below⟩
  obtain ⟨before, beforeRead⟩ := byteTest_some beforeFits csRegexIsWordByte
  obtain ⟨after, afterRead⟩ := byteTest_some afterFits csRegexIsWordByte
  unfold assertWord
  rw [beforeRead, afterRead]
  exact ⟨_, rfl⟩

theorem sameSpan_some (regex : Regex) (subject : List UInt8) (span : Nat) {sp start : Int}
    (spLow : 0 ≤ sp)
    (spHigh : sp + span ≤ subject.length) (startLow : 0 ≤ start)
    (startHigh : start + span ≤ subject.length) :
    ∃ answer, sameSpan regex subject sp start span = some answer := by
  induction span generalizing sp start with
  | zero => exact ⟨true, rfl⟩
  | succ span ih =>
      obtain ⟨here, hereRead⟩ := byteAt_some subject spLow (by omega)
      obtain ⟨there, thereRead⟩ := byteAt_some subject startLow (by omega)
      unfold sameSpan
      rw [hereRead, thereRead]
      simp only [Option.bind_eq_bind, Option.bind_some]
      split
      · exact ih (by omega) (by omega) (by omega) (by omega)
      · exact ⟨false, rfl⟩

/-! ### Steps -/

/-- A back-reference meets no group whose end is before its start, and its sum
fits an `int`. -/
def backrefGuard (config : Config) (group : Nat) : Bool :=
  let start := config.slots (group * 2)
  let finish := config.slots (group * 2 + 1)
  start < 0 || finish < 0 ||
    (start ≤ finish && config.frame.sp + (finish - start) < 2147483648)

def cursorGuard (regex : Regex) (config : Config) : Bool :=
  match regex.code[config.frame.pc]? with
  | none => true
  | some inst => inst.op ≠ .backref || backrefGuard config inst.x

theorem stepBackref_forward (inside : config.In subject.length) {group : Nat}
    (guard : backrefGuard config group = true) :
    ∃ alive sp, (alive = true → PlaceIn subject.length sp) ∧ config.frame.sp ≤ sp ∧
      stepBackref regex subject config group = proceed config alive sp := by
  obtain ⟨low, high⟩ := inside.frame.cursor
  have finishHigh := (inside.slots (group * 2 + 1)).2
  unfold stepBackref
  dsimp only
  split
  · exact ⟨true, _, fun _ => inside.frame.cursor, Int.le_refl _, rfl⟩
  · rename_i set_
    unfold backrefGuard at guard
    simp only [Bool.or_eq_true, decide_eq_true_eq, Bool.and_eq_true, not_or] at set_ guard
    have ordered := guard.resolve_left (not_or.mpr set_)
    rw [cInt_small (by omega) (by omega)]
    split
    · exact ⟨false, _, nofun, Int.le_refl _, rfl⟩
    · obtain ⟨answer, read⟩ := sameSpan_some regex subject
        (config.slots (group * 2 + 1) - config.slots (group * 2)).toNat low (by omega)
        (show 0 ≤ config.slots (group * 2) by omega) (by omega)
      rw [read]
      exact ⟨answer, _, fun _ => ⟨by omega, by omega⟩, by omega, rfl⟩

theorem stepBackref_in (inside : config.In subject.length) {group : Nat}
    (guard : backrefGuard config group = true) :
    (stepBackref regex subject config group).In subject.length := by
  obtain ⟨alive, sp, place, _, step⟩ := stepBackref_forward inside guard
  rw [step]
  exact proceed_in inside alive place

theorem stepLook_in (inside : config.In subject.length) (inst : ReInst) {behind : Option Int}
    (starts : ∀ start, behind = some start → start ≤ subject.length) :
    (stepLook config inst behind).In subject.length := by
  have waits : Caller.In subject.length
      { frame := config.frame, negated := inst.x ≠ 0, continuation := inst.y
        saved := config.slots, behind := behind } := ⟨inside.frame, inside.slots, starts⟩
  unfold stepLook
  dsimp only
  split
  · have concluded := waits.conclude false inside.slots
    cases answer : Caller.conclude
      { frame := config.frame, negated := inst.x ≠ 0, continuation := inst.y
        saved := config.slots, behind := behind } false config.slots with
    | again frame waiting slots =>
        rw [answer] at concluded
        exact ⟨concluded.1, inside.callers, concluded.2.2⟩
    | backtracks frame slots =>
        rw [answer] at concluded
        exact backtrack_in concluded.1 concluded.2 inside.callers
  · refine ⟨newActivation_in _ _ inside.frame.cursor, ?_, inside.slots⟩
    intro one member
    rcases List.mem_cons.mp member with rfl | old
    · exact waits
    · exact inside.callers one old

theorem stepSave_in (inside : config.In subject.length) (slot : Nat) :
    (stepSave config slot).In subject.length := by
  refine ⟨⟨inside.frame.cursor, inside.frame.threads, ?_⟩, inside.callers,
    inside.slots.update slot inside.frame.cursor.slot⟩
  intro entry member
  rcases List.mem_cons.mp member with rfl | old
  · exact inside.slots slot
  · exact inside.frame.trail entry old

theorem stepSplit_in (inside : config.In subject.length) (inst : ReInst) :
    (stepSplit config inst).In subject.length := by
  refine ⟨⟨inside.frame.cursor, ?_, inside.frame.trail⟩, inside.callers, inside.slots⟩
  intro thread member
  rcases List.mem_cons.mp member with rfl | old
  · exact inside.frame.cursor
  · exact inside.frame.threads thread old

theorem stepEnd_in (inside : config.In subject.length) (op : ReOp) :
    (stepEnd config op).In subject.length := by
  unfold stepEnd
  split
  · exact succeed_in inside.slots inside.callers
  · exact backtrack_in inside.frame inside.slots inside.callers

theorem stepInst_in (inside : config.In subject.length) {inst : ReInst}
    (guard : inst.op = .backref → backrefGuard config inst.x = true) :
    (stepInst regex subject config inst).In subject.length := by
  have place := inside.frame.cursor
  unfold stepInst
  cases op : inst.op with
  | char => exact takeByte_in inside _
  | any => exact takeAny_in inside
  | class_ =>
      dsimp only
      split
      · exact trivial
      · exact takeByte_in inside _
  | backref => exact stepBackref_in inside (guard op)
  | look => exact stepLook_in inside inst nofun
  | lookbehind =>
      exact stepLook_in inside inst (fun start equal => by cases equal; exact place.2)
  | assertBol => exact stepAssert_in inside (assertBol_reads place)
  | assertEol => exact stepAssert_in inside (assertEol_reads place)
  | assertWord => exact stepAssert_in inside (assertWord_reads place _)
  | save => exact stepSave_in inside _
  | split => exact stepSplit_in inside inst
  | jump => exact ⟨⟨place, inside.frame.threads, inside.frame.trail⟩, inside.callers, inside.slots⟩
  | lookEnd => exact stepEnd_in inside _
  | match_ => exact stepEnd_in inside _

theorem stepMatch_in (inside : config.In subject.length)
    (guard : cursorGuard regex config = true) :
    (stepMatch regex subject config).In subject.length := by
  unfold stepMatch
  unfold cursorGuard at guard
  cases here : regex.code[config.frame.pc]? with
  | none => exact trivial
  | some inst =>
      rw [here] at guard
      refine stepInst_in inside (fun backref => ?_)
      simpa [backref] using guard

end

/-! ### Runs -/

section

variable (regex : Regex) (subject : List UInt8)

/-- The configuration after so many turns of the loop, if the match still
runs. -/
def matchAfter : Nat → Config → Option Config
  | 0, config => some config
  | steps + 1, config =>
      match stepMatch regex subject config with
      | .running next => matchAfter steps next
      | _ => none

def guardedMatch : Nat → Config → Bool
  | 0, config => cursorGuard regex config
  | steps + 1, config =>
      cursorGuard regex config &&
        match stepMatch regex subject config with
        | .running next => guardedMatch steps next
        | _ => true

theorem matchStart_in {at_ : Nat} (start : at_ ≤ subject.length) :
    (matchStart at_).In subject.length where
  frame := newActivation_in _ _ ⟨by omega, by omega⟩
  callers _ wrong := absurd wrong List.not_mem_nil
  slots _ := ⟨Int.le_refl _, by show (-1 : Int) ≤ subject.length; omega⟩

theorem matchAfter_in (steps : Nat) {config reached : Config}
    (inside : config.In subject.length) (guard : guardedMatch regex subject steps config = true)
    (ran : matchAfter regex subject steps config = some reached) :
    reached.In subject.length ∧ cursorGuard regex reached = true := by
  induction steps generalizing config with
  | zero =>
      cases ran
      exact ⟨inside, guard⟩
  | succ steps ih =>
      unfold matchAfter at ran
      unfold guardedMatch at guard
      rw [Bool.and_eq_true] at guard
      have stepped := stepMatch_in inside guard.1
      cases answer : stepMatch regex subject config with
      | running next =>
          rw [answer] at ran guard stepped
          exact ih stepped guard.2 ran
      | _ =>
          rw [answer] at ran
          cases ran

/-- The cursor of the call that runs and those of the calls that wait stay in
the subject, so does every read, and a back-reference goes on at the cursor or
behind it, or backtracks. -/
theorem matchFrom_cursor {at_ : Nat} (start : at_ ≤ subject.length) (steps : Nat)
    {reached : Config} (ran : matchAfter regex subject steps (matchStart at_) = some reached)
    (guard : guardedMatch regex subject steps (matchStart at_) = true) :
    (0 ≤ reached.frame.sp ∧ reached.frame.sp ≤ subject.length) ∧
      (∀ caller ∈ reached.callers,
        0 ≤ caller.frame.sp ∧ caller.frame.sp ≤ subject.length) ∧
      stepMatch regex subject reached ≠ .outsideSubject ∧
      ∀ inst, regex.code[reached.frame.pc]? = some inst → inst.op = .backref →
        ∃ alive sp, reached.frame.sp ≤ sp ∧
          stepMatch regex subject reached = proceed reached alive sp := by
  obtain ⟨inside, guarded_⟩ := matchAfter_in regex subject steps
    (matchStart_in subject start) guard ran
  refine ⟨inside.frame.cursor, fun caller member => (inside.callers caller member).frame.cursor,
    ?_, ?_⟩
  · intro outside
    have stepped := stepMatch_in inside guarded_
    rw [outside] at stepped
    exact stepped
  · intro inst here backref
    unfold cursorGuard at guarded_
    rw [here] at guarded_
    have guards : backrefGuard reached inst.x = true := by simpa [backref] using guarded_
    obtain ⟨alive, sp, _, forward, step⟩ : ∃ alive sp,
        (alive = true → PlaceIn subject.length sp) ∧ reached.frame.sp ≤ sp ∧
          stepBackref regex subject reached inst.x = proceed reached alive sp :=
      stepBackref_forward inside guards
    refine ⟨alive, sp, forward, ?_⟩
    unfold stepMatch stepInst
    rw [here]
    simp only [backref]
    exact step

end

def reaches (pattern subject : String) (at_ steps : Nat)
    (test : Regex → Config → Bool) : Bool :=
  (csRegexCompile (ascii pattern) noFlags).toOption.any (fun regex =>
    (matchAfter regex (ascii subject) steps (matchStart at_)).any (test regex))

theorem reached_of_reaches (pattern subject : String) (at_ steps : Nat)
    (test : Regex → Config → Bool) (passes : reaches pattern subject at_ steps test = true) :
    ∃ regex reached, csRegexCompile (ascii pattern) noFlags = .ok regex ∧
      matchAfter regex (ascii subject) steps (matchStart at_) = some reached ∧
      test regex reached = true := by
  unfold reaches at passes
  cases accepted : csRegexCompile (ascii pattern) noFlags with
  | error failure =>
      rw [accepted] at passes
      cases passes
  | ok regex =>
      rw [accepted] at passes
      have ran : (matchAfter regex (ascii subject) steps (matchStart at_)).any (test regex) =
          true := passes
      obtain ⟨reached, here, holds⟩ := (Option.any_eq_true _ _).mp ran
      exact ⟨regex, reached, rfl, here, holds⟩

theorem matchFrom_cursor_at_backref :
    ∃ regex reached, csRegexCompile (ascii "(a|b)+\\1(?<=b)") noFlags = .ok regex ∧
      matchAfter regex (ascii "abb") 16 (matchStart 0) = some reached ∧
      0 ≤ reached.frame.sp ∧ reached.frame.sp ≤ (ascii "abb").length := by
  obtain ⟨regex, reached, accepted, ran, guard⟩ := reached_of_reaches
    "(a|b)+\\1(?<=b)" "abb" 0 16
    (fun regex _ => guardedMatch regex (ascii "abb") 16 (matchStart 0)) (by decide)
  exact ⟨regex, reached, accepted, ran,
    (matchFrom_cursor regex (ascii "abb") (Nat.zero_le _) 16 ran guard).1⟩

/-- While group 1 is open its start is new and its end is old, so each
back-reference inside it steps back. -/
theorem backref_leaves_subject :
    ¬∀ (pattern : List UInt8) (flags : ReFlags) (regex : Regex) (subject : List UInt8)
      (at_ steps : Nat) (reached : Config),
      csRegexCompile pattern flags = .ok regex → at_ ≤ subject.length →
      matchAfter regex subject steps (matchStart at_) = some reached →
      0 ≤ reached.frame.sp ∧ reached.frame.sp ≤ subject.length := by
  intro claim
  obtain ⟨regex, reached, accepted, ran, negative⟩ := reached_of_reaches
    "(?:(a\\1\\1\\1\\1)b)*" "abab" 0 18
    (fun _ reached => decide (reached.frame.sp < 0)) (by decide)
  have inside := claim _ _ regex _ 0 18 reached accepted (Nat.zero_le _) ran
  rw [decide_eq_true_eq] at negative
  omega

end CScript
