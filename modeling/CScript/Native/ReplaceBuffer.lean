/-
When a replacement stays inside its buffer.

A match is reserved for by an estimate that counts each reference of the
template by its two characters and the subject once.  The writes of a turn fit
exactly when their sum does.
-/

import CScript.Native.RegexReplace

namespace CScript.RegexReplace

/-! ### Writes that fit -/

def Write.Fits (write : Write) : Prop :=
  write.length + write.bytes ≤ write.capacity

def Buffer.Safe (buffer : Buffer) : Prop :=
  ∀ write ∈ buffer.writes, write.Fits

theorem Buffer.safe_record (buffer : Buffer) (bytes : Nat) :
    (buffer.record bytes).Safe ↔ buffer.Safe ∧ buffer.length + bytes ≤ buffer.capacity := by
  unfold Safe record
  rw [List.forall_mem_cons, and_comm]
  rfl

theorem Buffer.safe_put (buffer : Buffer) (bytes : List UInt8) :
    (buffer.put bytes).Safe ↔ buffer.Safe ∧ buffer.length + bytes.length ≤ buffer.capacity :=
  buffer.safe_record bytes.length

theorem Buffer.length_put (buffer : Buffer) (bytes : List UInt8) :
    (buffer.put bytes).length = buffer.length + bytes.length :=
  List.length_append

@[simp] theorem Buffer.capacity_put (buffer : Buffer) (bytes : List UInt8) :
    (buffer.put bytes).capacity = buffer.capacity := rfl

theorem Buffer.safe_reserve (buffer : Buffer) (needed capacity : Nat) :
    (buffer.reserve needed capacity).Safe ↔ buffer.Safe := by
  unfold reserve Safe
  split <;> exact Iff.rfl

theorem Buffer.length_reserve (buffer : Buffer) (needed capacity : Nat) :
    (buffer.reserve needed capacity).length = buffer.length := by
  unfold reserve length
  split <;> rfl

theorem Buffer.room_reserve (buffer : Buffer) {needed capacity : Nat}
    (enough : needed ≤ capacity) : needed ≤ (buffer.reserve needed capacity).capacity := by
  unfold reserve
  split
  · exact enough
  · omega

def left : Except Buffer Buffer → Buffer
  | .ok buffer => buffer
  | .error buffer => buffer

/-! ### What a turn writes -/

section

variable (regex : Regex) (subject : List UInt8) (result : RegexMatch)

def copied (start finish : Int) : Nat :=
  if SpanOf subject start finish then (finish - start).toNat else sizeT (finish - start)

def unitSize : TemplateUnit → Nat
  | .character _ => 1
  | .whole => copied subject (groupOf result 0).1 (groupOf result 0).2
  | .group group =>
      if group < result.groups.length ∧ 0 ≤ (groupOf result group).1 then
        copied subject (groupOf result group).1 (groupOf result group).2
      else 0
  | .nothing => 0

def unitInside : TemplateUnit → Bool
  | .character _ => true
  | .whole => decide (SpanOf subject (groupOf result 0).1 (groupOf result 0).2)
  | .group group =>
      if group < result.groups.length ∧ 0 ≤ (groupOf result group).1 then
        decide (SpanOf subject (groupOf result group).1 (groupOf result group).2)
      else true
  | .nothing => true

def templateSize : Nat → List UInt8 → Nat
  | _, [] => 0
  | used + 1, _ :: template => templateSize used template
  | 0, c :: template =>
      let (unit, used) := templateUnit regex c template
      unitSize subject result unit +
        if unitInside subject result unit then templateSize used template else 0

def templateInside : Nat → List UInt8 → Bool
  | _, [] => true
  | used + 1, _ :: template => templateInside used template
  | 0, c :: template =>
      let (unit, used) := templateUnit regex c template
      unitInside subject result unit && templateInside used template

end

def passedSize (subject : List UInt8) (result : RegexMatch) : Nat :=
  if (groupOf result 0).2 = (groupOf result 0).1 ∧ (groupOf result 0).2 < subject.length then 1
  else 0

/-- In a turn that replaces its match by a template, all that is written is at
most what the turn has reserved. -/
def Call.Fits (call : Call) (state : ReplaceState) : Prop :=
  ∀ template result, call.replacement = .text template → 0 ≤ state.place →
    csRegexSearch call.regex.program call.subject state.place.toNat = .found result →
    SpanOf call.subject state.place (groupOf result 0).1 →
    let start := (groupOf result 0).1
    let needed := call.needed state start
    state.buffer.length + (start - state.place).toNat +
        templateSize call.regex.program call.subject result 0 template +
        (if templateInside call.regex.program call.subject result 0 template then
          passedSize call.subject result else 0) ≤
      (state.buffer.reserve needed (needed * 2)).capacity

/-! ### Copies -/

theorem length_span {subject : List UInt8} {start finish : Int}
    (inside : SpanOf subject start finish) :
    (span subject start finish).length = (finish - start).toNat := by
  obtain ⟨low, order, high⟩ := inside
  obtain ⟨start, rfl⟩ := Int.eq_ofNat_of_zero_le low
  obtain ⟨finish, rfl⟩ := Int.eq_ofNat_of_zero_le (Int.le_trans low order)
  rw [span, List.length_drop, List.length_take, Int.toNat_natCast, Int.toNat_natCast,
    Nat.min_eq_left (Int.ofNat_le.mp high), Int.toNat_sub]

theorem copySpan_safe (subject : List UInt8) (start finish : Int) (buffer : Buffer) :
    (left (copySpan subject start finish buffer)).Safe ↔
      buffer.Safe ∧ buffer.length + copied subject start finish ≤ buffer.capacity := by
  unfold copySpan copied
  by_cases inside : SpanOf subject start finish
  · rw [if_pos inside, if_pos inside, ← length_span inside]
    exact buffer.safe_put _
  · rw [if_neg inside, if_neg inside]
    exact buffer.safe_record _

theorem copySpan_ok {subject : List UInt8} {start finish : Int} {buffer copied_ : Buffer}
    (ran : copySpan subject start finish buffer = .ok copied_) :
    SpanOf subject start finish ∧ copied_ = buffer.put (span subject start finish) := by
  unfold copySpan at ran
  split at ran
  · rename_i inside
    cases ran
    exact ⟨inside, rfl⟩
  · cases ran

theorem copySpan_error {subject : List UInt8} {start finish : Int} {buffer stopped : Buffer}
    (ran : copySpan subject start finish buffer = .error stopped) :
    ¬SpanOf subject start finish := by
  unfold copySpan at ran
  split at ran
  · cases ran
  · rename_i outside
    exact outside

/-- What copying or writing does to a buffer, whose room is known: it is safe
afterwards if all that was asked for fits. -/
structure Wrote (buffer : Buffer) (size : Nat) (inside : Bool)
    (outcome : Except Buffer Buffer) : Prop where
  kept : (left outcome).Safe → buffer.Safe
  safe : buffer.length ≤ buffer.capacity →
    ((left outcome).Safe ↔ buffer.Safe ∧ buffer.length + size ≤ buffer.capacity)
  goesOn : ∀ written, outcome = .ok written →
    inside = true ∧ written.length = buffer.length + size ∧ written.capacity = buffer.capacity
  stops : ∀ stopped, outcome = .error stopped → inside = false

theorem copySpan_wrote (subject : List UInt8) (start finish : Int) (buffer : Buffer) :
    Wrote buffer (copied subject start finish) (decide (SpanOf subject start finish))
      (copySpan subject start finish buffer) := by
  have safe := copySpan_safe subject start finish buffer
  refine ⟨fun after => (safe.mp after).1, fun _ => safe, ?_, ?_⟩
  · intro written ran
    obtain ⟨inside, rfl⟩ := copySpan_ok ran
    refine ⟨decide_eq_true inside, ?_, rfl⟩
    rw [buffer.length_put, length_span inside, copied, if_pos inside]
  · intro stopped ran
    exact decide_eq_false (copySpan_error ran)

theorem wrote_nothing (buffer : Buffer) : Wrote buffer 0 true (.ok buffer) := by
  refine ⟨id, fun room => ⟨fun safe => ⟨safe, room⟩, And.left⟩, ?_, nofun⟩
  rintro written ⟨⟩
  exact ⟨rfl, rfl, rfl⟩

theorem writeUnit_wrote (subject : List UInt8) (result : RegexMatch) (buffer : Buffer)
    (unit : TemplateUnit) :
    Wrote buffer (unitSize subject result unit) (unitInside subject result unit)
      (writeUnit subject result buffer unit) := by
  cases unit with
  | character c =>
      have safe := buffer.safe_put [c]
      refine ⟨fun after => (safe.mp after).1, fun _ => safe, ?_, nofun⟩
      rintro written ⟨⟩
      exact ⟨rfl, buffer.length_put [c], rfl⟩
  | whole => exact copySpan_wrote subject _ _ buffer
  | group group =>
      simp only [unitSize, unitInside, writeUnit]
      by_cases captured : group < result.groups.length ∧ 0 ≤ (groupOf result group).1
      · simp only [if_pos captured]
        exact copySpan_wrote subject _ _ buffer
      · simp only [if_neg captured]
        exact wrote_nothing buffer
  | nothing => exact wrote_nothing buffer

theorem Wrote.bind {buffer : Buffer} {size rest : Nat} {inside restInside : Bool}
    {outcome : Except Buffer Buffer} (first : Wrote buffer size inside outcome)
    {next : Buffer → Except Buffer Buffer}
    (second : ∀ written, outcome = .ok written → Wrote written rest restInside (next written)) :
    Wrote buffer (size + if inside then rest else 0) (inside && restInside)
      (outcome >>= next) := by
  cases ran : outcome with
  | error stopped =>
      have outside := first.stops stopped ran
      rw [ran] at first
      rw [outside]
      exact ⟨first.kept, first.safe, nofun, fun _ _ => rfl⟩
  | ok written =>
      obtain ⟨isInside, length, capacity⟩ := first.goesOn written ran
      obtain ⟨kept, safe, goesOn, stops⟩ := second written ran
      rw [ran] at first
      rw [isInside, if_pos rfl, Bool.true_and]
      have bound : (Except.ok written >>= next) = next written := rfl
      rw [bound]
      refine ⟨fun after => first.kept (kept after), ?_, ?_, stops⟩
      · intro room
        have firstSafe := first.safe room
        by_cases fits : buffer.length + size ≤ buffer.capacity
        · have both : written.Safe ↔ buffer.Safe :=
            ⟨fun safe => (firstSafe.mp safe).1, fun safe => firstSafe.mpr ⟨safe, fits⟩⟩
          rw [safe (by omega), both, length, capacity, Nat.add_assoc]
        · constructor
          · intro after
            exact absurd (firstSafe.mp (kept after)).2 fits
          · rintro ⟨_, all⟩
            omega
      · intro last ranNext
        obtain ⟨lastInside, lastLength, lastCapacity⟩ := goesOn last ranNext
        exact ⟨lastInside, by omega, lastCapacity.trans capacity⟩

theorem writeTemplate_wrote (regex : Regex) (subject : List UInt8) (result : RegexMatch) :
    ∀ (used : Nat) (template : List UInt8) (buffer : Buffer),
      Wrote buffer (templateSize regex subject result used template)
        (templateInside regex subject result used template)
        (writeTemplate regex subject result used template buffer)
  | _, [], buffer => by
      unfold templateSize templateInside writeTemplate
      exact wrote_nothing buffer
  | used + 1, _ :: template, buffer =>
      writeTemplate_wrote regex subject result used template buffer
  | 0, c :: template, buffer => by
      unfold templateSize templateInside writeTemplate
      exact (writeUnit_wrote subject result buffer _).bind (fun written _ =>
        writeTemplate_wrote regex subject result _ template written)

/-! ### Turns -/

def TurnResult.buffer : TurnResult → Buffer
  | .next state => state.buffer
  | .leaves state => state.buffer
  | .failed _ buffer => buffer
  | .undefined buffer => buffer

private theorem copied_one (subject : List UInt8) (place : Int) :
    copied subject place (place + 1) = 1 := by
  have one : place + 1 - place = 1 := by omega
  unfold copied
  rw [one]
  split <;> decide

theorem passEmpty_wrote (subject : List UInt8) (result : RegexMatch) (buffer : Buffer) :
    ∃ inside,
      Wrote buffer (passedSize subject result) inside (passEmpty subject result buffer) := by
  simp only [passedSize, passEmpty]
  by_cases empty : (groupOf result 0).2 = (groupOf result 0).1 ∧
      (groupOf result 0).2 < subject.length
  · simp only [if_pos empty]
    have wrote := copySpan_wrote subject (groupOf result 0).2 ((groupOf result 0).2 + 1) buffer
    rw [copied_one] at wrote
    exact ⟨_, wrote⟩
  · simp only [if_neg empty]
    exact ⟨true, wrote_nothing buffer⟩

theorem advance_buffer (call : Call) (result : RegexMatch) (turn : Nat) (buffer : Buffer) :
    (call.advance result turn buffer).buffer = left (passEmpty call.subject result buffer) := by
  unfold Call.advance
  cases passEmpty call.subject result buffer with
  | error stopped => rfl
  | ok passed =>
      simp only
      split <;> rfl

theorem expand_template_safe {call : Call} {template : List UInt8}
    (replacement : call.replacement = .text template) (result : RegexMatch) (turn : Nat)
    {buffer : Buffer} (room : buffer.length ≤ buffer.capacity) :
    (call.expand result turn buffer).buffer.Safe ↔
      buffer.Safe ∧ buffer.length +
        templateSize call.regex.program call.subject result 0 template +
        (if templateInside call.regex.program call.subject result 0 template then
          passedSize call.subject result else 0) ≤ buffer.capacity := by
  have wrote := writeTemplate_wrote call.regex.program call.subject result 0 template buffer
  unfold Call.expand
  simp only [replacement]
  cases ran : writeTemplate call.regex.program call.subject result 0 template buffer with
  | error stopped =>
      have outside := wrote.stops stopped ran
      have safe := wrote.safe room
      rw [ran] at safe
      rw [outside, if_neg Bool.false_ne_true, Nat.add_zero]
      exact safe
  | ok written =>
      obtain ⟨inside, length, capacity⟩ := wrote.goesOn written ran
      have safe := wrote.safe room
      rw [ran] at safe
      obtain ⟨_, passed⟩ := passEmpty_wrote call.subject result written
      rw [inside, if_pos rfl]
      simp only [advance_buffer]
      by_cases fits : buffer.length +
          templateSize call.regex.program call.subject result 0 template ≤ buffer.capacity
      · have both : written.Safe ↔ buffer.Safe :=
          ⟨fun after => (safe.mp after).1, fun before => safe.mpr ⟨before, fits⟩⟩
        rw [passed.safe (by omega), both, length, capacity]
      · constructor
        · intro after
          exact absurd (safe.mp (passed.kept after)).2 fits
        · rintro ⟨_, all⟩
          omega

theorem expand_function_safe {call : Call}
    {replacer : Nat → List Argument → Except (List UInt8) (List UInt8)}
    (replacement : call.replacement = .function replacer) (result : RegexMatch) (turn : Nat)
    (buffer : Buffer) :
    (call.expand result turn buffer).buffer.Safe ↔ buffer.Safe := by
  unfold Call.expand
  simp only [replacement]
  cases replacerArguments call.subject result with
  | none => exact Iff.rfl
  | some arguments =>
      simp only
      cases replacer turn arguments with
      | error message => exact Iff.rfl
      | ok produced =>
          let needed := buffer.length + produced.length + 1
          let reserved := buffer.reserve needed (needed * 2)
          have room : needed ≤ reserved.capacity := buffer.room_reserve (by omega)
          have length : reserved.length = buffer.length := buffer.length_reserve _ _
          have safe : (reserved.put produced).Safe ↔ buffer.Safe := by
            rw [reserved.safe_put, buffer.safe_reserve]
            exact ⟨And.left, fun safe => ⟨safe, by omega⟩⟩
          obtain ⟨_, passed⟩ := passEmpty_wrote call.subject result (reserved.put produced)
          have atMost : passedSize call.subject result ≤ 1 := by
            unfold passedSize
            split <;> omega
          have put := reserved.length_put produced
          have capacity := reserved.capacity_put produced
          rw [advance_buffer, passed.safe (by omega), safe]
          exact ⟨And.left, fun safe => ⟨safe, by omega⟩⟩

theorem replaceTurn_safe (call : Call) (state : ReplaceState) :
    (replaceTurn call state).buffer.Safe ↔ state.buffer.Safe ∧ call.Fits state := by
  unfold replaceTurn Call.Fits
  by_cases before : state.place < 0
  · rw [if_pos before]
    exact ⟨fun safe => ⟨safe, fun _ _ _ inside => absurd inside (by omega)⟩, And.left⟩
  · rw [if_neg before]
    cases searched : csRegexSearch call.regex.program call.subject state.place.toNat with
    | found result =>
        simp only [SearchResult.found.injEq]
        let needed := call.needed state (groupOf result 0).1
        let reserved := state.buffer.reserve needed (needed * 2)
        have room : needed ≤ reserved.capacity := state.buffer.room_reserve (by omega)
        have length : reserved.length = state.buffer.length := state.buffer.length_reserve _ _
        have same : reserved.Safe ↔ state.buffer.Safe := state.buffer.safe_reserve _ _
        have neededEq : needed = state.buffer.length + sizeT ((groupOf result 0).1 - state.place) +
          call.replacement.length + call.subject.length := rfl
        have gap : state.buffer.length + copied call.subject state.place (groupOf result 0).1 ≤
            needed := by
          unfold copied
          split
          · rename_i inside
            have high := inside.2.2
            omega
          · omega
        have wrote := copySpan_wrote call.subject state.place (groupOf result 0).1 reserved
        have safe :
            (left (copySpan call.subject state.place (groupOf result 0).1 reserved)).Safe ↔
              state.buffer.Safe := by
          rw [wrote.safe (by omega), same]
          exact ⟨And.left, fun safe => ⟨safe, by omega⟩⟩
        cases ran : copySpan call.subject state.place (groupOf result 0).1 reserved with
        | error stopped =>
            have outside := copySpan_error ran
            rw [ran] at safe
            refine ⟨fun after => ⟨safe.mp after, ?_⟩, fun both => safe.mpr both.1⟩
            rintro template _ _ _ rfl inside
            exact absurd inside outside
        | ok written =>
            obtain ⟨inside, rfl⟩ := copySpan_ok ran
            have capacity := reserved.capacity_put (span call.subject state.place
              (groupOf result 0).1)
            have put := reserved.length_put (span call.subject state.place (groupOf result 0).1)
            have held : (state.buffer.reserve (call.needed state (groupOf result 0).1)
                (call.needed state (groupOf result 0).1 * 2)).capacity = reserved.capacity := rfl
            rw [length_span inside] at put
            rw [copied, if_pos inside] at gap
            rw [ran] at safe
            cases replacement : call.replacement with
            | text template =>
                simp only
                rw [expand_template_safe replacement result state.turn (by omega)]
                refine and_congr safe ⟨?_, ?_⟩
                · rintro fits _ _ ⟨⟩ _ rfl _
                  omega
                · intro fits
                  have bound := fits template result rfl (by omega) rfl inside
                  omega
            | function replacer =>
                simp only
                rw [expand_function_safe replacement result state.turn]
                exact ⟨fun after => ⟨safe.mp after, nofun⟩, fun both => safe.mpr both.1⟩
    | missing => exact ⟨fun safe => ⟨safe, fun _ _ _ _ => nofun⟩, And.left⟩
    | outOfSteps => exact ⟨fun safe => ⟨safe, fun _ _ _ _ => nofun⟩, And.left⟩
    | outsideSubject => exact ⟨fun safe => ⟨safe, fun _ _ _ _ => nofun⟩, And.left⟩
    | outsideProgram => exact ⟨fun safe => ⟨safe, fun _ _ _ _ => nofun⟩, And.left⟩

theorem finishReplace_buffer (call : Call) (state : ReplaceState) :
    (finishReplace call state).2 = left (call.copyRest state) := by
  unfold finishReplace
  cases call.copyRest state with
  | error buffer => rfl
  | ok buffer =>
      simp only
      split <;> rfl

theorem finishReplace_safe (call : Call) (state : ReplaceState) :
    (finishReplace call state).2.Safe ↔ state.buffer.Safe := by
  rw [finishReplace_buffer]
  unfold Call.copyRest
  by_cases within : state.place ≤ call.subject.length
  · have size : copied call.subject state.place call.subject.length =
        sizeT (call.subject.length - state.place) := by
      unfold copied sizeT
      rw [if_pos (show (0 : Int) ≤ call.subject.length - state.place by omega), ite_self]
    rw [if_pos within, copySpan_safe, size, state.buffer.safe_reserve]
    generalize neededEq :
      state.buffer.length + sizeT (call.subject.length - state.place) + 1 = needed
    have room : needed ≤ (state.buffer.reserve needed needed).capacity :=
      state.buffer.room_reserve (Nat.le_refl _)
    have length := state.buffer.length_reserve needed needed
    exact ⟨And.left, fun safe => ⟨safe, by omega⟩⟩
  · rw [if_neg within]
    exact Iff.rfl

/-! ### Runs -/

/-- The state the loop is in after so many turns, if it goes on that long. -/
def stateAfter (call : Call) : Nat → ReplaceState → Option ReplaceState
  | 0, state => some state
  | turns + 1, state =>
      match replaceTurn call state with
      | .next next => stateAfter call turns next
      | _ => none

theorem replaceLoop_safe (call : Call) (turns : Nat) (state : ReplaceState) :
    (replaceLoop call turns state).2.Safe ↔
      state.buffer.Safe ∧ ∀ turn < turns, ∀ reached,
        stateAfter call turn state = some reached → call.Fits reached := by
  induction turns generalizing state with
  | zero => exact ⟨fun safe => ⟨safe, nofun⟩, And.left⟩
  | succ turns ih =>
      have first := replaceTurn_safe call state
      have split : (∀ turn < turns + 1, ∀ reached, stateAfter call turn state = some reached →
          call.Fits reached) ↔ call.Fits state ∧ ∀ turn < turns, ∀ reached,
            stateAfter call (turn + 1) state = some reached → call.Fits reached := by
        constructor
        · intro all
          exact ⟨all 0 (by omega) state rfl, fun turn bound => all (turn + 1) (by omega)⟩
        · rintro ⟨here, later⟩ turn bound reached after
          cases turn with
          | zero =>
              cases after
              exact here
          | succ turn => exact later turn (by omega) reached after
      rw [split, ← and_assoc, ← first]
      cases stepped : replaceTurn call state with
      | next following =>
          have later : ∀ turn, stateAfter call (turn + 1) state =
              stateAfter call turn following := by
            intro turn
            rw [stateAfter, stepped]
          simp only [replaceLoop, stepped, later]
          exact ih following
      | leaves following =>
          simp only [replaceLoop, stepped, stateAfter, finishReplace_safe]
          exact ⟨fun safe => ⟨safe, nofun⟩, And.left⟩
      | failed message buffer =>
          simp only [replaceLoop, stepped, stateAfter]
          exact ⟨fun safe => ⟨safe, nofun⟩, And.left⟩
      | undefined buffer =>
          simp only [replaceLoop, stepped, stateAfter]
          exact ⟨fun safe => ⟨safe, nofun⟩, And.left⟩

/-- Every subject, pattern and replacement, and any number of turns: each write
stays inside the buffer if and only if in each turn that has a template all it
writes is at most what it has reserved. -/
theorem csRegexStringReplace_fits_iff (subject : List UInt8) (regex : ObjRegex)
    (replacement : Option Replacement) (all : Bool) :
    (∀ turns, ∀ write ∈ (csRegexStringReplace subject regex replacement all turns).2,
      write.Fits) ↔
    ∀ given, replacement = some given →
      let call : Call :=
        { subject := subject, regex := regex, replacement := given, all := all }
      ∀ turn reached, stateAfter call turn call.start = some reached → call.Fits reached := by
  cases replacement with
  | none => exact ⟨fun _ => nofun, fun _ _ => nofun⟩
  | some given =>
      have runs := replaceLoop_safe
        { subject := subject, regex := regex, replacement := given, all := all }
      constructor
      · rintro safe _ ⟨⟩ call turn reached after
        exact ((runs (turn + 1) _).mp (safe (turn + 1))).2 turn (by omega) reached after
      · intro fits turns
        exact (runs turns _).mpr ⟨nofun, fun turn _ => fits given rfl turn⟩

/-- Eight references to a match of three bytes are counted as sixteen bytes and
one subject. -/
theorem references_overflow :
    ¬∀ (pattern : List UInt8) (flags : ReFlags) (program : Regex) (subject template : List UInt8)
      (turns : Nat), csRegexCompile pattern flags = .ok program →
      ∀ write ∈ (csRegexStringReplace subject
        { program := program, source := pattern, global := false, lastIndex := 0 }
        (some (.text template)) false turns).2, write.Fits := by
  intro claim
  have overflows : comesTo "a+" "aaa" "$&$&$&$&$&$&$&$&" false 1
      (fun _ ended => ended.2.any fun write =>
        decide (write.capacity < write.length + write.bytes)) = true := by decide +kernel
  obtain ⟨program, accepted, beyond⟩ := exists_of_comesTo overflows
  obtain ⟨write, member, outside⟩ := List.any_eq_true.mp beyond
  have fits : write.length + write.bytes ≤ write.capacity :=
    claim _ _ program _ _ 1 accepted write member
  rw [decide_eq_true_eq] at outside
  omega

end CScript.RegexReplace
