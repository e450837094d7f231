/-
Searches that come to an end, and one that does not.

Without the budget a search is one match from each start place.  A match whose paths
advance is a descent of what is left for it, so it ends; then so does the search, and
a greater budget changes nothing.
-/

import CScript.Regex.Captures
import CScript.Regex.Loops

namespace CScript

/-! ### Matches that advance -/

def startNote (at_ : Nat) : LoopNote :=
  { marks := Function.update (fun _ => none) 0 (some (at_ : Int)), here := 0, stuck := false }

section

variable (regex : Regex) (subject : List UInt8)

/-- No path of the match goes back in the program to an instruction it has been at
unless the cursor is further on than it was there. -/
def Advances (at_ : Nat) : Prop :=
  ∀ steps state,
    tracedAfter loopTrace regex subject steps (tracedStart (startNote at_) at_) = some state →
      state.frame.now.stuck = false

variable {regex subject}

theorem move_inside {traced next : Traced LoopNote}
    (stepped : tracedMatch loopTrace regex subject traced = .running next) :
    traced.frame.pc < regex.code.length := by
  by_contra outside
  have none_ : regex.code[traced.frame.pc]? = none :=
    List.getElem?_eq_none (Nat.le_of_not_lt outside)
  have move : traced.erase.move regex subject = .outsideProgram := by
    show moveOf regex subject traced.frame.pc traced.frame.sp traced.slots = _
    rw [moveOf, none_]
  rw [tracedMatch, move] at stepped
  cases stepped

theorem tracedMatch_tracked {traced next : Traced LoopNote}
    (tracked : Tracked subject.length traced)
    (stepped : tracedMatch loopTrace regex subject traced = .running next) :
    Tracked subject.length next := by
  have within := @moveOf_within regex subject traced.frame.pc _ traced.slots
    tracked.frame.cursor
  have kept := perform_tracked tracked within
  rw [tracedMatch] at stepped
  change StepTracked subject.length
    (traced.perform loopTrace (traced.erase.move regex subject)) at kept
  rw [stepped] at kept
  exact kept

theorem tracedMatch_descends {traced next : Traced LoopNote}
    (tracked : Tracked subject.length traced) (moves : traced.frame.now.stuck = false)
    (stepped : tracedMatch loopTrace regex subject traced = .running next) :
    (next.weight regex.code.length subject.length).IsDershowitzMannaLT
      (traced.weight regex.code.length subject.length) :=
  perform_descends tracked (move_inside stepped) moves
    (moveOf_within traced.frame.pc traced.slots tracked.frame.cursor) stepped

theorem tracedAfter_ends {traced : Traced LoopNote} (tracked : Tracked subject.length traced)
    (moves : ∀ steps state, tracedAfter loopTrace regex subject steps traced = some state →
      state.frame.now.stuck = false) :
    ∃ steps, tracedAfter loopTrace regex subject steps traced = none := by
  have wellFounded := InvImage.wf (fun traced : Traced LoopNote =>
    traced.weight regex.code.length subject.length) Multiset.wellFounded_isDershowitzMannaLT
  induction traced using wellFounded.induction with
  | _ traced ih =>
      cases stepped : tracedMatch loopTrace regex subject traced with
      | running next =>
          have less := tracedMatch_descends tracked (moves 0 traced rfl) stepped
          obtain ⟨steps, ends⟩ := ih next less (tracedMatch_tracked tracked stepped)
            (by
              intro steps state reached
              apply moves (steps + 1) state
              rw [tracedAfter, stepped]
              exact reached)
          refine ⟨steps + 1, ?_⟩
          rw [tracedAfter, stepped]
          exact ends
      | _ => exact ⟨1, by rw [tracedAfter, stepped]⟩

theorem tracedStart_tracked {at_ : Nat} (inside : at_ ≤ subject.length) :
    Tracked subject.length (tracedStart (startNote at_) at_) :=
  ⟨⟨rfl, Int.ofNat_le.mpr inside, List.forall_mem_nil _⟩, List.forall_mem_nil _⟩

theorem matchAfter_ends {at_ : Nat} (inside : at_ ≤ subject.length)
    (advances : Advances regex subject at_) :
    ∃ steps, matchAfter regex subject steps (matchStart at_) = none := by
  obtain ⟨steps, ends⟩ := tracedAfter_ends (tracedStart_tracked inside) advances
  refine ⟨steps, ?_⟩
  have erased := @erase_tracedAfter _ loopTrace regex subject steps
    (tracedStart (startNote at_) at_)
  rw [ends] at erased
  exact erased.symm

/-! ### Searches that end -/

theorem runMatch_of_matchAfter {steps : Nat} {config : Config}
    (ends : matchAfter regex subject steps config = none) :
    runMatch regex subject steps config ≠ .exhausted := by
  induction steps generalizing config with
  | zero => cases ends
  | succ steps ih =>
      rw [matchAfter] at ends
      rw [runMatch]
      cases stepped : stepMatch regex subject config with
      | running next =>
          rw [stepped] at ends
          exact ih ends
      | _ => simp

def MatchResult.spare (more : Nat) : MatchResult → MatchResult
  | .answered matched slots left => .answered matched slots (left + more)
  | result => result

theorem runMatch_more {steps : Nat} {config : Config}
    (within : runMatch regex subject steps config ≠ .exhausted) (more : Nat) :
    runMatch regex subject (steps + more) config =
      (runMatch regex subject steps config).spare more := by
  induction steps generalizing config with
  | zero => exact absurd rfl within
  | succ steps ih =>
      rw [Nat.succ_add, runMatch]
      rw [runMatch] at within ⊢
      cases stepped : stepMatch regex subject config with
      | running next =>
          rw [stepped] at within
          exact ih within
      | _ => rfl

theorem searchFrom_more {places at_ steps : Nat}
    (within : searchFrom regex subject places at_ steps ≠ .outOfSteps) (more : Nat) :
    searchFrom regex subject places at_ (steps + more) =
      searchFrom regex subject places at_ steps := by
  induction places generalizing at_ steps with
  | zero => rfl
  | succ places ih =>
      rw [searchFrom] at within ⊢
      have answers : runMatch regex subject steps (matchStart at_) ≠ .exhausted := by
        intro exhausted
        rw [exhausted] at within
        exact within rfl
      rw [runMatch_more answers more, searchFrom]
      cases result : runMatch regex subject steps (matchStart at_) with
      | exhausted => exact absurd result answers
      | answered matched slots left =>
          cases matched with
          | true => rfl
          | false =>
              rw [result] at within
              exact ih within
      | outsideSubject => rfl
      | outsideProgram => rfl

def MissesAt (regex : Regex) (subject : List UInt8) (at_ : Nat) : Prop :=
  ∃ steps slots left, runMatch regex subject steps (matchStart at_) = .answered false slots left

def Tries (regex : Regex) (subject : List UInt8) (start place : Nat) : Prop :=
  start ≤ place ∧ place ≤ subject.length ∧
    ∀ earlier, start ≤ earlier → earlier < place → MissesAt regex subject earlier

theorem searchFrom_ends {places start : Nat} (inside : start + places ≤ subject.length + 1)
    (advances : ∀ place, Tries regex subject start place → Advances regex subject place) :
    ∃ steps, searchFrom regex subject places start steps ≠ .outOfSteps := by
  induction places generalizing start with
  | zero => exact ⟨0, nofun⟩
  | succ places ih =>
      have first : Tries regex subject start start :=
        ⟨Nat.le_refl _, by omega, fun _ low high => absurd low (Nat.not_le.mpr high)⟩
      obtain ⟨steps, ended⟩ := matchAfter_ends (by omega) (advances start first)
      have answers := runMatch_of_matchAfter ended
      cases result : runMatch regex subject steps (matchStart start) with
      | exhausted => exact absurd result answers
      | answered matched slots left =>
          cases matched with
          | true =>
              refine ⟨steps, ?_⟩
              rw [searchFrom, result]
              nofun
          | false =>
              have misses : MissesAt regex subject start := ⟨steps, slots, left, result⟩
              obtain ⟨rest, found⟩ := @ih (start + 1) (by omega) (by
                intro place tried
                apply advances place
                refine ⟨by have := tried.1; omega, tried.2.1, ?_⟩
                intro earlier low high
                rcases Nat.eq_or_lt_of_le low with rfl | later
                · exact misses
                · exact tried.2.2 earlier later high)
              refine ⟨steps + rest, ?_⟩
              rw [searchFrom, runMatch_more answers, result]
              show searchFrom regex subject places (start + 1) (left + rest) ≠ .outOfSteps
              rw [Nat.add_comm left, searchFrom_more found]
              exact found
      | outsideSubject =>
          refine ⟨steps, ?_⟩
          rw [searchFrom, result]
          nofun
      | outsideProgram =>
          refine ⟨steps, ?_⟩
          rw [searchFrom, result]
          nofun

end

/-- A search whose matches advance has a result that no greater budget changes. -/
theorem csRegexSearch_ends (regex : Regex) (subject : List UInt8) (start : Nat)
    (advances : ∀ place, Tries regex subject start place → Advances regex subject place) :
    ∃ steps result, result ≠ .outOfSteps ∧
      ∀ more, searchFrom regex subject (subject.length + 1 - start) start (steps + more) =
        result := by
  by_cases inside : start ≤ subject.length
  · obtain ⟨steps, ends⟩ := @searchFrom_ends regex subject (subject.length + 1 - start) start
      (by omega) advances
    exact ⟨steps, _, ends, searchFrom_more ends⟩
  · have nowhere : subject.length + 1 - start = 0 := by omega
    rw [nowhere]
    exact ⟨0, .missing, nofun, fun _ => rfl⟩

/-! ### Witnesses -/

/-- Whether a match ends in so many steps, and is never stuck on the way. -/
def advancing (regex : Regex) (subject : List UInt8) : Nat → Traced LoopNote → Bool
  | 0, _ => false
  | steps + 1, traced =>
      !traced.frame.now.stuck &&
        match tracedMatch loopTrace regex subject traced with
        | .running next => advancing regex subject steps next
        | _ => true

theorem moves_of_advancing {regex : Regex} {subject : List UInt8} {bound : Nat}
    {traced : Traced LoopNote} (passes : advancing regex subject bound traced = true)
    (steps : Nat) (state : Traced LoopNote)
    (reached : tracedAfter loopTrace regex subject steps traced = some state) :
    state.frame.now.stuck = false := by
  induction bound generalizing steps traced with
  | zero => cases passes
  | succ bound ih =>
      rw [advancing, Bool.and_eq_true] at passes
      cases steps with
      | zero =>
          cases reached
          simpa using passes.1
      | succ steps =>
          have later := passes.2
          rw [tracedAfter] at reached
          cases stepped : tracedMatch loopTrace regex subject traced with
          | running next =>
              rw [stepped] at reached later
              exact ih later steps reached
          | _ =>
              rw [stepped] at reached
              cases reached

/-- Every turn of the repetition takes a byte, also where the search backtracks. -/
theorem csRegexSearch_ends_repetition :
    ∃ regex, csRegexCompile (ascii "(a|bc)*$") noFlags = .ok regex ∧
      ∃ steps result, result ≠ .outOfSteps ∧
        ∀ more, searchFrom regex (ascii "abca") (4 + 1 - 0) 0 (steps + more) = result := by
  have passes : (csRegexCompile (ascii "(a|bc)*$") noFlags).toOption.any (fun regex =>
      (List.range 5).all (fun place =>
        advancing regex (ascii "abca") 60 (tracedStart (startNote place) place))) = true := by
    decide
  cases accepted : csRegexCompile (ascii "(a|bc)*$") noFlags with
  | error failure =>
      rw [accepted] at passes
      cases passes
  | ok regex =>
      rw [accepted] at passes
      refine ⟨regex, rfl, csRegexSearch_ends regex (ascii "abca") 0 ?_⟩
      intro place tried
      have inside : place ≤ 4 := tried.2.1
      exact moves_of_advancing
        (List.all_eq_true.mp passes place (List.mem_range.mpr (by omega)))

/-! ### A search that does not end -/

section

variable {regex : Regex} {subject : List UInt8}

theorem runMatch_after {steps : Nat} {config reached : Config}
    (ran : matchAfter regex subject steps config = some reached) (more : Nat) :
    runMatch regex subject (steps + more) config = runMatch regex subject more reached := by
  induction steps generalizing config with
  | zero =>
      cases ran
      rw [Nat.zero_add]
  | succ steps ih =>
      rw [matchAfter] at ran
      rw [Nat.succ_add, runMatch]
      cases stepped : stepMatch regex subject config with
      | running next =>
          rw [stepped] at ran
          exact ih ran
      | _ =>
          rw [stepped] at ran
          cases ran

theorem runMatch_returns {returns : Config → Prop}
    (turn : ∀ config, returns config → ∃ steps next,
      matchAfter regex subject (steps + 1) config = some next ∧ returns next)
    (budget : Nat) {config : Config} (here : returns config) :
    runMatch regex subject budget config = .exhausted := by
  induction budget using Nat.strong_induction_on generalizing config with
  | _ budget ih =>
      obtain ⟨steps, next, ran, again⟩ := turn config here
      by_cases enough : steps + 1 ≤ budget
      · obtain ⟨rest, rfl⟩ := Nat.exists_eq_add_of_le enough
        rw [runMatch_after ran]
        exact ih rest (by omega) again
      · by_contra answers
        have whole := runMatch_more answers (steps + 1 - budget)
        have all : budget + (steps + 1 - budget) = steps + 1 + 0 := by omega
        rw [all, runMatch_after ran] at whole
        cases result : runMatch regex subject budget config with
        | exhausted => exact answers result
        | _ =>
            rw [result] at whole
            cases whole

end

/-- The head of the outer repetition of `(?:a*)*b` in front of the `b`. -/
def AtHead (config : Config) : Prop :=
  config.frame.pc = 1 ∧ config.frame.sp = 0

/-- The two repetitions of `(?:a*)*b`, as they are compiled. -/
def Nested (regex : Regex) : Prop :=
  regex.code[1]? = some { op := .split, x := 2, y := 6 } ∧
    regex.code[2]? = some { op := .split, x := 3, y := 5 } ∧
    regex.code[3]? = some { op := .char, x := 97, y := 0 } ∧
    regex.code[5]? = some { op := .jump, x := 1, y := 0 }

instance (regex : Regex) : Decidable (Nested regex) :=
  inferInstanceAs (Decidable (_ ∧ _ ∧ _ ∧ _))

instance (config : Config) : Decidable (AtHead config) :=
  inferInstanceAs (Decidable (_ ∧ _))

theorem head_returns {regex : Regex} (nested : Nested regex) (config : Config)
    (here : AtHead config) :
    ∃ steps next, matchAfter regex (ascii "b") (steps + 1) config = some next ∧
      AtHead next := by
  obtain ⟨split, inner, char, round⟩ := nested
  obtain ⟨⟨pc, sp, threads, trail, stopOp⟩, callers, slots⟩ := config
  obtain ⟨rfl, rfl⟩ : pc = 1 ∧ sp = 0 := here
  have first : stepMatch regex (ascii "b") ⟨⟨1, 0, threads, trail, stopOp⟩, callers, slots⟩ =
      .running ⟨⟨2, 0, ⟨6, 0, trail.length⟩ :: threads, trail, stopOp⟩, callers, slots⟩ := by
    rw [stepMatch, split]
    rfl
  have second : stepMatch regex (ascii "b")
      ⟨⟨2, 0, ⟨6, 0, trail.length⟩ :: threads, trail, stopOp⟩, callers, slots⟩ =
      .running ⟨⟨3, 0, ⟨5, 0, trail.length⟩ :: ⟨6, 0, trail.length⟩ :: threads, trail, stopOp⟩,
        callers, slots⟩ := by
    rw [stepMatch, inner]
    rfl
  have third : stepMatch regex (ascii "b")
      ⟨⟨3, 0, ⟨5, 0, trail.length⟩ :: ⟨6, 0, trail.length⟩ :: threads, trail, stopOp⟩,
        callers, slots⟩ =
      .running ⟨⟨5, 0, ⟨6, 0, trail.length⟩ :: threads, trail, stopOp⟩, callers, slots⟩ := by
    rw [stepMatch, char]
    show backtrack _ slots callers = _
    cases callers with
    | nil => simp only [backtrack, unwind_same]
    | cons caller callers => simp only [backtrack, unwind_same]
  have last : stepMatch regex (ascii "b")
      ⟨⟨5, 0, ⟨6, 0, trail.length⟩ :: threads, trail, stopOp⟩, callers, slots⟩ =
      .running ⟨⟨1, 0, ⟨6, 0, trail.length⟩ :: threads, trail, stopOp⟩, callers, slots⟩ := by
    rw [stepMatch, round]
    rfl
  refine ⟨3, ⟨⟨1, 0, ⟨6, 0, trail.length⟩ :: threads, trail, stopOp⟩, callers, slots⟩, ?_,
    rfl, rfl⟩
  simp only [matchAfter, first, second, third, last]

/-- The inner repetition is passed without a byte, so the outer one goes round for ever. -/
theorem empty_turns_never_end :
    ¬∀ (pattern : List UInt8) (flags : ReFlags) (regex : Regex) (subject : List UInt8)
      (start : Nat), csRegexCompile pattern flags = .ok regex → start ≤ subject.length →
      ∃ steps, searchFrom regex subject (subject.length + 1 - start) start steps ≠
        .outOfSteps := by
  intro claim
  obtain ⟨regex, config, accepted, ran, tests⟩ := reached_of_reaches "(?:a*)*b" "b" 0 1
    (fun regex config => decide (Nested regex ∧ AtHead config)) (by decide)
  obtain ⟨nested, here⟩ := of_decide_eq_true tests
  obtain ⟨steps, ends⟩ := claim _ _ regex (ascii "b") 0 accepted (by decide)
  apply ends
  have never : runMatch regex (ascii "b") steps (matchStart 0) = .exhausted := by
    cases steps with
    | zero => rfl
    | succ steps =>
        rw [Nat.add_comm, runMatch_after ran]
        exact runMatch_returns (head_returns nested) steps here
  show searchFrom regex (ascii "b") (1 + 1) 0 steps = _
  rw [searchFrom, never]

end CScript
