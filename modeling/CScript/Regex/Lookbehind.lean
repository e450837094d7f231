/-
When a lookbehind is right.

It runs its body from every place up to the cursor, the nearest first, and takes the
first match of each run: if that ends elsewhere, the other matches from the same place
are not tried.  A match is sought by a machine that takes an end elsewhere for a
failure and goes back to the newest alternative.
-/

import CScript.Regex.Cursor
import CScript.Regex.Moves

namespace CScript

/-- The call that runs a body from a place. -/
def bodyAt (body : Nat) (start : Int) (slots : Slots) : Config :=
  { frame := newActivation body start .lookEnd, callers := [], slots := slots }

/-- The call that waits for the body of a lookbehind. -/
def waiting (config : Config) (inst : ReInst) (start : Int) : Caller :=
  { frame := config.frame, negated := inst.x ≠ 0, continuation := inst.y
    saved := config.slots, behind := some start }

def concluded (config : Config) (inst : ReInst) (held : Bool) (slots : Slots) : MatchStep :=
  match (waiting config inst config.frame.sp).conclude held slots with
  | .again frame _ slots => .running { frame := frame, callers := config.callers, slots := slots }
  | .backtracks frame slots => backtrack frame slots config.callers

section

variable (regex : Regex) (subject : List UInt8)

/-! ### The loop over start places -/

/-- `held` after the loop that starts at a place, and the slots. -/
inductive Held (body : Nat) (saved : Slots) (sp : Int) : Int → Bool → Slots → Prop
  | here {start : Int} {slots : Slots} :
      Leads (stepMatch regex subject) (bodyAt body start saved) (.finished true sp slots) →
        Held body saved sp start true slots
  | earlier {start endSp : Int} {matched held : Bool} {slots result : Slots} :
      Leads (stepMatch regex subject) (bodyAt body start saved) (.finished matched endSp slots) →
        (matched && decide (endSp = sp)) = false → 0 < start →
          Held body saved sp (start - 1) held result → Held body saved sp start held result
  | nowhere {start endSp : Int} {matched : Bool} {slots : Slots} :
      Leads (stepMatch regex subject) (bodyAt body start saved) (.finished matched endSp slots) →
        (matched && decide (endSp = sp)) = false → start ≤ 0 →
          Held body saved sp start false saved

/-! ### All matches of a body -/

def Answers (body : Nat) (saved : Slots) (start : Int) : Prop :=
  ∃ matched endSp slots, Leads (stepMatch regex subject) (bodyAt body start saved)
    (.finished matched endSp slots)

/-! ### A lookbehind that is right -/

end

section

variable {regex : Regex} {subject : List UInt8}

/-! ### The matcher follows the loop -/

theorem resume_here (caller : Caller) {start : Int} (slots : Slots)
    (behind : caller.behind = some start) :
    caller.resume true caller.frame.sp slots = caller.conclude true slots := by
  unfold Caller.resume
  rw [behind]
  exact if_pos (by simp)

theorem resume_earlier (caller : Caller) {start endSp : Int} {matched : Bool} (slots : Slots)
    (behind : caller.behind = some start)
    (elsewhere : (matched && decide (endSp = caller.frame.sp)) = false) (more : 0 < start) :
    caller.resume matched endSp slots =
      .again (newActivation (caller.frame.pc + 1) (start - 1) .lookEnd)
        (some { caller with behind := some (start - 1) }) caller.saved := by
  unfold Caller.resume
  rw [behind]
  dsimp only
  rw [elsewhere, if_neg nofun, if_pos more]

theorem resume_nowhere (caller : Caller) {start endSp : Int} {matched : Bool} (slots : Slots)
    (behind : caller.behind = some start)
    (elsewhere : (matched && decide (endSp = caller.frame.sp)) = false) (last : start ≤ 0) :
    caller.resume matched endSp slots = caller.conclude false caller.saved := by
  unfold Caller.resume
  rw [behind]
  dsimp only
  rw [elsewhere, if_neg nofun, if_neg (by omega)]

theorem answer_concluded (config : Config) (inst : ReInst) {start : Int} {held matched : Bool}
    {endSp : Int} {slots after : Slots}
    (resumed : (waiting config inst start).resume matched endSp slots =
      (waiting config inst start).conclude held after) :
    answer matched endSp slots (waiting config inst start :: config.callers) =
      concluded config inst held after := by
  rw [answer, resumed]
  unfold concluded waiting Caller.conclude
  dsimp only
  by_cases wanted : held = !decide (inst.x ≠ 0)
  · rw [if_pos wanted]
    rfl
  · rw [if_neg wanted]

theorem Held.leads {config : Config} {inst : ReInst} {start : Int} {held : Bool} {slots : Slots}
    (loop : Held regex subject (config.frame.pc + 1) config.slots config.frame.sp start held
      slots) :
    Leads (stepMatch regex subject)
      ((bodyAt (config.frame.pc + 1) start config.slots).on
        (waiting config inst start :: config.callers)) (concluded config inst held slots) := by
  generalize body : config.frame.pc + 1 = pc at loop
  generalize saved : config.slots = before at loop
  generalize cursor : config.frame.sp = sp at loop
  induction loop with
  | @here start slots ran =>
      have returned := ran.on (waiting config inst start :: config.callers)
      have resumed : (waiting config inst start).resume true sp slots =
          (waiting config inst start).conclude true slots := by
        rw [← cursor]
        exact resume_here _ slots rfl
      rw [MatchStep.on, answer_concluded config inst resumed] at returned
      exact returned
  | @earlier start endSp matched held slots result ran elsewhere more rest ih =>
      have returned := ran.on (waiting config inst start :: config.callers)
      rw [← cursor] at elsewhere
      have resumed := resume_earlier (waiting config inst start) slots rfl elsewhere more
      rw [MatchStep.on, answer, resumed] at returned
      subst body saved
      exact returned.trans ih
  | @nowhere start endSp matched slots ran elsewhere last =>
      have returned := ran.on (waiting config inst start :: config.callers)
      rw [← cursor] at elsewhere
      have resumed := resume_nowhere (waiting config inst start) slots rfl elsewhere last
      rw [MatchStep.on, answer_concluded config inst resumed] at returned
      subst saved
      exact returned

end

end CScript
