/-
What one turn of the matcher can do.

The instruction, the cursor and the slots decide on a move; the alternatives that
pend and the calls that wait only decide what becomes of it.  So a call runs the same
way on any stack, until it answers to the call below it.
-/

import CScript.Regex.Match

namespace CScript

/-! ### Moves -/

inductive Move where
  | goOn (pc : Nat) (sp : Int)
  | fail
  | record (slot : Nat)
  | fork (inst : ReInst)
  | look (inst : ReInst) (behind : Option Int)
  | stop (op : ReOp)
  | outsideSubject
  | outsideProgram

def Move.ofStep : MatchStep → Move
  | .running next => .goOn next.frame.pc next.frame.sp
  | .finished _ _ _ => .fail
  | .outsideSubject => .outsideSubject
  | .outsideProgram => .outsideProgram

/-- A call with nothing pending and nothing below it. -/
def alone (pc : Nat) (sp : Int) (slots : Slots) : Config :=
  { frame := newActivation pc sp .match_, callers := [], slots := slots }

def Config.perform (config : Config) : Move → MatchStep
  | .goOn pc sp => .running { config with frame := { config.frame with pc := pc, sp := sp } }
  | .fail => backtrack config.frame config.slots config.callers
  | .record slot => stepSave config slot
  | .fork inst => stepSplit config inst
  | .look inst behind => stepLook config inst behind
  | .stop op => stepEnd config op
  | .outsideSubject => .outsideSubject
  | .outsideProgram => .outsideProgram

section

variable (regex : Regex) (subject : List UInt8)

def moveOf (pc : Nat) (sp : Int) (slots : Slots) : Move :=
  match regex.code[pc]? with
  | none => .outsideProgram
  | some inst =>
      match inst.op with
      | .save => .record inst.x
      | .split => .fork inst
      | .look => .look inst none
      | .lookbehind => .look inst (some sp)
      | .lookEnd => .stop .lookEnd
      | .match_ => .stop .match_
      | _ => .ofStep (stepInst regex subject (alone pc sp slots) inst)

abbrev Config.move (config : Config) : Move :=
  moveOf regex subject config.frame.pc config.frame.sp config.slots

end

section

variable {regex : Regex} {subject : List UInt8}

def Moves (step : Config → MatchStep) : Prop :=
  ∀ config : Config, step config =
    config.perform (.ofStep (step (alone config.frame.pc config.frame.sp config.slots)))

theorem backtrack_pc (frame : Activation) (pc : Nat) (slots : Slots) (callers : List Caller) :
    backtrack { frame with pc := pc } slots callers = backtrack frame slots callers := by
  cases callers with
  | nil => rw [backtrack, backtrack]
  | cons caller callers => rw [backtrack, backtrack]

theorem proceed_moves (config : Config) (alive : Bool) (sp : Int) :
    proceed config alive sp = config.perform
      (.ofStep (proceed (alone config.frame.pc config.frame.sp config.slots) alive sp)) := by
  cases alive with
  | true => rfl
  | false =>
      rw [proceed, if_neg nofun, backtrack_pc]
      rfl

theorem takeByte_moves (accepts : UInt8 → Bool) :
    Moves (fun config => takeByte subject config accepts) := by
  intro config
  dsimp only [takeByte, alone, newActivation]
  split
  · exact proceed_moves config false _
  · split
    · rfl
    · exact proceed_moves config _ _

theorem takeAny_moves : Moves (takeAny regex subject) := by
  intro config
  unfold takeAny
  split
  · exact proceed_moves config _ _
  · exact takeByte_moves _ config

theorem stepBackref_moves (group : Nat) :
    Moves (fun config => stepBackref regex subject config group) := by
  intro config
  dsimp only [stepBackref, alone, newActivation]
  split
  · exact proceed_moves config true _
  · split
    · exact proceed_moves config false _
    · split
      · rfl
      · exact proceed_moves config _ _

theorem stepAssert_moves (holds : Int → Option Bool) :
    Moves (fun config => stepAssert config (holds config.frame.sp)) := by
  intro config
  dsimp only [stepAssert, alone, newActivation]
  split
  · rfl
  · exact proceed_moves config _ _

theorem stepMatch_perform (config : Config) :
    stepMatch regex subject config = config.perform (config.move regex subject) := by
  unfold stepMatch Config.move moveOf
  cases here : regex.code[config.frame.pc]? with
  | none => rfl
  | some inst =>
      dsimp only
      cases op : inst.op <;> simp only [stepInst, op]
      case char => exact takeByte_moves _ config
      case any => exact takeAny_moves config
      case class_ =>
        split
        · rfl
        · exact takeByte_moves _ config
      case split => rfl
      case jump => rfl
      case save => rfl
      case assertBol => exact stepAssert_moves (assertBol regex subject) config
      case assertEol => exact stepAssert_moves (assertEol regex subject) config
      case assertWord =>
        exact stepAssert_moves (fun sp => assertWord subject sp (inst.x = 1)) config
      case backref => exact stepBackref_moves inst.x config
      case look => rfl
      case lookbehind => rfl
      case lookEnd => rfl
      case match_ => rfl

/-! ### A call on a stack -/

def Config.on (config : Config) (below : List Caller) : Config :=
  { config with callers := config.callers ++ below }

/-- A call answers to the one below it. -/
def answer (matched : Bool) (endSp : Int) (slots : Slots) : List Caller → MatchStep
  | [] => .finished matched endSp slots
  | caller :: callers =>
      match caller.resume matched endSp slots with
      | .again frame waiting slots =>
          .running { frame := frame, callers := waiting.toList ++ callers, slots := slots }
      | .backtracks frame slots => backtrack frame slots callers

def MatchStep.on (below : List Caller) : MatchStep → MatchStep
  | .running next => .running (next.on below)
  | .finished matched endSp slots => answer matched endSp slots below
  | .outsideSubject => .outsideSubject
  | .outsideProgram => .outsideProgram

theorem succeed_answer (frame : Activation) (slots : Slots) (callers : List Caller) :
    succeed frame slots callers = answer true frame.sp slots callers := by
  cases callers with
  | nil => rfl
  | cons caller callers => rfl

theorem backtrack_on (frame : Activation) (slots : Slots) (callers below : List Caller) :
    backtrack frame slots (callers ++ below) = (backtrack frame slots callers).on below := by
  induction callers generalizing frame slots with
  | nil =>
      rw [List.nil_append]
      obtain ⟨pc, sp, threads, trail, stopOp⟩ := frame
      cases threads with
      | nil => cases below <;> rfl
      | cons thread threads => cases below <;> rfl
  | cons caller callers ih =>
      rw [List.cons_append, backtrack, backtrack]
      cases frame.threads with
      | nil =>
          dsimp only
          cases caller.resume false frame.sp slots with
          | again frame waiting slots =>
              simp only [MatchStep.on, Config.on, List.append_assoc]
          | backtracks frame slots => exact ih frame slots
      | cons thread threads => rfl

theorem answer_on (matched : Bool) (endSp : Int) (slots : Slots) (callers below : List Caller) :
    answer matched endSp slots (callers ++ below) =
      (answer matched endSp slots callers).on below := by
  cases callers with
  | nil => rfl
  | cons caller callers =>
      rw [List.cons_append, answer, answer]
      cases caller.resume matched endSp slots with
      | again frame waiting slots => simp only [MatchStep.on, Config.on, List.append_assoc]
      | backtracks frame slots => exact backtrack_on frame slots callers below

theorem perform_on (config : Config) (move : Move) (below : List Caller) :
    (config.on below).perform move = (config.perform move).on below := by
  cases move with
  | goOn pc sp => rfl
  | fail => exact backtrack_on _ _ _ _
  | record slot => rfl
  | fork inst => rfl
  | look inst behind =>
      simp only [Config.perform, stepLook, Config.on]
      split
      · cases Caller.conclude _ false config.slots with
        | again frame waiting slots => rfl
        | backtracks frame slots => exact backtrack_on _ _ _ _
      · rfl
  | stop op =>
      dsimp only [Config.perform, stepEnd, Config.on]
      by_cases stops : op = config.frame.stopOp
      · rw [if_pos stops, if_pos stops, succeed_answer, succeed_answer]
        exact answer_on _ _ _ _ _
      · rw [if_neg stops, if_neg stops]
        exact backtrack_on _ _ _ _
  | outsideSubject => rfl
  | outsideProgram => rfl

theorem stepMatch_on (config : Config) (below : List Caller) :
    stepMatch regex subject (config.on below) = (stepMatch regex subject config).on below := by
  rw [stepMatch_perform, stepMatch_perform]
  exact perform_on config _ below

end

/-! ### Runs -/

inductive Leads (step : Config → MatchStep) : Config → MatchStep → Prop
  | last (config : Config) : Leads step config (step config)
  | next {config after : Config} {outcome : MatchStep} :
      step config = .running after → Leads step after outcome → Leads step config outcome

section

variable {step : Config → MatchStep}

theorem Leads.trans {config middle : Config} {outcome : MatchStep}
    (first : Leads step config (.running middle)) (second : Leads step middle outcome) :
    Leads step config outcome := by
  generalize reached : MatchStep.running middle = between at first
  induction first with
  | last config => exact .next reached.symm second
  | next stepped _ ih => exact .next stepped (ih reached)

theorem Leads.first {config : Config} {outcome : MatchStep} (leads : Leads step config outcome) :
    step config = outcome ∨ ∃ after, step config = .running after ∧ Leads step after outcome := by
  cases leads with
  | last config => exact .inl rfl
  | next stepped rest => exact .inr ⟨_, stepped, rest⟩

theorem Leads.unique {config : Config} {matched other : Bool} {endSp otherSp : Int}
    {slots otherSlots : Slots} (one : Leads step config (.finished matched endSp slots))
    (two : Leads step config (.finished other otherSp otherSlots)) :
    matched = other ∧ endSp = otherSp := by
  generalize reached : MatchStep.finished matched endSp slots = outcome at one
  induction one with
  | last config =>
      rcases two.first with stepped | ⟨after, stepped, -⟩
      · rw [stepped] at reached
        cases reached
        exact ⟨rfl, rfl⟩
      · rw [stepped] at reached
        cases reached
  | next stepped _ ih =>
      rcases two.first with finished | ⟨after, running, rest⟩
      · rw [stepped] at finished
        cases finished
      · rw [stepped] at running
        cases running
        exact ih rest reached

end

theorem Leads.on {regex : Regex} {subject : List UInt8} {config : Config} {outcome : MatchStep}
    (leads : Leads (stepMatch regex subject) config outcome) (below : List Caller) :
    Leads (stepMatch regex subject) (config.on below) (outcome.on below) := by
  induction leads with
  | last config =>
      rw [← stepMatch_on]
      exact .last _
  | next stepped _ ih =>
      refine .next ?_ ih
      rw [stepMatch_on, stepped]
      rfl

end CScript
