/-
The machine follows the reference.

From a place of the code the machine explores a list of accepted places in
their order of preference; the first one it reaches is its answer, and when
there is none it backtracks with the slots it started from.  The code of a
tree explores the paths of the tree, whatever the code behind it explores.
-/

import CScript.Regex.Reference
import CScript.Regex.Relocation

namespace CScript

/-! ### Folded bytes -/

theorem csRegexClassHas_classAdd (set : ReClass) (byte c : UInt8) :
    csRegexClassHas (classAdd set byte) c = (csRegexClassHas set c || decide (c = byte)) := by
  have small : c.toNat < 256 := c.toNat_lt
  unfold csRegexClassHas classAdd
  rw [BitVec.getLsbD_or, BitVec.getLsbD_shiftLeft, BitVec.getLsbD_one]
  congr 1
  rw [Bool.eq_iff_iff, decide_eq_true_iff, ← UInt8.toNat_inj]
  simp only [small, decide_true, Bool.true_and, Bool.and_eq_true, Bool.not_eq_true',
    decide_eq_false_iff_not, decide_eq_true_eq]
  omega

theorem csRegexClassHas_empty (c : UInt8) : csRegexClassHas emptyClass c = false :=
  BitVec.getLsbD_zero

theorem isLower_iff (c : UInt8) : isLower c = true ↔ 97 ≤ c.toNat ∧ c.toNat ≤ 122 := by
  change (decide ((97 : UInt8) ≤ c) && decide (c ≤ 122)) = true ↔ _
  rw [Bool.and_eq_true, decide_eq_true_iff, decide_eq_true_iff, UInt8.le_iff_toNat_le,
    UInt8.le_iff_toNat_le]
  rfl

theorem isUpper_iff (c : UInt8) : isUpper c = true ↔ 65 ≤ c.toNat ∧ c.toNat ≤ 90 := by
  change (decide ((65 : UInt8) ≤ c) && decide (c ≤ 90)) = true ↔ _
  rw [Bool.and_eq_true, decide_eq_true_iff, decide_eq_true_iff, UInt8.le_iff_toNat_le,
    UInt8.le_iff_toNat_le]
  rfl

theorem csRegexClassHas_foldedByte (byte c : UInt8) :
    csRegexClassHas (foldedByte byte) c = sameByte c byte true := by
  have lower := isLower_iff byte
  have upper := isUpper_iff byte
  have upperHere := isUpper_iff c
  have size := byte.toNat_lt
  have sizeHere := c.toNat_lt
  rw [Bool.eq_iff_iff]
  unfold foldedByte sameByte
  by_cases isL : isLower byte <;> by_cases isU : isUpper byte <;> by_cases isC : isUpper c <;>
    simp [isL, isU, isC, csRegexClassHas_classAdd, csRegexClassHas_empty, ← UInt8.toNat_inj,
      UInt8.toNat_add, UInt8.toNat_sub] at lower upper upperHere ⊢ <;> omega
/-! ### The trail -/

def undo (trail : List TrailEntry) (slots : Slots) : Slots :=
  trail.foldl (fun slots entry => Function.update slots entry.slot entry.value) slots

theorem undo_append (newer older : List TrailEntry) (slots : Slots) :
    undo (newer ++ older) slots = undo older (undo newer slots) :=
  List.foldl_append

theorem unwind_to (newer older : List TrailEntry) (slots : Slots) :
    unwind older.length (newer ++ older) slots = (older, undo newer slots) := by
  induction newer generalizing slots with
  | nil =>
      cases older with
      | nil => rfl
      | cons entry older =>
          rw [List.nil_append, unwind, if_neg (Nat.lt_irrefl _)]
          rfl
  | cons entry newer ih =>
      have above : older.length < (entry :: (newer ++ older)).length := by
        rw [List.length_cons, List.length_append]
        omega
      rw [List.cons_append, unwind, if_pos above, ih]
      rfl

theorem undo_record (place : Place) (slot : Nat) :
    undo [{ slot := slot, value := place.slots slot }] (place.record slot).slots =
      place.slots := by
  unfold undo Place.record
  rw [List.foldl_cons, List.foldl_nil, Function.update_idem, Function.update_eq_self]

/-! ### What the machine explores -/

def machineAt (pc : Nat) (place : Place) (threads : List Thread) (trail : List TrailEntry) :
    Config :=
  { frame := { pc := pc, sp := place.sp, threads := threads, trail := trail, stopOp := .match_ }
    callers := []
    slots := place.slots }

section

variable (regex : Regex) (subject : List UInt8)

inductive Yields : Nat → Place → List Place → Prop
  | moves {pc next : Nat} {place after : Place} {paths : List Place} (more : List TrailEntry)
      (undone : undo more after.slots = place.slots)
      (step : ∀ threads trail, stepMatch regex subject (machineAt pc place threads trail) =
        .running (machineAt next after threads (more ++ trail)))
      (rest : Yields next after paths) : Yields pc place paths
  | fails {pc : Nat} {place : Place}
      (step : ∀ threads trail, stepMatch regex subject (machineAt pc place threads trail) =
        backtrack (machineAt (pc + 1) place threads trail).frame place.slots []) :
      Yields pc place []
  | splits {pc first second : Nat} {place : Place} {preferred other : List Place}
      (here : regex.code[pc]? = some { op := .split, x := first, y := second })
      (one : Yields first place preferred) (two : Yields second place other) :
      Yields pc place (preferred ++ other)
  | accepts {pc : Nat} {place : Place}
      (here : regex.code[pc]? = some { op := .match_, x := 0, y := 0 }) : Yields pc place [place]

/-- The rest of a call after one step. -/
def runAfter (steps : Nat) : MatchStep → MatchResult
  | .running next => runMatch regex subject steps next
  | .finished matched _ slots => .answered matched slots steps
  | .outsideSubject => .outsideSubject
  | .outsideProgram => .outsideProgram

theorem runMatch_succ (steps : Nat) (config : Config) :
    runMatch regex subject (steps + 1) config =
      runAfter regex subject steps (stepMatch regex subject config) := by
  rw [runMatch]
  cases stepMatch regex subject config <;> rfl

/-- The answer is the first place, or the machine goes back to its newest
alternative with the slots as they were. -/
inductive Explored (place : Place) (threads : List Thread) (trail : List TrailEntry) :
    List Place → MatchResult → Prop
  | stopped {paths : List Place} : Explored place threads trail paths .exhausted
  | found (first : Place) (others : List Place) (left : Nat) :
      Explored place threads trail (first :: others) (.answered true first.slots left)
  | back (frame : Activation) (slots : Slots) (more : List TrailEntry) (left : Nat)
      (kept : frame.threads = threads) (grown : frame.trail = more ++ trail)
      (stop : frame.stopOp = .match_) (undone : undo more slots = place.slots) :
      Explored place threads trail []
        (runAfter regex subject left (backtrack frame slots []))

variable {regex subject}

theorem Yields.run {pc : Nat} {place : Place} {paths : List Place}
    (yields : Yields regex subject pc place paths) (threads : List Thread)
    (trail : List TrailEntry) (steps : Nat) :
    Explored regex subject place threads trail paths
      (runMatch regex subject steps (machineAt pc place threads trail)) := by
  induction yields generalizing threads trail steps with
  | moves more undone step rest ih =>
      cases steps with
      | zero => exact .stopped
      | succ steps =>
          rw [runMatch_succ, step]
          generalize reached : runAfter regex subject steps _ = answer
          have explored := ih threads (more ++ trail) steps
          rw [runAfter] at reached
          rw [reached] at explored
          cases explored with
          | stopped => exact .stopped
          | found first others left => exact .found first others left
          | back frame slots newer left kept grown stop before =>
              refine .back frame slots (newer ++ more) left kept ?_ stop ?_
              · rw [grown, List.append_assoc]
              · rw [undo_append, before, undone]
  | fails step =>
      cases steps with
      | zero => exact .stopped
      | succ steps =>
          rw [runMatch_succ, step]
          exact .back _ _ [] steps rfl rfl rfl rfl
  | @splits pc first second place preferred other here one two ihOne ihTwo =>
      cases steps with
      | zero => exact .stopped
      | succ steps =>
          let thread : Thread := { pc := second, sp := place.sp, trail := trail.length }
          have step : stepMatch regex subject (machineAt pc place threads trail) =
              .running (machineAt first place (thread :: threads) trail) := by
            unfold stepMatch
            rw [show (machineAt pc place threads trail).frame.pc = pc from rfl, here]
            rfl
          rw [runMatch_succ, step, runAfter]
          generalize reached : runMatch regex subject steps _ = answer
          have explored := ihOne (thread :: threads) trail steps
          rw [reached] at explored
          cases explored with
          | stopped => exact .stopped
          | found first others left =>
              rw [List.cons_append]
              exact .found first (others ++ other) left
          | back frame slots more left kept grown stop undone =>
              -- The thread of the second arm is the newest.
              have resumed : backtrack frame slots [] =
                  .running (machineAt second place threads trail) := by
                unfold backtrack
                rw [kept]
                simp only [grown, thread, unwind_to, undone]
                unfold machineAt
                cases frame
                cases stop
                rfl
              rw [resumed, List.nil_append]
              exact ihTwo threads trail left
  | @accepts pc place here =>
      cases steps with
      | zero => exact .stopped
      | succ steps =>
          have step : stepMatch regex subject (machineAt pc place threads trail) =
              .finished true place.sp place.slots := by
            unfold stepMatch
            rw [show (machineAt pc place threads trail).frame.pc = pc from rfl, here]
            rfl
          rw [runMatch_succ, step, runAfter]
          exact .found place [] steps

/-! ### Code between two places -/

/-- Code from `low` to `high` explores these paths, each followed by what is
explored from `high`. -/
def Follows (regex : Regex) (subject : List UInt8) (low high : Nat)
    (paths : Place → List Place) : Prop :=
  ∀ (place : Place) (rest : Place → List Place), place.sp ≤ subject.length →
    (∀ after ∈ paths place, Yields regex subject high after (rest after)) →
    Yields regex subject low place ((paths place).flatMap rest)

theorem Follows.congr {low high : Nat} {paths others : Place → List Place}
    (follows : Follows regex subject low high paths) (same : ∀ place, paths place = others place) :
    Follows regex subject low high others := by
  rwa [← funext same]

theorem record_forward (subject : List UInt8) (slot : Nat) :
    Forward subject (fun place => [place.record slot]) := by
  intro place inside after member
  rw [List.mem_singleton.mp member]
  exact ⟨Nat.le_refl _, inside⟩

theorem follows_nothing (pc : Nat) : Follows regex subject pc pc (fun place => [place]) := by
  intro place rest inside next
  rw [List.flatMap_singleton]
  exact next place (List.mem_singleton.mpr rfl)

theorem Follows.seq {low middle high : Nat} {first second : Place → List Place}
    (begun : Follows regex subject low middle first)
    (forward : Forward subject first)
    (ended : Follows regex subject middle high second) :
    Follows regex subject low high (fun place => (first place).flatMap second) := by
  intro place rest inside next
  rw [List.flatMap_assoc]
  refine begun place _ inside (fun between member => ?_)
  refine ended between rest (forward place inside between member).2 (fun after reached => ?_)
  exact next after (List.mem_flatMap.mpr ⟨between, member, reached⟩)

theorem Follows.either {pc first second high : Nat} {preferred other : Place → List Place}
    (here : regex.code[pc]? = some { op := .split, x := first, y := second })
    (one : Follows regex subject first high preferred)
    (two : Follows regex subject second high other) :
    Follows regex subject pc high (fun place => preferred place ++ other place) := by
  intro place rest inside next
  rw [List.flatMap_append]
  refine .splits here (one place rest inside (fun after member => ?_))
    (two place rest inside (fun after member => ?_))
  · exact next after (List.mem_append_left _ member)
  · exact next after (List.mem_append_right _ member)

theorem follows_jump {pc target : Nat}
    (here : regex.code[pc]? = some { op := .jump, x := target, y := 0 }) :
    Follows regex subject pc target (fun place => [place]) := by
  intro place rest inside next
  rw [List.flatMap_singleton]
  refine .moves [] rfl (fun threads trail => ?_) (next place (List.mem_singleton.mpr rfl))
  unfold stepMatch
  rw [show (machineAt pc place threads trail).frame.pc = pc from rfl, here]
  rfl

theorem follows_save {pc slot : Nat}
    (here : regex.code[pc]? = some { op := .save, x := slot, y := 0 }) :
    Follows regex subject pc (pc + 1) (fun place => [place.record slot]) := by
  intro place rest inside next
  rw [List.flatMap_singleton]
  refine .moves [{ slot := slot, value := place.slots slot }] (undo_record place slot)
    (fun threads trail => ?_) (next _ (List.mem_singleton.mpr rfl))
  unfold stepMatch
  rw [show (machineAt pc place threads trail).frame.pc = pc from rfl, here]
  rfl

theorem follows_proceed {pc : Nat} (alive : Place → Bool) (next : Place → Nat)
    (step : ∀ place : Place, place.sp ≤ subject.length → ∀ threads trail,
      stepMatch regex subject (machineAt pc place threads trail) =
        proceed (machineAt pc place threads trail) (alive place) (next place)) :
    Follows regex subject pc (pc + 1)
      (fun place => if alive place then [{ place with sp := next place }] else []) := by
  intro place rest inside reached
  cases lives : alive place with
  | true =>
      simp only [lives, if_true, List.flatMap_singleton, List.mem_singleton, forall_eq]
        at reached ⊢
      have undone : undo [] ({ place with sp := next place } : Place).slots = place.slots := rfl
      refine .moves [] undone (fun threads trail => ?_) reached
      rw [step place inside, lives]
      rfl
  | false =>
      simp only [lives, Bool.false_eq_true, if_false, List.flatMap_nil]
      refine .fails (fun threads trail => ?_)
      rw [step place inside, lives]
      rfl

/-! ### Single instructions -/

theorem byteAt_place (place : Nat) : byteAt subject (place : Int) = subject[place]? := by
  unfold byteAt
  rw [if_neg (by omega), Int.toNat_natCast]

theorem takeByte_at (pc : Nat) (place : Place) (threads : List Thread)
    (trail : List TrailEntry) (accepts : UInt8 → Bool) :
    takeByte subject (machineAt pc place threads trail) accepts =
      proceed (machineAt pc place threads trail) (subject[place.sp]?.any accepts)
        ((place.sp + 1 : Nat) : Int) := by
  have cursor : (machineAt pc place threads trail).frame.sp = place.sp := rfl
  unfold takeByte
  rw [cursor]
  by_cases inside : place.sp < subject.length
  · rw [if_neg (by omega), byteAt_place, List.getElem?_eq_getElem inside, Option.any_some]
    rfl
  · rw [if_pos (by omega), List.getElem?_eq_none (by omega)]
    rfl

theorem takePaths_eq (accepts : UInt8 → Bool) (place : Place) :
    takePaths subject accepts place =
      if subject[place.sp]?.any accepts then [{ place with sp := place.sp + 1 }] else [] := by
  unfold takePaths
  cases subject[place.sp]? with
  | none => rfl
  | some c => rw [Option.any_some]

theorem follows_take {pc : Nat} {accepts : UInt8 → Bool}
    (step : ∀ place threads trail, stepMatch regex subject (machineAt pc place threads trail) =
      takeByte subject (machineAt pc place threads trail) accepts) :
    Follows regex subject pc (pc + 1) (takePaths subject accepts) := by
  have follows : Follows regex subject pc (pc + 1) (fun place =>
      if subject[place.sp]?.any accepts then [{ place with sp := place.sp + 1 }] else []) :=
    follows_proceed (fun place => subject[place.sp]?.any accepts) (fun place => place.sp + 1)
      (fun place inside threads trail => by rw [step, takeByte_at])
  simpa only [← takePaths_eq] using follows

theorem follows_assert {pc : Nat} {holds : Place → Bool}
    (step : ∀ place : Place, place.sp ≤ subject.length → ∀ threads trail,
      stepMatch regex subject (machineAt pc place threads trail) =
        stepAssert (machineAt pc place threads trail) (some (holds place))) :
    Follows regex subject pc (pc + 1) (fun place => assertPaths (holds place) place) :=
  follows_proceed holds (fun place => place.sp) step

theorem stepMatch_at {pc : Nat} {inst : ReInst} (here : regex.code[pc]? = some inst)
    (place : Place) (threads : List Thread) (trail : List TrailEntry) :
    stepMatch regex subject (machineAt pc place threads trail) =
      stepInst regex subject (machineAt pc place threads trail) inst := by
  unfold stepMatch
  rw [show (machineAt pc place threads trail).frame.pc = pc from rfl, here]

theorem follows_class {pc index : Nat} {members : ReClass}
    (here : regex.code[pc]? = some { op := .class_, x := index, y := 0 })
    (known : regex.classes[index]? = some members) :
    Follows regex subject pc (pc + 1) (takePaths subject (csRegexClassHas members)) := by
  refine follows_take (fun place threads trail => ?_)
  rw [stepMatch_at here, stepInst]
  simp only [known]

theorem follows_char {pc : Nat} {byte : UInt8}
    (here : regex.code[pc]? = some { op := .char, x := byte.toNat, y := 0 }) :
    Follows regex subject pc (pc + 1) (takePaths subject (fun c => sameByte c byte false)) := by
  refine follows_take (fun place threads trail => ?_)
  rw [stepMatch_at here, stepInst]
  have same : (fun c : UInt8 => decide (c = UInt8.ofNat byte.toNat)) =
      fun c => sameByte c byte false := by
    funext c
    unfold sameByte
    rw [UInt8.ofNat_toNat]
    by_cases eq : c = byte <;> simp [eq]
  simp only [same]

theorem follows_any {pc : Nat} (here : regex.code[pc]? = some { op := .any, x := 0, y := 0 }) :
    Follows regex subject pc (pc + 1)
      (takePaths subject (fun c => regex.flags.dotAll || c ≠ '\n'.toUInt8)) := by
  refine follows_take (fun place threads trail => ?_)
  rw [stepMatch_at here, stepInst]
  have cursor : (machineAt pc place threads trail).frame.sp = place.sp := rfl
  have flag : regex.flags.dotAll = regex.dotAll := rfl
  unfold takeAny
  cases all : regex.dotAll with
  | false => simp only [flag, all, Bool.false_eq_true, if_false, Bool.false_or]
  | true =>
      simp only [flag, all, Bool.true_or, if_true]
      rw [takeByte_at, cursor]
      by_cases inside : place.sp < subject.length
      · rw [List.getElem?_eq_getElem inside, Option.any_some]
        simp only [Int.ofNat_lt, inside, decide_true]
        rfl
      · rw [List.getElem?_eq_none (Nat.le_of_not_lt inside), Option.any_none]
        simp only [Int.ofNat_lt, inside, decide_false]
        rfl

theorem byteTest_at (inside : Bool) (test : UInt8 → Bool) {place : Nat}
    (within : inside = true → place < subject.length) :
    byteTest subject inside place test = some (inside && subject[place]?.any test) := by
  unfold byteTest
  cases inside with
  | false => rfl
  | true =>
      rw [if_pos rfl, byteAt_place, List.getElem?_eq_getElem (within rfl)]
      rfl

theorem byteTest_before (inside : Bool) (test : UInt8 → Bool) {place : Nat}
    (positive : inside = true → 0 < place) (within : place ≤ subject.length) :
    byteTest subject inside (place - 1) test = some (inside && subject[place - 1]?.any test) := by
  cases inside with
  | false => rfl
  | true =>
      have some_ := positive rfl
      have before : (place : Int) - 1 = (place - 1 : Nat) := by omega
      rw [before]
      exact byteTest_at true test (fun _ => by omega)

theorem any_newline (byte : Option UInt8) :
    byte.any (fun c => c = '\n'.toUInt8) = decide (byte = some '\n'.toUInt8) := by
  cases byte with
  | none => rfl
  | some c => simp

theorem follows_lineStart {pc : Nat}
    (here : regex.code[pc]? = some { op := .assertBol, x := 0, y := 0 }) :
    Follows regex subject pc (pc + 1) (Node.paths regex.flags subject .lineStart) := by
  refine follows_assert (fun place inside threads trail => ?_)
  have cursor : (machineAt pc place threads trail).frame.sp = place.sp := rfl
  have holds : assertBol regex subject place.sp = some (decide (place.sp = 0) ||
      (regex.flags.multiline && decide (subject[place.sp - 1]? = some '\n'.toUInt8))) := by
    unfold assertBol
    by_cases first : place.sp = 0
    · simp [first]
    · rw [if_neg (by omega), byteTest_before _ _ (fun _ => by omega) inside, any_newline]
      simp [first, Regex.flags]
  rw [stepMatch_at here, stepInst]
  simp only [cursor, holds]

theorem follows_lineEnd {pc : Nat}
    (here : regex.code[pc]? = some { op := .assertEol, x := 0, y := 0 }) :
    Follows regex subject pc (pc + 1) (Node.paths regex.flags subject .lineEnd) := by
  refine follows_assert (fun place inside threads trail => ?_)
  have cursor : (machineAt pc place threads trail).frame.sp = place.sp := rfl
  have holds : assertEol regex subject place.sp = some (decide (place.sp = subject.length) ||
      (regex.flags.multiline && decide (subject[place.sp]? = some '\n'.toUInt8))) := by
    unfold assertEol
    by_cases last : place.sp = subject.length
    · simp [last]
    · rw [if_neg (by omega), byteTest_at _ _ (fun _ => by omega), any_newline]
      simp [last, Regex.flags]
  rw [stepMatch_at here, stepInst]
  simp only [cursor, holds]

theorem follows_word {pc : Nat} {positive : Bool}
    (here : regex.code[pc]? =
      some { op := .assertWord, x := if positive then 1 else 0, y := 0 }) :
    Follows regex subject pc (pc + 1) (Node.paths regex.flags subject (.word positive)) := by
  refine follows_assert (fun place inside threads trail => ?_)
  have cursor : (machineAt pc place threads trail).frame.sp = place.sp := rfl
  have wanted : decide ((if positive then 1 else 0) = 1) = positive := by
    cases positive <;> rfl
  have before : byteTest subject (decide (0 < (place.sp : Int))) (place.sp - 1)
      csRegexIsWordByte = some (wordBefore subject place.sp) := by
    rw [byteTest_before _ _ (fun low => by simpa using low) inside]
    simp [wordBefore]
  have after : byteTest subject (decide ((place.sp : Int) < subject.length)) place.sp
      csRegexIsWordByte = some (wordAt subject place.sp) := by
    rw [byteTest_at _ _ (fun low => by simpa using low)]
    unfold wordAt
    by_cases below : place.sp < subject.length
    · simp [below]
    · simp [below]
  have holds : assertWord subject place.sp positive = some (decide
      ((wordBefore subject place.sp != wordAt subject place.sp) = positive)) := by
    unfold assertWord
    rw [before, after]
    rfl
  rw [stepMatch_at here, stepInst]
  simp only [cursor, wanted, holds]

/-! ### Repetition -/

theorem relocated_splitInst (lazy : Bool) (body finish by_ : Nat) :
    (splitInst lazy body finish).relocate by_ = splitInst lazy (body + by_) (finish + by_) := by
  cases lazy <;> rfl

theorem Follows.option {pc body finish : Nat} {lazy : Bool} {more : Place → List Place}
    (here : regex.code[pc]? = some (splitInst lazy body finish))
    (goes : Follows regex subject body finish more) :
    Follows regex subject pc finish
      (fun place => if lazy then place :: more place else more place ++ [place]) := by
  cases lazy with
  | false => exact goes.either here (follows_nothing finish)
  | true => exact (follows_nothing finish).either here goes

section

variable {atom : List ReInst} {base : Nat} {body : Place → List Place}

theorem copies_follow
    (copy : ∀ offset, Holds regex.code (base + offset) (relocated atom offset) →
      Follows regex subject (base + offset) (base + offset + atom.length) body)
    (forward : Forward subject body) (by_ copies offset : Nat)
    (holds : Holds regex.code (base + offset + by_)
      (relocated (copiesCode atom offset copies) by_)) :
    Follows regex subject (base + offset + by_)
      (base + offset + by_ + copies * atom.length) (turns body copies) := by
  induction copies generalizing offset with
  | zero =>
      rw [Nat.zero_mul, Nat.add_zero]
      exact follows_nothing _
  | succ copies ih =>
      rw [copiesCode, relocated_append, relocated_relocated] at holds
      have here : base + (offset + by_) = base + offset + by_ := by omega
      have one := copy (offset + by_) (by rw [here]; exact holds.front)
      have behind := holds.back
      rw [relocated_length] at behind
      have next : base + (offset + atom.length) + by_ = base + offset + by_ + atom.length := by
        omega
      have others := ih (offset + atom.length) (by rw [next]; exact behind)
      have last : base + offset + by_ + atom.length + copies * atom.length =
          base + offset + by_ + (copies + 1) * atom.length := by
        rw [Nat.succ_mul]
        omega
      rw [next, last] at others
      rw [here] at one
      exact one.seq forward others

theorem optional_follow
    (copy : ∀ offset, Holds regex.code (base + offset) (relocated atom offset) →
      Follows regex subject (base + offset) (base + offset + atom.length) body)
    (forward : Forward subject body) (lazy : Bool) (by_ finish optional offset : Nat)
    (fits : finish = base + offset + optional * (atom.length + 1))
    (holds : Holds regex.code (base + offset + by_)
      (relocated (optionalCode atom base lazy finish offset optional) by_)) :
    Follows regex subject (base + offset + by_) (finish + by_) (upTo body lazy optional) := by
  induction optional generalizing offset with
  | zero =>
      rw [fits, Nat.zero_mul, Nat.add_zero]
      exact follows_nothing _
  | succ optional ih =>
      rw [optionalCode, List.cons_append, relocated_cons, relocated_splitInst, relocated_append,
        relocated_relocated] at holds
      have split := holds.head
      have inner := holds.tail
      have here : base + (offset + 1 + by_) = base + offset + by_ + 1 := by omega
      have one := copy (offset + 1 + by_) (by rw [here]; exact inner.front)
      have behind := inner.back
      rw [relocated_length] at behind
      have next : base + (offset + atom.length + 1) + by_ =
          base + offset + by_ + 1 + atom.length := by
        omega
      have others := ih (offset + atom.length + 1)
        (by rw [fits, Nat.succ_mul]; omega) (by rw [next]; exact behind)
      have start : base + offset + 1 + by_ = base + offset + by_ + 1 := by omega
      rw [start] at split
      rw [next] at others
      rw [here] at one
      exact (one.seq forward others).option split

theorem loop_yields {pc finish : Nat} {lazy : Bool} {back : Nat}
    (split : regex.code[pc]? = some (splitInst lazy (pc + 1) finish))
    (one : Follows regex subject (pc + 1) back body)
    (jump : regex.code[back]? = some { op := .jump, x := pc, y := 0 })
    (forward : Forward subject body)
    (takes : ∀ place : Place, place.sp ≤ subject.length → ∀ after ∈ body place,
      after.sp ≠ place.sp)
    (count : Nat) (place : Place) (rest : Place → List Place)
    (inside : place.sp ≤ subject.length) (enough : subject.length - place.sp ≤ count)
    (next : ∀ after ∈ upTo body lazy count place, Yields regex subject finish after (rest after)) :
    Yields regex subject pc place ((upTo body lazy count place).flatMap rest) := by
  induction count generalizing place with
  | zero =>
      have nothing : body place = [] := by
        refine List.eq_nil_iff_forall_not_mem.mpr (fun after member => ?_)
        obtain ⟨low, high⟩ := forward place inside after member
        have moved := takes place inside after member
        omega
      have stays := next place (List.mem_singleton.mpr rfl)
      have turn := one place (fun _ => []) inside (fun after member => by
        rw [nothing] at member
        cases member)
      rw [nothing, List.flatMap_nil] at turn
      rw [upTo, List.flatMap_singleton]
      cases lazy with
      | false => exact .splits split turn stays
      | true =>
          rw [← List.append_nil (rest place)]
          exact .splits split stays turn
  | succ count ih =>
      have stays := next place (by
        unfold upTo
        cases lazy with
        | false => exact List.mem_append_right _ (List.mem_singleton.mpr rfl)
        | true => exact List.mem_cons_self)
      have turn : Yields regex subject (pc + 1) place
          (((body place).flatMap (upTo body lazy count)).flatMap rest) := by
        rw [List.flatMap_assoc]
        refine one place _ inside (fun after member => ?_)
        obtain ⟨low, high⟩ := forward place inside after member
        have moved := takes place inside after member
        have again := ih after high (by omega) (fun last lastMember => next last (by
          have more := List.mem_flatMap.mpr ⟨after, member, lastMember⟩
          unfold upTo
          cases lazy with
          | false => exact List.mem_append_left _ more
          | true => exact List.mem_cons_of_mem _ more))
        have jumps : Follows regex subject back pc (fun place => [place]) := follows_jump jump
        have jumped := jumps after (fun last => (upTo body lazy count last).flatMap rest) high
          (fun last lastMember => by
            rw [List.mem_singleton.mp lastMember]
            exact again)
        rwa [List.flatMap_singleton] at jumped
      rw [upTo]
      cases lazy with
      | false =>
          rw [if_neg Bool.false_ne_true, List.flatMap_append, List.flatMap_singleton]
          exact .splits split turn stays
      | true =>
          rw [if_pos rfl, List.flatMap_cons]
          exact .splits split stays turn

theorem repeated_follow
    (copy : ∀ offset, Holds regex.code (base + offset) (relocated atom offset) →
      Follows regex subject (base + offset) (base + offset + atom.length) body)
    (forward : Forward subject body) (lazy : Bool) (by_ : Nat) {least : Nat} {most : Option Nat}
    (leastFits : least < 2147483648) (mostFits : ∀ bound, most = some bound → bound < 2147483648)
    (takes : most = none → ∀ place : Place, place.sp ≤ subject.length → ∀ after ∈ body place,
      after.sp ≠ place.sp)
    (holds : Holds regex.code (base + by_)
      (relocated (repeatedCode atom base (compiledBounds least most) lazy) by_)) :
    Follows regex subject (base + by_)
      (base + by_ + (repeatedCode atom base (compiledBounds least most) lazy).length)
      (fun place => (turns body least place).flatMap (fun middle => upTo body lazy
        (match most with
          | none => subject.length - middle.sp
          | some most => most - least) middle)) := by
  have copies : (compiledBounds least most).copies = least := by
    unfold Bounds.copies compiledBounds
    rw [cInt_small (by omega) (by omega), Int.toNat_natCast]
  have turned := turns_forward forward least
  rw [repeatedCode_length, copies]
  unfold repeatedCode at holds
  rw [copies, relocated_append] at holds
  have first := copies_follow copy forward by_ least 0 holds.front
  have behind := holds.back
  rw [relocated_length, copiesCode_length] at behind
  refine first.seq turned ?_
  cases most with
  | none =>
      have unbounded : (compiledBounds least none).most = -1 := rfl
      rw [if_pos unbounded] at behind ⊢
      unfold loopCode at behind
      rw [List.cons_append, relocated_cons, relocated_splitInst, relocated_append,
        relocated_relocated, relocated_cons, relocated_nil] at behind
      have split := behind.head
      have inner := behind.tail
      have here : base + (least * atom.length + 1 + by_) =
          base + by_ + least * atom.length + 1 := by omega
      have one := copy (least * atom.length + 1 + by_) (by rw [here]; exact inner.front)
      have jump := inner.back.head
      rw [relocated_length] at jump
      have target : base + least * atom.length + by_ = base + by_ + least * atom.length := by
        omega
      have bodyAt : base + least * atom.length + 1 + by_ =
          base + by_ + least * atom.length + 1 := by omega
      have finish : base + least * atom.length + atom.length + 2 + by_ =
          base + by_ + (least * atom.length + (atom.length + 2)) := by omega
      rw [bodyAt, finish] at split
      rw [here] at one
      have jumps : regex.code[base + by_ + least * atom.length + 1 + atom.length]? =
          some { op := .jump, x := base + by_ + least * atom.length, y := 0 } := by
        rw [jump, ← target]
        rfl
      have start : base + 0 + by_ + least * atom.length =
          base + by_ + least * atom.length := by omega
      rw [start]
      intro place rest inside next
      exact loop_yields split one jumps forward (takes rfl) _ place rest inside (Nat.le_refl _)
        next
  | some most =>
      have small := mostFits most rfl
      have bound : (compiledBounds least (some most)).most = most := by
        simp only [compiledBounds]
        rw [cInt_small (by omega) (by omega)]
      have least_ : (compiledBounds least (some most)).least = least := by
        simp only [compiledBounds]
        rw [cInt_small (by omega) (by omega)]
      have bounded : ¬(compiledBounds least (some most)).most = -1 := by
        rw [bound]
        omega
      have optional : (compiledBounds least (some most)).optional = most - least := by
        unfold Bounds.optional
        rw [bound, least_, cInt_small (by omega) (by omega)]
        omega
      rw [if_neg bounded, optional] at behind ⊢
      have place : base + least * atom.length + by_ = base + by_ + least * atom.length := by
        omega
      have others := optional_follow copy forward lazy by_ _ (most - least)
        (least * atom.length) rfl (by rw [place]; exact behind)
      have start : base + 0 + by_ + least * atom.length =
          base + least * atom.length + by_ := by omega
      have finish : base + least * atom.length + (most - least) * (atom.length + 1) + by_ =
          base + by_ + (least * atom.length + (most - least) * (atom.length + 1)) := by omega
      rw [finish] at others
      rw [start]
      exact others

end

end

/-! ### The code of a tree -/

theorem Emits.follows {regex : Regex} {subject : List UInt8} {node : Node} {base by_ : Nat}
    {block : List ReInst} (emits : Emits regex.flags.ignoreCase regex.classes node base block)
    (holds : Holds regex.code (base + by_) (relocated block by_)) (plain : node.plain = true)
    (fits : node.fits = true) (productive : node.productive regex.flags) :
    Follows regex subject (base + by_) (base + by_ + block.length)
      (node.paths regex.flags subject) := by
  induction node generalizing base by_ block with
  | empty =>
      cases emits
      exact follows_nothing _
  | literal byte =>
      unfold Emits at emits
      change Follows regex subject (base + by_) (base + by_ + block.length)
        (takePaths subject (fun c => sameByte c byte regex.flags.ignoreCase))
      cases folds : regex.flags.ignoreCase with
      | false =>
          rw [folds, if_neg Bool.false_ne_true] at emits
          cases emits
          exact follows_char holds.head
      | true =>
          rw [folds, if_pos rfl] at emits
          obtain ⟨index, rfl, known⟩ := emits
          have folded : csRegexClassHas (foldedByte byte) = fun c => sameByte c byte true :=
            funext (csRegexClassHas_foldedByte byte)
          rw [← folded]
          exact follows_class holds.head known
  | any =>
      cases emits
      exact follows_any holds.head
  | set members =>
      obtain ⟨index, rfl, known⟩ := emits
      exact follows_class holds.head known
  | lineStart =>
      cases emits
      exact follows_lineStart holds.head
  | lineEnd =>
      cases emits
      exact follows_lineEnd holds.head
  | word positive =>
      cases emits
      exact follows_word holds.head
  | backref group => cases plain
  | look behind negated body ih => cases plain
  | group capture body ih =>
      cases capture with
      | none => exact ih emits holds plain fits productive
      | some group =>
          obtain ⟨inner, rfl, bodyEmits⟩ := emits
          rw [relocated_cons, relocated_append] at holds
          have opens := holds.head
          have behind := holds.tail
          have place : base + 1 + by_ = base + by_ + 1 := by omega
          have middle := ih bodyEmits (by rw [place]; exact behind.front) plain fits productive
          have closes := behind.back.head
          rw [relocated_length] at closes
          rw [place] at middle
          have ends := middle.seq (body.paths_forward _ _) (follows_save closes)
          have high : base + by_ + ({ op := .save, x := group * 2, y := 0 } ::
              (inner ++ [{ op := .save, x := group * 2 + 1, y := 0 }]) : List ReInst).length =
                base + by_ + 1 + inner.length + 1 := by
            simp only [List.length_cons, List.length_append, List.length_nil]
            omega
          rw [high]
          refine ((follows_save opens).seq (record_forward subject _) ends).congr (fun place => ?_)
          rw [List.flatMap_singleton, ← List.map_eq_flatMap]
          rfl
  | sequence first rest ihFirst ihRest =>
      obtain ⟨front, back, rfl, firstEmits, restEmits⟩ := emits
      obtain ⟨firstPlain, restPlain⟩ := Bool.and_eq_true_iff.mp plain
      obtain ⟨firstFits, restFits⟩ := Bool.and_eq_true_iff.mp fits
      obtain ⟨firstTakes, restTakes⟩ := productive
      rw [relocated_append] at holds
      have behind := holds.back
      have place : base + front.length + by_ = base + by_ + front.length := by omega
      rw [relocated_length] at behind
      have one := ihFirst firstEmits holds.front firstPlain firstFits firstTakes
      have two := ihRest restEmits (by rw [place]; exact behind) restPlain restFits restTakes
      rw [place, Nat.add_assoc (base + by_), ← List.length_append] at two
      exact one.seq (first.paths_forward _ _) two
  | alternate left right ihLeft ihRight =>
      obtain ⟨front, back, rfl, leftEmits, rightEmits⟩ := emits
      obtain ⟨leftPlain, rightPlain⟩ := Bool.and_eq_true_iff.mp plain
      obtain ⟨leftFits, rightFits⟩ := Bool.and_eq_true_iff.mp fits
      obtain ⟨leftTakes, rightTakes⟩ := productive
      rw [relocated_cons, relocated_append, relocated_relocated, relocated_cons] at holds
      have split := holds.head
      have inner := holds.tail
      have leftAt : base + (1 + by_) = base + by_ + 1 := by omega
      have one := ihLeft leftEmits (by rw [leftAt]; exact inner.front) leftPlain leftFits
        leftTakes
      have behind := inner.back
      rw [relocated_length] at behind
      have rightAt : base + front.length + 2 + by_ = base + by_ + 1 + front.length + 1 := by
        omega
      have two := ihRight rightEmits (by rw [rightAt]; exact behind.tail) rightPlain rightFits
        rightTakes
      have high : base + by_ + ({ op := .split, x := base + 1, y := base + front.length + 2 } ::
          (relocated front 1 ++
            { op := .jump, x := base + front.length + 2 + back.length, y := 0 } :: back) :
              List ReInst).length = base + front.length + 2 + by_ + back.length := by
        simp only [List.length_cons, List.length_append, relocated_length]
        omega
      have splits : regex.code[base + by_]? =
          some { op := .split, x := base + (1 + by_), y := base + front.length + 2 + by_ } := by
        rw [split, ← Nat.add_assoc base]
        rfl
      have jumps : regex.code[base + by_ + 1 + front.length]? =
          some { op := .jump, x := base + front.length + 2 + by_ + back.length, y := 0 } := by
        have target : base + front.length + 2 + by_ + back.length =
            base + front.length + 2 + back.length + by_ := by omega
        rw [behind.head, target]
        rfl
      have leftEnd : base + (1 + by_) + front.length = base + by_ + 1 + front.length := by omega
      rw [leftEnd] at one
      rw [high]
      refine (Follows.either splits (one.seq (left.paths_forward _ _) (follows_jump jumps))
        two).congr (fun place => ?_)
      rw [List.flatMap_singleton']
      rfl
  | repeated body least most lazy ih =>
      obtain ⟨atom, codeEq, bodyEmits⟩ := emits
      rw [codeEq] at holds ⊢
      simp only [Node.fits, Bool.and_eq_true, decide_eq_true_eq] at fits
      obtain ⟨⟨leastFits, mostFits⟩, bodyFits⟩ := fits
      obtain ⟨takes, bodyTakes⟩ := productive
      refine repeated_follow (fun offset there => ?_) (body.paths_forward _ _) lazy by_
        leastFits (fun bound written => ?_)
        (fun unbounded place inside after member stays => ?_) holds
      · exact ih bodyEmits there plain bodyFits bodyTakes
      · rw [written, Option.all_some] at mostFits
        exact of_decide_eq_true mostFits
      · exact takes unbounded ⟨subject, place, after, inside, member, stays⟩

/-! ### The whole search -/

def SearchResult.ofSpans (regex : Regex) : Option (Nat → Int × Int) → SearchResult
  | none => .missing
  | some spans => .found { groups := (List.range regex.groupCount).map spans }

section

variable {pattern : List UInt8} {regex : Regex} {tree : Node} {block : List ReInst}

theorem Compiled.yields (compiled : Compiled pattern regex.flags regex tree block)
    (plain : tree.plain = true) (fits : tree.fits = true)
    (productive : tree.productive regex.flags) {subject : List UInt8} {place : Place}
    (inside : place.sp ≤ subject.length) :
    Yields regex subject 0 place
      ((tree.paths regex.flags subject (place.record 0)).map (fun path => path.record 1)) := by
  have holds : Holds regex.code 0 ({ op := .save, x := 0, y := 0 } :: (block ++
      [{ op := .save, x := 1, y := 0 }, { op := .match_, x := 0, y := 0 }])) := by
    refine ⟨[], [], ?_, rfl⟩
    rw [compiled.code, List.append_nil, List.nil_append]
  have behind := holds.tail
  have body : Follows regex subject (1 + 0) (1 + 0 + block.length)
      (tree.paths regex.flags subject) :=
    compiled.emits.follows (by rw [relocated_zero]; exact behind.front) plain fits productive
  have closes := behind.back
  have accepted := closes.tail.head
  have whole : Follows regex subject 0 (1 + 0 + block.length + 1) (fun place =>
      (tree.paths regex.flags subject (place.record 0)).map (fun path => path.record 1)) := by
    refine ((follows_save holds.head).seq (record_forward subject 0)
      (body.seq (tree.paths_forward _ _) (follows_save closes.head))).congr (fun place => ?_)
    rw [List.flatMap_singleton, ← List.map_eq_flatMap]
  have yields := whole place (fun path => [path]) inside (fun after member => .accepts accepted)
  rwa [List.flatMap_singleton'] at yields

theorem Compiled.runMatch_answers (compiled : Compiled pattern regex.flags regex tree block)
    (plain : tree.plain = true) (fits : tree.fits = true)
    (productive : tree.productive regex.flags) {subject : List UInt8} {at_ : Nat}
    (inside : at_ ≤ subject.length) (steps : Nat) :
    runMatch regex subject steps (matchStart at_) = .exhausted ∨
      ∃ matched slots left,
        runMatch regex subject steps (matchStart at_) = .answered matched slots left ∧
        referenceAt regex.flags subject tree at_ =
          if matched then some (fun group => (slots (group * 2), slots (group * 2 + 1)))
          else none := by
  let place : Place := { sp := at_, slots := fun _ => -1 }
  have yields : Yields regex subject 0 place
      ((tree.paths regex.flags subject (place.record 0)).map (fun path => path.record 1)) :=
    compiled.yields plain fits productive inside
  have explored := yields.run [] [] steps
  have start : machineAt 0 place [] [] = matchStart at_ := rfl
  rw [start] at explored
  unfold referenceAt
  generalize runMatch regex subject steps (matchStart at_) = answer at explored ⊢
  cases found : tree.paths regex.flags subject (place.record 0) with
  | nil =>
      rw [found, List.map_nil] at explored
      cases explored with
      | stopped => exact Or.inl rfl
      | back frame slots more left kept grown stop undone =>
          refine Or.inr ⟨false, slots, left, ?_, rfl⟩
          unfold backtrack
          rw [kept]
          rfl
  | cons first others =>
      rw [found, List.map_cons] at explored
      cases explored with
      | stopped => exact Or.inl rfl
      | found _ _ left => exact Or.inr ⟨true, (first.record 1).slots, left, rfl, rfl⟩

theorem Compiled.searchFrom_reference (compiled : Compiled pattern regex.flags regex tree block)
    (plain : tree.plain = true) (fits : tree.fits = true)
    (productive : tree.productive regex.flags) {subject : List UInt8} {places at_ steps : Nat}
    (inside : at_ + places ≤ subject.length + 1)
    (within : searchFrom regex subject places at_ steps ≠ .outOfSteps) :
    searchFrom regex subject places at_ steps =
      .ofSpans regex (referenceFrom regex.flags subject tree places at_) := by
  induction places generalizing at_ steps with
  | zero => rfl
  | succ places ih =>
      rw [searchFrom] at within ⊢
      rw [referenceFrom]
      have start : at_ ≤ subject.length := by omega
      rcases compiled.runMatch_answers plain fits productive start steps with
        stopped | ⟨matched, slots, left, ran, reference⟩
      · rw [stopped] at within
        exact absurd rfl within
      · rw [ran] at within ⊢
        rw [reference]
        cases matched with
        | true => rfl
        | false => exact ih (by omega) within

end

/-- A pattern whose written bounds fit an `int` finds what the reference finds,
unless the budget ends. -/
theorem csRegexSearch_reference {pattern : List UInt8} {flags : ReFlags} {regex : Regex}
    {tree : Node} (accepted : csRegexCompile pattern flags = .ok regex)
    (parsed : patternTree pattern flags.ignoreCase = some tree) (plain : tree.plain = true)
    (fits : tree.fits = true) (productive : tree.productive flags) (subject : List UInt8)
    (start : Nat) (within : csRegexSearch regex subject start ≠ .outOfSteps) :
    csRegexSearch regex subject start =
      .ofSpans regex (referenceSearch flags subject tree start) := by
  obtain ⟨same, block, compiled⟩ := csRegexCompile_compiled accepted
  rw [compiled.parsed] at parsed
  cases parsed
  obtain rfl := compiled.flags
  by_cases inside : start ≤ subject.length + 1
  · exact compiled.searchFrom_reference plain fits productive (by omega) within
  · have nowhere : subject.length + 1 - start = 0 := by omega
    unfold csRegexSearch referenceSearch
    rw [nowhere]
    rfl

private def finds (pattern subject : String) (test : Regex → Node → Bool) (found : SearchResult) :
    Bool :=
  (csRegexCompile (ascii pattern) noFlags).toOption.any (fun regex =>
    (patternTree (ascii pattern) false).any (fun tree => tree.plain && tree.loopsConsume &&
      test regex tree) && csRegexSearch regex (ascii subject) 0 = found)

private theorem found_of_finds {pattern subject : String} {test : Regex → Node → Bool}
    {found : SearchResult} (passes : finds pattern subject test found = true) :
    ∃ regex tree, csRegexCompile (ascii pattern) noFlags = .ok regex ∧
      patternTree (ascii pattern) noFlags.ignoreCase = some tree ∧ tree.plain = true ∧
      tree.productive noFlags ∧ test regex tree = true ∧
      csRegexSearch regex (ascii subject) 0 = found := by
  unfold finds at passes
  cases accepted : csRegexCompile (ascii pattern) noFlags with
  | error failure =>
      rw [accepted] at passes
      cases passes
  | ok regex =>
      rw [accepted] at passes
      obtain ⟨treeTests, ran⟩ := Bool.and_eq_true_iff.mp passes
      obtain ⟨tree, parsed, tests⟩ := (Option.any_eq_true _ _).mp treeTests
      obtain ⟨shape, holds⟩ := Bool.and_eq_true_iff.mp tests
      obtain ⟨plain, loops⟩ := Bool.and_eq_true_iff.mp shape
      exact ⟨regex, tree, rfl, parsed, plain, Node.productive_of_loopsConsume _ loops, holds,
        of_decide_eq_true ran⟩

theorem csRegexSearch_reference_lazily :
    ∃ regex tree, csRegexCompile (ascii "(?:(a|ab)(c|bcd))+?d\x7b0,2\x7d$") noFlags = .ok regex ∧
      patternTree (ascii "(?:(a|ab)(c|bcd))+?d\x7b0,2\x7d$") noFlags.ignoreCase = some tree ∧
      csRegexSearch regex (ascii "xabcdac") 0 =
        .ofSpans regex (referenceSearch noFlags (ascii "xabcdac") tree 0) := by
  obtain ⟨regex, tree, accepted, parsed, plain, productive, fits, found⟩ := found_of_finds
    (show finds "(?:(a|ab)(c|bcd))+?d\x7b0,2\x7d$" "xabcdac" (fun _ tree => tree.fits)
      (.found { groups := [(1, 7), (5, 6), (6, 7)] }) = true by decide +kernel)
  refine ⟨regex, tree, accepted, parsed,
    csRegexSearch_reference accepted parsed plain fits productive (ascii "xabcdac") 0 ?_⟩
  rw [found]
  nofun

/-- The bound is read into an `int` as 2. -/
theorem bound_wraps :
    ¬∀ (pattern : List UInt8) (flags : ReFlags) (regex : Regex) (tree : Node),
      csRegexCompile pattern flags = .ok regex →
      patternTree pattern flags.ignoreCase = some tree → tree.plain = true →
      tree.productive flags → ∀ (subject : List UInt8) (start : Nat),
        csRegexSearch regex subject start ≠ .outOfSteps →
        csRegexSearch regex subject start =
          .ofSpans regex (referenceSearch flags subject tree start) := by
  intro claim
  obtain ⟨regex, tree, accepted, parsed, plain, productive, shape, found⟩ := found_of_finds
    (show finds "a\x7b4294967298\x7d" "aa" (fun _ tree => tree =
      .sequence (.repeated (.literal 97) 4294967298 (some 4294967298) false) .empty)
      (.found { groups := [(0, 2)] }) = true by decide +kernel)
  have same := claim _ _ regex tree accepted parsed plain productive (ascii "aa") 0
    (by rw [found]; nofun)
  have nowhere : ∀ place : Place, place.sp ≤ (ascii "aa").length →
      tree.paths noFlags (ascii "aa") place = [] := by
    intro place inside
    rw [of_decide_eq_true shape]
    have length : (ascii "aa").length = 2 := rfl
    have none_ : turns (Node.paths noFlags (ascii "aa") (.literal 97)) 4294967298 place = [] :=
      turns_short (Node.paths_forward _ _ _)
        (fun place inside after member => Node.consumes_takes rfl inside member) inside
        (by omega)
    simp only [Node.paths] at none_ ⊢
    rw [none_]
    rfl
  have missing : ∀ places at_, at_ + places ≤ (ascii "aa").length + 1 →
      referenceFrom noFlags (ascii "aa") tree places at_ = none := by
    intro places
    induction places with
    | zero => exact fun _ _ => rfl
    | succ places ih =>
        intro at_ inside
        rw [referenceFrom, referenceAt, nowhere _ (by dsimp only [Place.record]; omega)]
        exact ih (at_ + 1) (by omega)
  have places : (ascii "aa").length + 1 - 0 = 3 := rfl
  rw [found, referenceSearch, places, missing 3 0 (Nat.le_refl _)] at same
  cases same

end CScript
