/-
Captured variables are shared, over every run of one stack.
-/

import CScript.Runtime.UpvalueMoves
import Mathlib.Logic.Relation

namespace CScript.Upvalues

open Foundation.DescendingList

variable {vm after : VM}

/-! ### Instructions that close upvalues -/

theorem closeUpvalues_capacity (sound : Sound vm) (last : Nat) :
    (closeUpvalues vm last).stackCapacity = vm.stackCapacity := by
  rw [(closeUpvalues_closing sound last).rest]

theorem leaveAt_moves (sound : Sound vm) (last : Nat) (value : Value) :
    Moves vm (leaveAt vm last value) (fun slot => last ≤ slot ∨ vm.stackCapacity ≤ last)
      (fun cell => cell = .slot last) := by
  have closed := closeUpvalues_moves sound last
  have moved := moved_moves (closeUpvalues vm last) last (closeUpvalues vm last).frames
    (closeUpvalues vm last).handlers (closeUpvalues vm last).frame
  have pushed := csVMPush_moves { closeUpvalues vm last with stackTop := last } value
  refine ((closed.trans moved (Or.inl (fun _ => id))).trans pushed ?_).weaken ?_ ?_
  · exact Or.inl (fun _ written => written.elim id id)
  · intro slot
    show _ ↔ _ ∨ (closeUpvalues vm last).stackCapacity ≤ last
    rw [closeUpvalues_capacity sound]
    simp only [never, or_false]
  · intro cell written
    cases written with
    | inl nothing => exact nothing.elim False.elim False.elim
    | inr pushed => exact pushed

theorem leaveAt_sound (sound : Sound vm) (last : Nat) (value : Value) :
    Sound (leaveAt vm last value) := by
  have closed := closeUpvalues_sound sound last
  exact csVMPush_sound (written_sound closed (closeUpvalues vm last).slots last) value

structure Still (before after : VM) : Prop where
  moves : Moves before after never never
  sound : Sound before → Sound after
  locations : ∀ upvalue, (after.upvalues upvalue).location = (before.upvalues upvalue).location

theorem popFrame_still (vm : VM) (frames : List CallFrame) : Still vm (popFrame vm frames) :=
  ⟨moved_moves vm vm.stackTop frames vm.handlers _,
    fun sound => moved_sound sound vm.stackTop frames vm.handlers _, fun _ => rfl⟩

theorem abandonHandlers_still (vm : VM) : Still vm (abandonHandlers vm) :=
  ⟨moved_moves vm vm.stackTop vm.frames _ vm.frame,
    fun sound => moved_sound sound vm.stackTop vm.frames _ vm.frame, fun _ => rfl⟩

theorem takeHandler_still (vm : VM) : Still vm (takeHandler vm) :=
  ⟨moved_moves vm vm.stackTop vm.frames _ vm.frame,
    fun sound => moved_sound sound vm.stackTop vm.frames _ vm.frame, fun _ => rfl⟩

section

variable {first second third : VM} {released : Nat → Prop} {written : Cell → Prop}

theorem Still.precedes (still : Still first second) (moves : Moves second third released written) :
    Moves first third released written :=
  (still.moves.trans moves (Or.inl (fun _ => id))).weaken (fun _ => (iff_of_eq (false_or _)).symm)
    (fun _ either => either.elim False.elim id)

theorem Still.follows (still : Still second third) (moves : Moves first second released written) :
    Moves first third released written :=
  (moves.trans still.moves (Or.inr (fun upvalue _ => still.locations upvalue))).weaken
    (fun _ => (iff_of_eq (or_false _)).symm) (fun _ either => either.elim id False.elim)

end

theorem opReturn_moves (sound : Sound vm) (returned : opReturn vm = some after) :
    Sound after ∧ Moves vm after (fun slot => Releases vm slot .return_)
      (fun cell => Writes vm cell .return_) := by
  unfold opReturn at returned
  split at returned
  · cases returned
  · rename_i callers _
    cases returned
    have abandoned := abandonHandlers_still vm
    have left := leaveAt_moves (abandoned.sound sound) vm.frame.slots (vm.slots (vm.stackTop - 1))
    have popped := popFrame_still
      (leaveAt (abandonHandlers vm) vm.frame.slots (vm.slots (vm.stackTop - 1))) callers
    exact ⟨popped.sound (leaveAt_sound (abandoned.sound sound) _ _),
      popped.follows (abandoned.precedes left)⟩

theorem discardFrames_moves (frames : List CallFrame) (frameCount : Nat) (sound : Sound vm) :
    Sound (discardFrames vm frameCount frames) ∧
      Moves vm (discardFrames vm frameCount frames)
        (fun slot => ∃ frame ∈ frames.take (frames.length - frameCount), frame.slots ≤ slot)
        never ∧
      (discardFrames vm frameCount frames).stackCapacity = vm.stackCapacity := by
  induction frames generalizing vm with
  | nil =>
      refine ⟨moved_sound sound _ _ _ _, ?_, rfl⟩
      refine (moved_moves vm vm.stackTop [] vm.handlers vm.frame).weaken ?_ (fun _ => id)
      intro slot
      refine iff_of_false ?_ id
      rintro ⟨frame, member, _⟩
      rw [List.take_nil] at member
      cases member
  | cons frame callers ih =>
      unfold discardFrames
      by_cases escaped : frameCount < callers.length + 1
      · rw [if_pos escaped]
        have closed := closeUpvalues_sound sound frame.slots
        have rest := ih closed
        refine ⟨rest.1, ?_, rest.2.2.trans (closeUpvalues_capacity sound frame.slots)⟩
        have moves := (closeUpvalues_moves sound frame.slots).trans rest.2.1 (Or.inl (fun _ => id))
        refine moves.weaken ?_ (fun cell => (never_or cell).mp)
        intro slot
        have more : (frame :: callers).length - frameCount = callers.length - frameCount + 1 := by
          rw [List.length_cons]
          omega
        rw [more, List.take_succ_cons]
        simp only [List.mem_cons, exists_eq_or_imp]
      · rw [if_neg escaped]
        refine ⟨moved_sound sound _ _ _ _, ?_, rfl⟩
        refine (moved_moves vm vm.stackTop (frame :: callers) vm.handlers vm.frame).weaken ?_
          (fun _ => id)
        intro slot
        refine iff_of_false ?_ id
        rintro ⟨other, member, _⟩
        have none_ : (frame :: callers).length - frameCount = 0 := by
          rw [List.length_cons]
          omega
        rw [none_, List.take_zero] at member
        cases member

theorem performThrow_moves (sound : Sound vm) (thrown : Value) (baseFrame : Nat) :
    Sound (performThrow vm thrown baseFrame) ∧
      Moves vm (performThrow vm thrown baseFrame)
        (fun slot => Releases vm slot (.throw thrown baseFrame))
        (fun cell => Writes vm cell (.throw thrown baseFrame)) := by
  have still := moved_moves vm vm.stackTop vm.frames vm.handlers vm.frame
  unfold performThrow
  split
  · rename_i no_handlers
    refine ⟨sound, still.weaken (fun slot => iff_of_false ?_ id) (fun _ => False.elim)⟩
    rintro ⟨handler, outer, handlers, _⟩
    rw [no_handlers] at handlers
    cases handlers
  · rename_i handler outer handlers
    by_cases elsewhere : handler.frameCount ≤ baseFrame
    · rw [if_pos elsewhere]
      refine ⟨sound, still.weaken (fun slot => iff_of_false ?_ id) (fun _ => False.elim)⟩
      rintro ⟨other, others, same, here, _⟩
      rw [handlers] at same
      cases same
      exact absurd here (Nat.not_lt_of_le elsewhere)
    · rw [if_neg elsewhere]
      dsimp only
      have taken := takeHandler_still vm
      have discarded := discardFrames_moves vm.frames handler.frameCount (taken.sound sound)
      have popped := popFrame_still
        (discardFrames (takeHandler vm) handler.frameCount vm.frames)
        (discardFrames (takeHandler vm) handler.frameCount vm.frames).frames
      have unwound := popped.sound discarded.1
      have left := leaveAt_moves unwound handler.stackTop thrown
      have moves := (popped.follows (taken.precedes discarded.2.1)).trans left (Or.inl (fun _ => id))
      refine ⟨leaveAt_sound unwound handler.stackTop thrown, moves.weaken ?_ ?_⟩
      · intro slot
        have capacity : (popFrame (discardFrames (takeHandler vm) handler.frameCount vm.frames)
            (discardFrames (takeHandler vm) handler.frameCount vm.frames).frames).stackCapacity =
              vm.stackCapacity := discarded.2.2
        rw [capacity]
        constructor
        · rintro ⟨other, others, same, _, given_up⟩
          rw [handlers] at same
          cases same
          rcases given_up with top | full | frame
          · exact Or.inr (Or.inl top)
          · exact Or.inr (Or.inr full)
          · exact Or.inl frame
        · intro given_up
          refine ⟨handler, outer, handlers, Nat.lt_of_not_le elsewhere, ?_⟩
          rcases given_up with frame | top | full
          · exact Or.inr (Or.inr frame)
          · exact Or.inl top
          · exact Or.inr (Or.inl full)
      · intro cell written
        cases written with
        | inl nothing => exact nothing.elim
        | inr left =>
            refine ⟨handler, ?_, left⟩
            rw [handlers]
            rfl

/-! ### Every instruction -/

theorem csVMPush_rest (vm : VM) (value : Value) :
    (csVMPush vm value).frame = vm.frame ∧ (csVMPush vm value).closures = vm.closures ∧
      (csVMPush vm value).upvalueCount = vm.upvalueCount := by
  unfold csVMPush
  split
  · exact ⟨rfl, rfl, rfl⟩
  · exact ⟨rfl, rfl, rfl⟩

theorem opClosure_moves (sound : Sound vm) {captures : List (Bool × Nat)}
    (made : opClosure vm captures = some after) :
    Sound after ∧ Moves vm after (fun slot => Releases vm slot (.closure captures))
      (fun cell => Writes vm cell (.closure captures)) ∧
    ∀ i index : Nat, captures[i]? = some (true, index) →
      ∃ upvalue, after.upvalueOf vm.closures.length i = some upvalue ∧
        upvalue ∈ after.openUpvalues ∧
          (after.upvalues upvalue).location = .slot (vm.frame.slots + index) := by
  obtain ⟨⟨captured, upvalues⟩, captures_all, same⟩ := Option.map_eq_some_iff.mp made
  have rest := csVMPush_rest vm (.obj (.cell .closure vm.closures.length))
  have pushed := csVMPush_moves vm (.obj (.cell .closure vm.closures.length))
  have all := captureAll_captured captures (csVMPush_sound sound _) captures_all
  have closures : captured.closures = vm.closures := all.rest.2.trans rest.2.1
  have both := (pushed.trans all.moves (Or.inr (fun upvalue bound =>
    congrArg ObjUpvalue.location (all.kept upvalue (rest.2.2 ▸ bound))))).weaken
      (fun _ => (iff_of_eq (or_false _)).symm) (fun _ either => either.elim id False.elim)
  rw [← same]
  refine ⟨⟨all.sound.located, all.sound.descending⟩, ?_, ?_⟩
  · refine { both with closures := ?_, held := ?_ }
    · exact both.closures.trans (List.prefix_append _ _)
    · intro held_before upvalues' made upvalue member
      have held := pushed.held held_before
      cases List.mem_append.mp made with
      | inl before => exact both.held held_before upvalues' before upvalue member
      | inr new =>
          rw [List.mem_singleton.mp new] at member
          exact all.bounded held upvalue member
  · intro i index there
    obtain ⟨upvalue, held, member, location⟩ := all.holds i index there
    rw [rest.1] at location
    refine ⟨upvalue, ?_, member, location⟩
    show ((captured.closures ++ [upvalues])[vm.closures.length]?).bind _ = some upvalue
    rw [← closures, List.getElem?_concat_length]
    exact held

theorem step_moves (sound : Sound vm) {action : Action} (stepped : step vm action = some after) :
    Sound after ∧ Moves vm after (fun slot => Releases vm slot action)
      (fun cell => Writes vm cell action) := by
  cases action with
  | push value =>
      cases stepped
      exact ⟨csVMPush_sound sound value, csVMPush_moves vm value⟩
  | pop count =>
      cases stepped
      exact ⟨moved_sound sound _ _ _ _, moved_moves vm _ _ _ _⟩
  | setLocal index =>
      cases stepped
      exact ⟨written_sound sound _ _, written_moves vm _ _ _⟩
  | closure captures =>
      have moves := opClosure_moves sound stepped
      exact ⟨moves.1, moves.2.1⟩
  | getUpvalue index =>
      obtain ⟨upvalue, _, same⟩ := Option.map_eq_some_iff.mp stepped
      rw [← same]
      exact ⟨csVMPush_sound sound _, csVMPush_moves vm _⟩
  | setUpvalue index =>
      obtain ⟨upvalue, from_closure, same⟩ := Option.map_eq_some_iff.mp stepped
      rw [← same]
      exact ⟨write_sound sound upvalue _, (write_moves vm upvalue _).weaken (fun _ => Iff.rfl)
        (fun _ written => ⟨upvalue, from_closure, written⟩)⟩
  | closeUpvalue =>
      cases stepped
      have closed := closeUpvalues_sound sound (vm.stackTop - 1)
      exact ⟨moved_sound closed _ _ _ _,
        { closeUpvalues_moves sound (vm.stackTop - 1) with }⟩
  | call closure argCount =>
      cases stepped
      exact ⟨moved_sound sound _ _ _ _, moved_moves vm _ _ _ _⟩
  | return_ => exact opReturn_moves sound stepped
  | try_ =>
      cases stepped
      exact ⟨moved_sound sound _ _ _ _, moved_moves vm _ _ _ _⟩
  | endTry =>
      cases stepped
      exact ⟨(takeHandler_still vm).sound sound, (takeHandler_still vm).moves⟩
  | throw thrown baseFrame =>
      cases stepped
      exact performThrow_moves sound thrown baseFrame

/-! ### Only closures make upvalues -/

theorem closeFrom_count (last : Nat) (upvalues : List Nat) (vm : VM) :
    (closeFrom vm last upvalues).upvalueCount = vm.upvalueCount := by
  induction upvalues generalizing vm with
  | nil => rfl
  | cons upvalue rest ih =>
      unfold closeFrom
      split
      · exact ih (closeUpvalue vm upvalue)
      · rfl

theorem leaveAt_count (vm : VM) (last : Nat) (value : Value) :
    (leaveAt vm last value).upvalueCount = vm.upvalueCount :=
  (csVMPush_rest _ value).2.2.trans (closeFrom_count last vm.openUpvalues vm)

theorem discardFrames_count (frames : List CallFrame) (vm : VM) (frameCount : Nat) :
    (discardFrames vm frameCount frames).upvalueCount = vm.upvalueCount := by
  induction frames generalizing vm with
  | nil => rfl
  | cons frame callers ih =>
      unfold discardFrames
      split
      · exact (ih (closeUpvalues vm frame.slots)).trans (closeFrom_count _ _ vm)
      · rfl

theorem step_count {action : Action} (stepped : step vm action = some after)
    (other : ∀ captures, action ≠ .closure captures) : after.upvalueCount = vm.upvalueCount := by
  cases action with
  | closure captures => exact absurd rfl (other captures)
  | push value =>
      cases stepped
      exact (csVMPush_rest vm value).2.2
  | getUpvalue index =>
      obtain ⟨upvalue, _, same⟩ := Option.map_eq_some_iff.mp stepped
      rw [← same]
      exact (csVMPush_rest vm _).2.2
  | setUpvalue index =>
      obtain ⟨upvalue, _, same⟩ := Option.map_eq_some_iff.mp stepped
      rw [← same]
      unfold VM.write
      split <;> rfl
  | closeUpvalue =>
      cases stepped
      exact closeFrom_count _ _ vm
  | return_ =>
      dsimp only [step, opReturn] at stepped
      split at stepped
      · cases stepped
      · cases stepped
        exact leaveAt_count _ _ _
  | throw thrown baseFrame =>
      cases stepped
      unfold performThrow
      split
      · rfl
      · split
        · rfl
        · exact (leaveAt_count _ _ _).trans (discardFrames_count _ _ _)
  | pop count | setLocal index | call closure argCount | try_ | endTry =>
      cases stepped
      rfl

/-! ### Runs -/

def RunsWithout (avoid : VM → Action → VM → Prop) : VM → VM → Prop :=
  Relation.ReflTransGen (fun before after =>
    ∃ action, step before action = some after ∧ ¬avoid before action after)

def initial (slots : Nat → Value) (stackCapacity : Nat) : VM :=
  { slots, stackTop := 0, stackCapacity
    upvalues := fun _ => { location := .closed, closed := .undefined }, upvalueCount := 0
    openUpvalues := [], closures := [], frames := [], handlers := []
    frame := { closure := 0, slots := 0 } }

def Reached (vm : VM) : Prop :=
  ∃ slots stackCapacity, RunsWithout (fun _ _ _ => False) (initial slots stackCapacity) vm

section

variable {avoid : VM → Action → VM → Prop}

theorem RunsWithout.sound (sound : Sound vm) (held : Held vm) (run : RunsWithout avoid vm after) :
    Sound after ∧ Held after := by
  induction run with
  | refl => exact ⟨sound, held⟩
  | tail _ stepped ih =>
      obtain ⟨action, stepped, _⟩ := stepped
      have moves := step_moves ih.1 stepped
      exact ⟨moves.1, moves.2.held ih.2⟩

theorem Reached.sound (reached : Reached vm) : Sound vm ∧ Held vm := by
  obtain ⟨slots, stackCapacity, run⟩ := reached
  refine RunsWithout.sound ?_ (fun _ member => absurd member List.not_mem_nil) run
  exact ⟨fun _ member => absurd member List.not_mem_nil, List.Pairwise.nil⟩

theorem run_survives (sound : Sound vm) (held : Held vm) {upvalue slot : Nat}
    (member : upvalue ∈ vm.openUpvalues)
    (location : (vm.upvalues upvalue).location = .slot slot)
    (run : RunsWithout (fun before action _ => Releases before slot action) vm after) :
    upvalue ∈ after.openUpvalues ∧ (after.upvalues upvalue).location = .slot slot := by
  induction run with
  | refl => exact ⟨member, location⟩
  | tail before stepped ih =>
      obtain ⟨action, stepped, keeps⟩ := stepped
      have moves := (step_moves (RunsWithout.sound sound held before).1 stepped).2
      have there := moves.survives upvalue ih.1 (by
        unfold VM.slotOf
        rw [ih.2]
        exact keeps)
      exact ⟨there.1, there.2.trans ih.2⟩

theorem run_reads (sound : Sound vm) (held : Held vm) {upvalue : Nat}
    (there : upvalue < vm.upvalueCount)
    (run : RunsWithout (fun before action after => Writes before (after.cell upvalue) action)
      vm after) : after.read upvalue = vm.read upvalue ∧ upvalue < after.upvalueCount := by
  induction run with
  | refl => exact ⟨rfl, there⟩
  | tail before stepped ih =>
      obtain ⟨action, stepped, keeps⟩ := stepped
      have moves := (step_moves (RunsWithout.sound sound held before).1 stepped).2
      exact ⟨(moves.reads upvalue ih.2 keeps).trans ih.1, Nat.lt_of_lt_of_le ih.2 moves.counted⟩

theorem run_only (sound : Sound vm) (held : Held vm) {upvalue : Nat}
    (run : RunsWithout avoid vm after) (there : upvalue < vm.upvalueCount) :
    upvalue < after.upvalueCount ∧ (upvalue ∈ after.openUpvalues → upvalue ∈ vm.openUpvalues ∧
      (after.upvalues upvalue).location = (vm.upvalues upvalue).location) := by
  induction run with
  | refl => exact ⟨there, fun member => ⟨member, rfl⟩⟩
  | tail before stepped ih =>
      obtain ⟨action, stepped, _⟩ := stepped
      have moves := (step_moves (RunsWithout.sound sound held before).1 stepped).2
      refine ⟨Nat.lt_of_lt_of_le ih.1 moves.counted, ?_⟩
      intro member
      have last := moves.only upvalue member ih.1
      have first := ih.2 last.1
      exact ⟨first.1, last.2.1.trans first.2⟩

end

/-! ### Captured variables are shared -/

/-- The list descends and no two of it are at one slot; closures that capture one
variable hold one upvalue; what is written through one is read through another
until something else is written there; and no upvalue is open, then or later, at a
slot that was released. -/
structure Sharing (vm : VM) : Prop where
  descending : (vm.openUpvalues.map vm.slotOf).Pairwise (fun left right => right < left)
  shared : ∀ (first second : List (Bool × Nat)) (made later after : VM) (i j a b : Nat),
    step vm (.closure first) = some made →
      RunsWithout (fun before action _ => Releases before (vm.frame.slots + a) action) made later →
        step later (.closure second) = some after →
          ¬Releases later (vm.frame.slots + a) (.closure second) →
            first[i]? = some (true, a) → second[j]? = some (true, b) →
              later.frame.slots + b = vm.frame.slots + a →
                ∃ upvalue, after.upvalueOf vm.closures.length i = some upvalue ∧
                  after.upvalueOf later.closures.length j = some upvalue
  seen : ∀ (index upvalue : Nat) (made later : VM),
    vm.upvalueOf vm.frame.closure index = some upvalue → step vm (.setUpvalue index) = some made →
      RunsWithout (fun before action after => Writes before (after.cell upvalue) action) made later →
        later.read upvalue = vm.slots (vm.stackTop - 1)
  released : ∀ (action : Action) (after : VM), step vm action = some after →
    (∀ captures, action ≠ .closure captures) →
      ∀ upvalue ∈ after.openUpvalues, ¬Releases vm (after.slotOf upvalue) action
  stays : ∀ (action : Action) (after later : VM), step vm action = some after →
    RunsWithout (fun _ _ _ => False) after later →
      ∀ upvalue ∈ later.openUpvalues, upvalue < vm.upvalueCount →
        ¬Releases vm (later.slotOf upvalue) action

theorem slotOf_location {upvalue slot : Nat}
    (location : (vm.upvalues upvalue).location = .slot slot) : vm.slotOf upvalue = slot := by
  unfold VM.slotOf
  rw [location]

theorem upvalueOf_longer (longer : vm.closures <+: after.closures) {closure index upvalue : Nat}
    (there : vm.upvalueOf closure index = some upvalue) :
    after.upvalueOf closure index = some upvalue := by
  obtain ⟨upvalues, is_closure, is_upvalue⟩ := Option.bind_eq_some_iff.mp there
  have bound := (List.getElem?_eq_some_iff.mp is_closure).1
  refine Option.bind_eq_some_iff.mpr ⟨upvalues, ?_, is_upvalue⟩
  obtain ⟨more, same⟩ := longer
  rw [← same, List.getElem?_append_left bound]
  exact is_closure

theorem RunsWithout.closures {avoid : VM → Action → VM → Prop} (sound : Sound vm) (held : Held vm)
    (run : RunsWithout avoid vm after) : vm.closures <+: after.closures := by
  induction run with
  | refl => exact List.prefix_rfl
  | tail before stepped ih =>
      obtain ⟨action, stepped, _⟩ := stepped
      exact ih.trans (step_moves (RunsWithout.sound sound held before).1 stepped).2.closures

theorem write_read (vm : VM) (upvalue : Nat) (value : Value) :
    (vm.write upvalue value).read upvalue = value := by
  unfold VM.write
  cases at_slot : (vm.upvalues upvalue).location with
  | slot slot =>
      dsimp only [VM.read]
      rw [at_slot]
      exact Function.update_self ..
  | closed =>
      dsimp only [VM.read]
      rw [Function.update_self]

theorem captured_variables_shared (reached : Reached vm) : Sharing vm := by
  have sound := reached.sound.1
  have held := reached.sound.2
  constructor
  · exact List.pairwise_map.mpr sound.descending
  · intro first second made later after i j a b made_first run made_second kept is_first is_second
      same_slot
    have moves_first := opClosure_moves sound made_first
    have held_made := moves_first.2.1.held held
    obtain ⟨upvalue, holds_first, member, location⟩ := moves_first.2.2 i a is_first
    have survives := run_survives moves_first.1 held_made member location run
    have sound_later := RunsWithout.sound moves_first.1 held_made run
    have moves_second := opClosure_moves sound_later.1 made_second
    obtain ⟨other, holds_second, other_member, other_location⟩ := moves_second.2.2 j b is_second
    have still := moves_second.2.1.survives upvalue survives.1 (by
      rw [slotOf_location survives.2]
      exact kept)
    have same : upvalue = other := by
      refine moves_second.1.descending.unique still.1 other_member ?_
      rw [slotOf_location (still.2.trans survives.2), slotOf_location other_location, same_slot]
    refine ⟨upvalue, ?_, same ▸ holds_second⟩
    have longer := RunsWithout.closures moves_first.1 held_made run
    exact upvalueOf_longer moves_second.2.1.closures (upvalueOf_longer longer holds_first)
  · intro index upvalue made later from_closure stepped run
    have moves := step_moves sound stepped
    have there := held_upvalueOf held from_closure
    obtain ⟨target, is_target, is_made⟩ := Option.map_eq_some_iff.mp stepped
    rw [from_closure] at is_target
    rw [← Option.some.inj is_target] at is_made
    have reads := run_reads moves.1 (moves.2.held held)
      (Nat.lt_of_lt_of_le there moves.2.counted) run
    rw [reads.1, ← is_made, write_read]
  · intro action after stepped other upvalue member releases
    have moves := step_moves sound stepped
    have bound := (moves.1.located upvalue member).1
    rw [step_count stepped other] at bound
    have before := moves.2.only upvalue member bound
    rw [slotOf_congr before.2.1] at releases
    exact before.2.2 releases
  · intro action after later stepped run upvalue member there releases
    have moves := step_moves sound stepped
    have still := (run_only moves.1 (moves.2.held held) run
      (Nat.lt_of_lt_of_le there moves.2.counted)).2 member
    have before := moves.2.only upvalue still.1 there
    rw [slotOf_congr still.2, slotOf_congr before.2.1] at releases
    exact before.2.2 releases

/-- One local captured by a closure, and open. -/
theorem captured_variables_shared_counter :
    ∃ vm, Reached vm ∧ vm.openUpvalues ≠ [] ∧ Sharing vm := by
  have run : Reached ((step (csVMPush (initial (fun _ => .undefined) 64) .null)
      (.closure [(true, 0)])).getD (initial (fun _ => .undefined) 64)) := by
    refine ⟨fun _ => .undefined, 64, ?_⟩
    refine (Relation.ReflTransGen.single ⟨.push .null, rfl, id⟩).tail ?_
    exact ⟨.closure [(true, 0)], rfl, id⟩
  exact ⟨_, run, List.cons_ne_nil _ _, captured_variables_shared run⟩

end CScript.Upvalues
