/-
What each instruction does to the open upvalues: which it closes, which it opens,
and which variables it writes.
-/

import CScript.Runtime.Upvalue

namespace CScript.Upvalues

open Foundation.DescendingList

/-! ### Soundness, and changes of the machine -/

structure Sound (vm : VM) : Prop where
  located : ∀ upvalue ∈ vm.openUpvalues,
    upvalue < vm.upvalueCount ∧ (vm.upvalues upvalue).location = .slot (vm.slotOf upvalue)
  descending : Descending vm.slotOf vm.openUpvalues

def Held (vm : VM) : Prop :=
  ∀ upvalues ∈ vm.closures, ∀ upvalue ∈ upvalues, upvalue < vm.upvalueCount

/-- What may become of the upvalues there are: they close and never open again, and
keep their values but for what is written. -/
structure Moves (before after : VM) (released : Nat → Prop) (written : Cell → Prop) : Prop where
  counted : before.upvalueCount ≤ after.upvalueCount
  closures : before.closures <+: after.closures
  held : Held before → Held after
  locations : ∀ upvalue < before.upvalueCount,
    (after.upvalues upvalue).location = (before.upvalues upvalue).location ∨
      (after.upvalues upvalue).location = .closed
  reads : ∀ upvalue < before.upvalueCount, ¬written (after.cell upvalue) →
    after.read upvalue = before.read upvalue
  survives : ∀ upvalue ∈ before.openUpvalues, ¬released (before.slotOf upvalue) →
    upvalue ∈ after.openUpvalues ∧
      (after.upvalues upvalue).location = (before.upvalues upvalue).location
  only : ∀ upvalue ∈ after.openUpvalues, upvalue < before.upvalueCount →
    upvalue ∈ before.openUpvalues ∧
      (after.upvalues upvalue).location = (before.upvalues upvalue).location ∧
        ¬released (before.slotOf upvalue)

def never {α : Type} (_ : α) : Prop := False

section

variable {first second third : VM} {released released' : Nat → Prop} {written written' : Cell → Prop}

theorem slotOf_congr {upvalue : Nat}
    (same : (second.upvalues upvalue).location = (first.upvalues upvalue).location) :
    second.slotOf upvalue = first.slotOf upvalue := by
  unfold VM.slotOf
  rw [same]

theorem cell_congr {upvalue : Nat}
    (same : (second.upvalues upvalue).location = (first.upvalues upvalue).location) :
    second.cell upvalue = first.cell upvalue := by
  unfold VM.cell
  rw [same]

theorem Moves.trans (one : Moves first second released written)
    (two : Moves second third released' written')
    (calm : (∀ cell, ¬written cell) ∨ ∀ upvalue < first.upvalueCount,
      (third.upvalues upvalue).location = (second.upvalues upvalue).location) :
    Moves first third (fun slot => released slot ∨ released' slot)
      (fun cell => written cell ∨ written' cell) where
  counted := Nat.le_trans one.counted two.counted
  closures := one.closures.trans two.closures
  held := fun held => two.held (one.held held)
  locations upvalue bound := by
    cases two.locations upvalue (Nat.lt_of_lt_of_le bound one.counted) with
    | inl same =>
        rw [same]
        exact one.locations upvalue bound
    | inr closed => exact Or.inr closed
  reads upvalue bound unwritten := by
    have neither := not_or.mp unwritten
    rw [two.reads upvalue (Nat.lt_of_lt_of_le bound one.counted) neither.2]
    refine one.reads upvalue bound ?_
    cases calm with
    | inl nothing => exact nothing _
    | inr same =>
        rw [← cell_congr (same upvalue bound)]
        exact neither.1
  survives upvalue member unreleased := by
    have neither := not_or.mp unreleased
    have there := one.survives upvalue member neither.1
    have further := two.survives upvalue there.1 (by
      rw [slotOf_congr there.2]
      exact neither.2)
    exact ⟨further.1, further.2.trans there.2⟩
  only upvalue member bound := by
    have there := two.only upvalue member (Nat.lt_of_lt_of_le bound one.counted)
    have before := one.only upvalue there.1 bound
    refine ⟨before.1, there.2.1.trans before.2.1, ?_⟩
    intro isReleased
    cases isReleased with
    | inl first => exact before.2.2 first
    | inr second =>
        rw [← slotOf_congr before.2.1] at second
        exact there.2.2 second

theorem Moves.weaken {wider : Nat → Prop} {more : Cell → Prop}
    (moves : Moves first second released written) (same : ∀ slot, wider slot ↔ released slot)
    (within : ∀ cell, written cell → more cell) : Moves first second wider more :=
  { moves with
    reads := fun upvalue bound unwritten =>
      moves.reads upvalue bound (fun is_written => unwritten (within _ is_written))
    survives := fun upvalue member unreleased =>
      moves.survives upvalue member (fun is_released => unreleased ((same _).mpr is_released))
    only := fun upvalue member bound =>
      have before := moves.only upvalue member bound
      ⟨before.1, before.2.1, fun is_released => before.2.2 ((same _).mp is_released)⟩ }

end

/-! ### Changes that leave the upvalues alone -/

section

variable {vm : VM}

theorem moved_moves (vm : VM) (stackTop : Nat) (frames : List CallFrame)
    (handlers : List ExceptionHandler) (frame : CallFrame) :
    Moves vm { vm with stackTop, frames, handlers, frame } never never where
  counted := Nat.le_refl _
  closures := List.prefix_rfl
  held := id
  locations _ _ := Or.inl rfl
  reads _ _ _ := rfl
  survives _ member _ := ⟨member, rfl⟩
  only _ member _ := ⟨member, rfl, id⟩

theorem moved_sound (sound : Sound vm) (stackTop : Nat) (frames : List CallFrame)
    (handlers : List ExceptionHandler) (frame : CallFrame) :
    Sound { vm with stackTop, frames, handlers, frame } :=
  ⟨sound.located, sound.descending⟩

theorem written_moves (vm : VM) (slot stackTop : Nat) (value : Value) :
    Moves vm { vm with slots := Function.update vm.slots slot value, stackTop } never
      (fun cell => cell = .slot slot) where
  counted := Nat.le_refl _
  closures := List.prefix_rfl
  held := id
  locations _ _ := Or.inl rfl
  reads upvalue _ unwritten := by
    dsimp only [VM.read, VM.cell] at unwritten ⊢
    cases at_slot : (vm.upvalues upvalue).location with
    | slot other =>
        rw [at_slot] at unwritten
        have apart : other ≠ slot := fun same => unwritten (congrArg Cell.slot same)
        exact Function.update_of_ne apart ..
    | closed => rfl
  survives _ member _ := ⟨member, rfl⟩
  only _ member _ := ⟨member, rfl, id⟩

theorem written_sound (sound : Sound vm) (slots : Nat → Value) (stackTop : Nat) :
    Sound { vm with slots, stackTop } :=
  ⟨sound.located, sound.descending⟩

theorem resetStack_moves (vm : VM) : Moves vm (resetStack vm) (fun _ => True) never where
  counted := Nat.le_refl _
  closures := List.prefix_rfl
  held := id
  locations _ _ := Or.inl rfl
  reads _ _ _ := rfl
  survives _ _ unreleased := absurd trivial unreleased
  only _ member _ := absurd member List.not_mem_nil

theorem resetStack_sound (vm : VM) : Sound (resetStack vm) :=
  ⟨fun _ member => absurd member List.not_mem_nil, List.Pairwise.nil⟩

theorem csVMPush_moves (vm : VM) (value : Value) :
    Moves vm (csVMPush vm value) (fun _ => vm.stackCapacity ≤ vm.stackTop)
      (fun cell => cell = .slot vm.stackTop) := by
  unfold csVMPush
  split
  · rename_i full
    exact (resetStack_moves vm).weaken (fun _ => iff_of_true full trivial) (fun _ => False.elim)
  · rename_i room
    exact (written_moves vm vm.stackTop (vm.stackTop + 1) value).weaken
      (fun _ => iff_of_false room id) (fun _ same => same)

theorem csVMPush_sound (sound : Sound vm) (value : Value) : Sound (csVMPush vm value) := by
  unfold csVMPush
  split
  · exact resetStack_sound vm
  · exact written_sound sound _ _

theorem write_moves (vm : VM) (upvalue : Nat) (value : Value) :
    Moves vm (vm.write upvalue value) never (fun cell => cell = vm.cell upvalue) := by
  unfold VM.write
  cases at_slot : (vm.upvalues upvalue).location with
  | slot slot =>
      have cell : vm.cell upvalue = .slot slot := by
        unfold VM.cell
        rw [at_slot]
      rw [cell]
      exact written_moves vm slot vm.stackTop value
  | closed =>
      have cell : vm.cell upvalue = .closed upvalue := by
        unfold VM.cell
        rw [at_slot]
      have same : ∀ other, (Function.update vm.upvalues upvalue
          { location := Location.closed, closed := value } other).location =
            (vm.upvalues other).location := by
        intro other
        by_cases is_upvalue : other = upvalue
        · rw [is_upvalue, Function.update_self, at_slot]
        · rw [Function.update_of_ne is_upvalue]
      rw [cell]
      exact
        { counted := Nat.le_refl _
          closures := List.prefix_rfl
          held := id
          locations := fun other _ => Or.inl (same other)
          reads := by
            intro other _ unwritten
            have apart : other ≠ upvalue := by
              intro is_upvalue
              refine unwritten ?_
              dsimp only [VM.cell]
              rw [same other, is_upvalue, at_slot]
            dsimp only [VM.read]
            rw [Function.update_of_ne apart]
          survives := fun other member _ => ⟨member, same other⟩
          only := fun other member _ => ⟨member, same other, id⟩ }

theorem write_sound (sound : Sound vm) (upvalue : Nat) (value : Value) :
    Sound (vm.write upvalue value) := by
  have moves := write_moves vm upvalue value
  have openUpvalues : (vm.write upvalue value).openUpvalues = vm.openUpvalues := by
    unfold VM.write
    split <;> rfl
  have same : ∀ other ∈ vm.openUpvalues, ((vm.write upvalue value).upvalues other).location =
      (vm.upvalues other).location := fun other member => (moves.survives other member id).2
  constructor
  · intro other member
    rw [openUpvalues] at member
    rw [slotOf_congr (same other member), same other member]
    have located := sound.located other member
    exact ⟨Nat.lt_of_lt_of_le located.1 moves.counted, located.2⟩
  · rw [openUpvalues]
    exact sound.descending.congr (fun other member => slotOf_congr (same other member))

end

/-! ### Closing -/

/-- What the `while` of `closeUpvalues` has done when it stops. -/
structure Closing (before after : VM) (upvalues : List Nat) (last : Nat) : Prop where
  openUpvalues : after.openUpvalues =
    upvalues.dropWhile (fun upvalue => last ≤ before.slotOf upvalue)
  kept : ∀ upvalue, upvalue ∉ upvalues ∨ before.slotOf upvalue < last →
    after.upvalues upvalue = before.upvalues upvalue
  locations : ∀ upvalue, (after.upvalues upvalue).location = (before.upvalues upvalue).location ∨
    (after.upvalues upvalue).location = .closed
  reads : ∀ upvalue, after.read upvalue = before.read upvalue
  rest : after = { before with upvalues := after.upvalues, openUpvalues := after.openUpvalues }

theorem closeUpvalue_read (vm : VM) (upvalue other : Nat) :
    (closeUpvalue vm upvalue).read other = vm.read other := by
  by_cases same : other = upvalue
  · unfold closeUpvalue
    rw [same]
    dsimp only [VM.read]
    rw [Function.update_self]
  · unfold closeUpvalue
    dsimp only [VM.read]
    rw [Function.update_of_ne same]

theorem closeUpvalue_same (vm : VM) (upvalue : Nat) :
    ((closeUpvalue vm upvalue).upvalues upvalue).location = .closed := by
  dsimp only [closeUpvalue]
  rw [Function.update_self]

theorem closeUpvalue_other (vm : VM) {upvalue other : Nat} (apart : other ≠ upvalue) :
    (closeUpvalue vm upvalue).upvalues other = vm.upvalues other :=
  Function.update_of_ne apart ..

theorem closeFrom_closing (last : Nat) (upvalues : List Nat) (vm : VM)
    (descending : Descending vm.slotOf upvalues) :
    Closing vm (closeFrom vm last upvalues) upvalues last := by
  induction upvalues generalizing vm with
  | nil =>
      exact { openUpvalues := rfl, kept := fun _ _ => rfl, locations := fun _ => Or.inl rfl
              reads := fun _ => rfl, rest := rfl }
  | cons upvalue rest ih =>
      have below := List.pairwise_cons.mp descending
      unfold closeFrom
      by_cases above : last ≤ vm.slotOf upvalue
      · rw [if_pos above]
        have others : ∀ other ∈ rest, other ≠ upvalue := fun other member same =>
          absurd (below.1 other member) (by rw [same]; exact Nat.lt_irrefl _)
        have slots : ∀ other ∈ rest,
            (closeUpvalue vm upvalue).slotOf other = vm.slotOf other := fun other member =>
          slotOf_congr (by rw [closeUpvalue_other vm (others other member)])
        have closing := ih (closeUpvalue vm upvalue) (Descending.congr below.2 slots)
        constructor
        · rw [closing.openUpvalues, List.dropWhile_cons, if_pos (decide_eq_true above)]
          exact dropWhile_congr last slots
        · intro other outside
          have apart : other ≠ upvalue := by
            intro same
            cases outside with
            | inl absent => exact absent (same ▸ List.mem_cons_self)
            | inr low => exact absurd above (Nat.not_le_of_lt (same ▸ low))
          rw [closing.kept other, closeUpvalue_other vm apart]
          cases outside with
          | inl absent => exact Or.inl (fun member => absent (List.mem_cons_of_mem _ member))
          | inr low =>
              refine Or.inr ?_
              rw [slotOf_congr (congrArg ObjUpvalue.location (closeUpvalue_other vm apart))]
              exact low
        · intro other
          cases closing.locations other with
          | inl same =>
              by_cases is_upvalue : other = upvalue
              · rw [same, is_upvalue]
                exact Or.inr (closeUpvalue_same vm upvalue)
              · rw [same, closeUpvalue_other vm is_upvalue]
                exact Or.inl rfl
          | inr closed => exact Or.inr closed
        · intro other
          rw [closing.reads, closeUpvalue_read]
        · exact closing.rest
      · rw [if_neg above]
        have stays : ¬decide (last ≤ vm.slotOf upvalue) = true := fun is_above =>
          above (of_decide_eq_true is_above)
        exact
          { openUpvalues := by rw [List.dropWhile_cons, if_neg stays]
            kept := fun _ _ => rfl, locations := fun _ => Or.inl rfl
            reads := fun _ => rfl, rest := rfl }

section

variable {vm : VM}

theorem closeUpvalues_closing (sound : Sound vm) (last : Nat) :
    Closing vm (closeUpvalues vm last) vm.openUpvalues last :=
  closeFrom_closing last vm.openUpvalues vm sound.descending

theorem Closing.open_iff (sound : Sound vm) {after : VM} {last : Nat}
    (closing : Closing vm after vm.openUpvalues last) (upvalue : Nat) :
    upvalue ∈ after.openUpvalues ↔ upvalue ∈ vm.openUpvalues ∧ vm.slotOf upvalue < last := by
  rw [closing.openUpvalues]
  exact mem_dropWhile sound.descending last upvalue

theorem closeUpvalues_moves (sound : Sound vm) (last : Nat) :
    Moves vm (closeUpvalues vm last) (fun slot => last ≤ slot) never := by
  have closing := closeUpvalues_closing sound last
  have still := closing.open_iff sound
  exact
    { counted := Nat.le_of_eq (congrArg VM.upvalueCount closing.rest).symm
      closures := ⟨[], (List.append_nil _).trans (congrArg VM.closures closing.rest).symm⟩
      held := by
        intro held
        rw [closing.rest]
        exact held
      locations := fun upvalue _ => closing.locations upvalue
      reads := fun upvalue _ _ => closing.reads upvalue
      survives := by
        intro upvalue member unreleased
        have low := Nat.lt_of_not_le unreleased
        exact ⟨(still upvalue).mpr ⟨member, low⟩, by rw [closing.kept upvalue (Or.inr low)]⟩
      only := by
        intro upvalue member _
        have before := (still upvalue).mp member
        exact ⟨before.1, by rw [closing.kept upvalue (Or.inr before.2)],
          Nat.not_le_of_lt before.2⟩ }

theorem closeUpvalues_sound (sound : Sound vm) (last : Nat) : Sound (closeUpvalues vm last) := by
  have closing := closeUpvalues_closing sound last
  have same : ∀ upvalue ∈ (closeUpvalues vm last).openUpvalues,
      (closeUpvalues vm last).upvalues upvalue = vm.upvalues upvalue := fun upvalue member =>
    closing.kept upvalue (Or.inr ((closing.open_iff sound upvalue).mp member).2)
  have slots : ∀ upvalue ∈ (closeUpvalues vm last).openUpvalues,
      (closeUpvalues vm last).slotOf upvalue = vm.slotOf upvalue := fun upvalue member =>
    slotOf_congr (by rw [same upvalue member])
  constructor
  · intro upvalue member
    have before := ((closing.open_iff sound upvalue).mp member).1
    have located := sound.located upvalue before
    rw [slots upvalue member, same upvalue member]
    exact ⟨Nat.lt_of_lt_of_le located.1 (closeUpvalues_moves sound last).counted, located.2⟩
  · refine Descending.congr ?_ slots
    rw [closing.openUpvalues]
    exact dropWhile_descending sound.descending last

/-! ### Capturing -/

structure Captured (before after : VM) (upvalue local_ : Nat) : Prop where
  sound : Sound after
  moves : Moves before after never never
  kept : ∀ other < before.upvalueCount, after.upvalues other = before.upvalues other
  member : upvalue ∈ after.openUpvalues
  location : (after.upvalues upvalue).location = .slot local_
  rest : after.frame = before.frame ∧ after.closures = before.closures

theorem csUpvalueNew_old (vm : VM) (slot : Nat) {other : Nat} (bound : other < vm.upvalueCount) :
    (csUpvalueNew vm slot).upvalues other = vm.upvalues other :=
  Function.update_of_ne (Nat.ne_of_lt bound) ..

theorem csUpvalueNew_new (vm : VM) (slot : Nat) :
    ((csUpvalueNew vm slot).upvalues vm.upvalueCount).location = .slot slot := by
  dsimp only [csUpvalueNew]
  rw [Function.update_self]

theorem created_captured (sound : Sound vm) (local_ : Nat) {openUpvalues : List Nat}
    (placed : openUpvalues = (place vm.slotOf local_ vm.upvalueCount vm.openUpvalues).2)
    (members : ∀ other, other ∈ openUpvalues ↔
      other = vm.upvalueCount ∨ other ∈ vm.openUpvalues) :
    Captured vm { csUpvalueNew vm local_ with openUpvalues } vm.upvalueCount local_ := by
  have old : ∀ other < vm.upvalueCount,
      (csUpvalueNew vm local_).upvalues other = vm.upvalues other := fun other bound =>
    csUpvalueNew_old vm local_ bound
  have created := csUpvalueNew_new vm local_
  have slots : ∀ other ∈ vm.openUpvalues,
      (csUpvalueNew vm local_).slotOf other = vm.slotOf other := fun other member =>
    slotOf_congr (by rw [old other (sound.located other member).1])
  have slot : (csUpvalueNew vm local_).slotOf vm.upvalueCount = local_ := by
    unfold VM.slotOf
    rw [created]
  constructor
  · constructor
    · intro other member
      cases (members other).mp member with
      | inl new =>
          rw [new]
          refine ⟨Nat.lt_succ_self _, created.trans (congrArg Location.slot ?_)⟩
          exact slot.symm
      | inr before =>
          have located := sound.located other before
          refine ⟨Nat.lt_succ_of_lt located.1, ?_⟩
          show ((csUpvalueNew vm local_).upvalues other).location =
            .slot ((csUpvalueNew vm local_).slotOf other)
          rw [old other located.1, slots other before]
          exact located.2
    · show Descending (csUpvalueNew vm local_).slotOf openUpvalues
      rw [placed, ← place_congr slots]
      exact place_descending (sound.descending.congr slots) slot
  · exact
      { counted := Nat.le_succ _
        closures := List.prefix_rfl
        held := fun held upvalues made upvalue member =>
          Nat.lt_succ_of_lt (held upvalues made upvalue member)
        locations := fun other bound => Or.inl (congrArg ObjUpvalue.location (old other bound))
        reads := by
          intro other bound _
          show (csUpvalueNew vm local_).read other = vm.read other
          unfold VM.read
          rw [old other bound]
          rfl
        survives := fun other member _ =>
          ⟨(members other).mpr (Or.inr member),
            congrArg ObjUpvalue.location (old other (sound.located other member).1)⟩
        only := by
          intro other member bound
          cases (members other).mp member with
          | inl new => exact absurd new (Nat.ne_of_lt bound)
          | inr before => exact ⟨before, congrArg ObjUpvalue.location (old other bound), id⟩ }
  · exact old
  · exact (members _).mpr (Or.inl rfl)
  · exact created
  · exact ⟨rfl, rfl⟩

theorem captureUpvalue_captured (sound : Sound vm) (local_ : Nat) :
    Captured vm (captureUpvalue vm local_).2 (captureUpvalue vm local_).1 local_ := by
  unfold captureUpvalue
  cases place_cases local_ vm.upvalueCount sound.descending with
  | inl found =>
      have located := sound.located _ found.1
      dsimp only
      rw [if_neg (Nat.ne_of_lt located.1)]
      exact
        { sound := sound
          moves := moved_moves vm vm.stackTop vm.frames vm.handlers vm.frame
          kept := fun _ _ => rfl
          member := found.1
          location := by rw [located.2, found.2.1]
          rest := ⟨rfl, rfl⟩ }
  | inr absent =>
      dsimp only
      rw [if_pos absent.1]
      have captured := created_captured sound local_ rfl absent.2.2
      show Captured vm _ (place vm.slotOf local_ vm.upvalueCount vm.openUpvalues).1 local_
      rw [absent.1]
      exact captured

structure CapturedAll (before after : VM) (captures : List (Bool × Nat)) (upvalues : List Nat) :
    Prop where
  sound : Sound after
  moves : Moves before after never never
  kept : ∀ other < before.upvalueCount, after.upvalues other = before.upvalues other
  bounded : Held before → ∀ upvalue ∈ upvalues, upvalue < after.upvalueCount
  holds : ∀ i index : Nat, captures[i]? = some (true, index) →
    ∃ upvalue, upvalues[i]? = some upvalue ∧ upvalue ∈ after.openUpvalues ∧
      (after.upvalues upvalue).location = .slot (before.frame.slots + index)
  rest : after.frame = before.frame ∧ after.closures = before.closures

theorem held_upvalueOf (held : Held vm) {closure index upvalue : Nat}
    (there : vm.upvalueOf closure index = some upvalue) : upvalue < vm.upvalueCount := by
  obtain ⟨upvalues, is_closure, is_upvalue⟩ := Option.bind_eq_some_iff.mp there
  exact held upvalues (List.mem_of_getElem? is_closure) upvalue (List.mem_of_getElem? is_upvalue)

theorem never_or {α : Type} (item : α) : (never item ∨ never item) ↔ never item :=
  or_self_iff

theorem captureAll_captured (captures : List (Bool × Nat)) (sound : Sound vm) {after : VM}
    {upvalues : List Nat} (captured : captureAll vm captures = some (after, upvalues)) :
    CapturedAll vm after captures upvalues := by
  induction captures generalizing vm after upvalues with
  | nil =>
      cases captured
      exact
        { sound := sound
          moves := moved_moves vm vm.stackTop vm.frames vm.handlers vm.frame
          kept := fun _ _ => rfl
          bounded := fun _ _ member => absurd member List.not_mem_nil
          holds := fun _ _ there => nomatch there
          rest := ⟨rfl, rfl⟩ }
  | cons capture rest ih =>
      obtain ⟨isLocal, index⟩ := capture
      cases isLocal with
      | false =>
          obtain ⟨shared, from_closure, more⟩ := Option.bind_eq_some_iff.mp captured
          obtain ⟨⟨final, others⟩, captures_rest, same⟩ := Option.map_eq_some_iff.mp more
          cases same
          have all := ih sound captures_rest
          refine { all with bounded := ?_, holds := ?_ }
          · intro held upvalue member
            cases List.mem_cons.mp member with
            | inl is_shared =>
                rw [is_shared]
                exact Nat.lt_of_lt_of_le (held_upvalueOf held from_closure) all.moves.counted
            | inr other => exact all.bounded held upvalue other
          · intro i index there
            cases i with
            | zero => cases there
            | succ i => exact all.holds i index there
      | true =>
          obtain ⟨⟨final, others⟩, captures_rest, same⟩ := Option.map_eq_some_iff.mp captured
          cases same
          have one := captureUpvalue_captured sound (vm.frame.slots + index)
          have all := ih one.sound captures_rest
          have count := one.moves.counted
          constructor
          · exact all.sound
          · refine (one.moves.trans all.moves (Or.inl (fun _ => id))).weaken ?_ ?_
            · exact fun slot => (never_or slot).symm
            · exact fun cell => (never_or cell).mp
          · intro other bound
            rw [all.kept other (Nat.lt_of_lt_of_le bound count)]
            exact one.kept other bound
          · intro held upvalue member
            cases List.mem_cons.mp member with
            | inl is_captured =>
                rw [is_captured]
                exact Nat.lt_of_lt_of_le (one.sound.located _ one.member).1 all.moves.counted
            | inr other => exact all.bounded (one.moves.held held) upvalue other
          · intro i local_ there
            cases i with
            | zero =>
                cases there
                have survives := all.moves.survives _ one.member id
                exact ⟨_, rfl, survives.1, survives.2.trans one.location⟩
            | succ i =>
                obtain ⟨upvalue, held, member, location⟩ := all.holds i local_ there
                rw [one.rest.1] at location
                exact ⟨upvalue, held, member, location⟩
          · exact ⟨all.rest.1.trans one.rest.1, all.rest.2.trans one.rest.2⟩

end

end CScript.Upvalues
