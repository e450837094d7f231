/-
Which programs are relocated as a whole.

Copying an atom and making room for an alternative move the targets of splits
and jumps with the code.  The continuation of a lookaround is left where it
was, so a program is consistent exactly when no lookaround is moved after it
was emitted.
-/

import CScript.Regex.Parsing

namespace CScript

/-! ### Copies -/

def Bounds.total (bounds : Bounds) : Nat :=
  bounds.copies + if bounds.most = -1 then 1 else bounds.optional

def copyOffsets (length : Nat) (bounds : Bounds) : List Nat :=
  (List.range bounds.copies).map (fun index => index * length) ++
    if bounds.most = -1 then [bounds.copies * length + 1]
    else (List.range bounds.optional).map
      (fun index => bounds.copies * length + index * (length + 1) + 1)

/-! ### Consistency -/

def RegionWithin (code : List ReInst) (start size : Nat) : Prop :=
  ∀ (index : Nat) (inst : ReInst), start ≤ index → index < start + size →
    code[index]? = some inst → inst.Within start (start + size)

/-- Every copy of every part of a tree whose code starts at a place: splits and
jumps stay in the copy, and a lookaround continues behind its own end. -/
def Consistent (code : List ReInst) : Node → Nat → Prop
  | .group none body, start => Consistent code body start
  | .group (some group) body, start =>
      RegionWithin code start (Node.group (some group) body).size ∧
        Consistent code body (start + 1)
  | .look behind negated body, start =>
      RegionWithin code start (Node.look behind negated body).size ∧
        code[start]? = some (lookInst behind negated (start + body.size + 2)) ∧
        code[start + body.size + 1]? = some { op := .lookEnd, x := 0, y := 0 } ∧
        Consistent code body (start + 1)
  | .sequence first rest, start =>
      RegionWithin code start (Node.sequence first rest).size ∧
        Consistent code first start ∧ Consistent code rest (start + first.size)
  | .alternate left right, start =>
      RegionWithin code start (Node.alternate left right).size ∧
        Consistent code left (start + 1) ∧ Consistent code right (start + left.size + 2)
  | .repeated body least most lazy, start =>
      RegionWithin code start (Node.repeated body least most lazy).size ∧
        ∀ offset ∈ copyOffsets body.size (compiledBounds least most),
          Consistent code body (start + offset)
  | node, start => RegionWithin code start node.size

def Node.hasLook : Node → Bool
  | .look _ _ _ => true
  | .group _ body => body.hasLook
  | .sequence first rest => first.hasLook || rest.hasLook
  | .alternate left right => left.hasLook || right.hasLook
  | .repeated body least most _ => (compiledBounds least most).total ≠ 0 && body.hasLook
  | _ => false

/-- No lookaround is moved after it was emitted: none stands before a `|`, and
none in an atom that is repeated otherwise than exactly once. -/
def Node.settled : Node → Bool
  | .group _ body => body.settled
  | .look _ _ body => body.settled
  | .sequence first rest => first.settled && rest.settled
  | .alternate left right => !left.hasLook && right.settled
  | .repeated body least most _ =>
      let bounds := compiledBounds least most
      !body.hasLook || bounds.total = 0 ||
        (bounds.copies = 1 && bounds.total = 1 && body.settled)
  | _ => true

theorem settled_of_noLook {node : Node} (noLook : node.hasLook = false) :
    node.settled = true := by
  induction node with
  | empty | literal _ | any | set _ | lineStart | lineEnd | word _ | backref _ => rfl
  | group capture body ih => exact ih noLook
  | look behind negated body ih => cases noLook
  | sequence first rest ihFirst ihRest =>
      obtain ⟨left, right⟩ := Bool.or_eq_false_iff.mp noLook
      rw [Node.settled, ihFirst left, ihRest right, Bool.and_true]
  | alternate left right ihLeft ihRight =>
      obtain ⟨leftNone, rightNone⟩ := Bool.or_eq_false_iff.mp noLook
      rw [Node.settled, leftNone, ihRight rightNone, Bool.not_false, Bool.and_true]
  | repeated body least most lazy ih =>
      rw [Node.hasLook, Bool.and_eq_false_iff] at noLook
      rw [Node.settled]
      rcases noLook with nothing | none_
      · have zero : (compiledBounds least most).total = 0 := by simpa using nothing
        simp [zero]
      · simp [none_]

/-! ### Code in its place -/

def Holds (code : List ReInst) (start : Nat) (block : List ReInst) : Prop :=
  ∃ pre post, code = pre ++ (block ++ post) ∧ pre.length = start

section

variable {code : List ReInst} {start : Nat}

theorem Holds.part (pre post : List ReInst) {block part : List ReInst}
    (holds : Holds code start block) (split : block = pre ++ (part ++ post)) {place : Nat} (there : place = start + pre.length) :
    Holds code place part := by
  obtain ⟨before, after, whole, length⟩ := holds
  refine ⟨before ++ pre, post ++ after, ?_, ?_⟩
  · rw [whole, split]
    simp only [List.append_assoc]
  · rw [List.length_append, length, there]

theorem Holds.front {front back : List ReInst} (holds : Holds code start (front ++ back)) :
    Holds code start front :=
  holds.part [] back rfl rfl

theorem Holds.back {front back : List ReInst} (holds : Holds code start (front ++ back)) :
    Holds code (start + front.length) back :=
  holds.part front [] (by rw [List.append_nil]) rfl

theorem Holds.head {inst : ReInst} {block : List ReInst} (holds : Holds code start (inst :: block)) :
    code[start]? = some inst := by
  obtain ⟨before, after, whole, length⟩ := holds
  rw [whole, ← length, List.getElem?_append_right (Nat.le_refl _), Nat.sub_self]
  rfl

theorem Holds.tail {inst : ReInst} {block : List ReInst} (holds : Holds code start (inst :: block)) :
    Holds code (start + 1) block :=
  holds.part [inst] [] (by rw [List.append_nil]; rfl) rfl

theorem Holds.region {block : List ReInst} (holds : Holds code start block)
    (within : CodeWithin block start (start + block.length)) :
    RegionWithin code start block.length := by
  obtain ⟨before, after, whole, length⟩ := holds
  intro index inst low high here
  rw [whole, List.getElem?_append_right (by omega),
    List.getElem?_append_left (by omega)] at here
  exact within inst (List.mem_of_getElem? here)

end

/-! ### Copies in their place -/

theorem copiesCode_copy (atom : List ReInst) {index copies : Nat} (below : index < copies)
    (offset : Nat) :
    ∃ pre post, copiesCode atom offset copies =
        pre ++ (relocated atom (offset + index * atom.length) ++ post) ∧
      pre.length = index * atom.length := by
  induction copies generalizing offset index with
  | zero => omega
  | succ copies ih =>
      cases index with
      | zero =>
          refine ⟨[], copiesCode atom (offset + atom.length) copies, ?_, ?_⟩
          · rw [copiesCode, Nat.zero_mul, Nat.add_zero, List.nil_append]
          · rw [Nat.zero_mul, List.length_nil]
      | succ index =>
          obtain ⟨pre, post, split, length⟩ := ih (Nat.lt_of_succ_lt_succ below) (offset + atom.length)
          refine ⟨relocated atom offset ++ pre, post, ?_, ?_⟩
          · have place : offset + atom.length + index * atom.length =
                offset + (index + 1) * atom.length := by
              rw [Nat.succ_mul]
              omega
            rw [copiesCode, split, place, List.append_assoc]
          · rw [List.length_append, relocated_length, length, Nat.succ_mul, Nat.add_comm]

theorem optionalCode_copy (atom : List ReInst) (base : Nat) (lazy : Bool) (finish : Nat)
    {index optional : Nat} (below : index < optional) (offset : Nat) :
    ∃ pre post, optionalCode atom base lazy finish offset optional =
        pre ++ (relocated atom (offset + index * (atom.length + 1) + 1) ++ post) ∧
      pre.length = index * (atom.length + 1) + 1 := by
  induction optional generalizing offset index with
  | zero => omega
  | succ optional ih =>
      cases index with
      | zero =>
          refine ⟨[splitInst lazy (base + offset + 1) finish],
            optionalCode atom base lazy finish (offset + atom.length + 1) optional, ?_, ?_⟩
          · rw [optionalCode, Nat.zero_mul, Nat.add_zero, List.singleton_append, List.cons_append]
          · rw [Nat.zero_mul, List.length_singleton]
      | succ index =>
          obtain ⟨pre, post, split, length⟩ := ih (Nat.lt_of_succ_lt_succ below) (offset + atom.length + 1)
          refine ⟨splitInst lazy (base + offset + 1) finish :: relocated atom (offset + 1) ++ pre,
            post, ?_, ?_⟩
          · have place : offset + atom.length + 1 + index * (atom.length + 1) + 1 =
                offset + (index + 1) * (atom.length + 1) + 1 := by
              rw [Nat.succ_mul]
              omega
            rw [optionalCode, split, place, List.append_assoc]
          · rw [List.length_append, List.length_cons, relocated_length, length, Nat.succ_mul]
            omega

theorem repeatedCode_copy (atom : List ReInst) (base : Nat) (bounds : Bounds) (lazy : Bool)
    {offset : Nat} (member : offset ∈ copyOffsets atom.length bounds) :
    ∃ pre post, repeatedCode atom base bounds lazy =
        pre ++ (relocated atom offset ++ post) ∧ pre.length = offset := by
  unfold repeatedCode
  rcases List.mem_append.mp member with copy | optional
  · obtain ⟨index, below, rfl⟩ := List.mem_map.mp copy
    obtain ⟨pre, post, split, length⟩ := copiesCode_copy atom (List.mem_range.mp below) 0
    rw [Nat.zero_add] at split
    exact ⟨pre, _, by rw [split, List.append_assoc, List.append_assoc], length⟩
  · by_cases unbounded : bounds.most = -1
    · rw [if_pos unbounded] at optional
      rw [List.mem_singleton.mp optional]
      simp only [if_pos unbounded]
      refine ⟨copiesCode atom 0 bounds.copies ++ [splitInst lazy
        (base + bounds.copies * atom.length + 1)
        (base + bounds.copies * atom.length + atom.length + 2)],
        [{ op := .jump, x := base + bounds.copies * atom.length, y := 0 }], ?_, ?_⟩
      · simp only [loopCode, List.append_assoc, List.cons_append, List.nil_append]
      · rw [List.length_append, copiesCode_length, List.length_singleton]
    · rw [if_neg unbounded] at optional
      obtain ⟨index, below, rfl⟩ := List.mem_map.mp optional
      simp only [if_neg unbounded]
      obtain ⟨pre, post, split, length⟩ := optionalCode_copy atom base lazy
        (base + bounds.copies * atom.length + bounds.optional * (atom.length + 1))
        (List.mem_range.mp below) (bounds.copies * atom.length)
      refine ⟨copiesCode atom 0 bounds.copies ++ pre, post, ?_, ?_⟩
      · rw [split, List.append_assoc]
      · rw [List.length_append, copiesCode_length, length]
        omega

/-! ### Where nothing is moved -/

theorem length_copyOffsets (length : Nat) (bounds : Bounds) :
    (copyOffsets length bounds).length = bounds.total := by
  unfold copyOffsets Bounds.total
  by_cases unbounded : bounds.most = -1
  · simp [unbounded]
  · simp [unbounded]

theorem copyOffsets_zero {length : Nat} (positive : 0 < length) {bounds : Bounds}
    (some_ : bounds.total ≠ 0) :
    (∀ offset ∈ copyOffsets length bounds, offset = 0) ↔
      bounds.copies = 1 ∧ bounds.total = 1 := by
  constructor
  · intro all
    have second : ¬1 < bounds.copies := by
      intro more
      have zero := all (1 * length)
        (List.mem_append_left _ (List.mem_map.mpr ⟨1, List.mem_range.mpr more, rfl⟩))
      omega
    have noOther : (if bounds.most = -1 then 1 else bounds.optional) = 0 := by
      by_cases unbounded : bounds.most = -1
      · have zero := all (bounds.copies * length + 1)
          (List.mem_append_right _ (by rw [if_pos unbounded]; exact List.mem_singleton.mpr rfl))
        omega
      · rw [if_neg unbounded]
        by_contra optional
        have zero := all (bounds.copies * length + 0 * (length + 1) + 1)
          (List.mem_append_right _ (by
            rw [if_neg unbounded]
            exact List.mem_map.mpr ⟨0, List.mem_range.mpr (by omega), rfl⟩))
        omega
    unfold Bounds.total at some_ ⊢
    rw [noOther] at some_ ⊢
    omega
  · rintro ⟨one, whole⟩ offset member
    have noOther : (if bounds.most = -1 then 1 else bounds.optional) = 0 := by
      unfold Bounds.total at whole
      omega
    rcases List.mem_append.mp member with copy | optional
    · obtain ⟨index, below, rfl⟩ := List.mem_map.mp copy
      have zero : index = 0 := by
        have := List.mem_range.mp below
        omega
      rw [zero, Nat.zero_mul]
    · by_cases unbounded : bounds.most = -1
      · rw [if_pos unbounded] at noOther
        cases noOther
      · rw [if_neg unbounded] at noOther optional
        rw [noOther] at optional
        cases optional

theorem size_pos_of_hasLook {node : Node} (looks : node.hasLook = true) : 0 < node.size := by
  induction node with
  | empty | literal _ | any | set _ | lineStart | lineEnd | word _ | backref _ => cases looks
  | group capture body ih =>
      have inner := ih looks
      cases capture with
      | none => exact inner
      | some group => exact Nat.add_pos_left inner 2
  | look behind negated body ih => exact Nat.succ_pos _
  | sequence first rest ihFirst ihRest =>
      rcases Bool.or_eq_true_iff.mp looks with left | right
      · exact Nat.add_pos_left (ihFirst left) _
      · exact Nat.add_pos_right _ (ihRest right)
  | alternate left right ihLeft ihRight => exact Nat.succ_pos _
  | repeated body least most lazy ih =>
      obtain ⟨some_, inner⟩ := Bool.and_eq_true_iff.mp looks
      have copies : (compiledBounds least most).total ≠ 0 := by simpa using some_
      have positive := ih inner
      unfold Bounds.total at copies
      rw [Node.size]
      by_cases unbounded : (compiledBounds least most).most = -1
      · rw [if_pos unbounded]
        omega
      · rw [if_neg unbounded] at copies ⊢
        rcases Nat.eq_zero_or_pos (compiledBounds least most).copies with none_ | more
        · exact Nat.add_pos_right _ (Nat.mul_pos (by omega) (by omega))
        · exact Nat.add_pos_left (Nat.mul_pos more positive) _

/-- A tree moved by `by_` since it was emitted: nothing that moves is a
lookaround. -/
def Node.sound (node : Node) (by_ : Nat) : Prop :=
  node.hasLook = false ∨ (by_ = 0 ∧ node.settled = true)

theorem Node.sound_moved (node : Node) {by_ : Nat} (moved : by_ ≠ 0) :
    node.sound by_ ↔ node.hasLook = false :=
  ⟨fun sound => sound.resolve_right (fun still => moved still.1), Or.inl⟩

theorem Node.sound_zero (node : Node) : node.sound 0 ↔ node.settled = true :=
  ⟨fun sound => sound.elim settled_of_noLook And.right, fun settled => Or.inr ⟨rfl, settled⟩⟩

private theorem sound_sequence (first rest : Node) (by_ : Nat) :
    (Node.sequence first rest).sound by_ ↔ first.sound by_ ∧ rest.sound by_ := by
  rcases Nat.eq_zero_or_pos by_ with rfl | moved
  · simp only [Node.sound_zero, Node.settled, Bool.and_eq_true]
  · have different : by_ ≠ 0 := by omega
    simp only [Node.sound_moved _ different, Node.hasLook, Bool.or_eq_false_iff]

private theorem sound_alternate (left right : Node) (by_ : Nat) :
    (Node.alternate left right).sound by_ ↔ left.sound (1 + by_) ∧ right.sound by_ := by
  rw [left.sound_moved (show 1 + by_ ≠ 0 by omega)]
  rcases Nat.eq_zero_or_pos by_ with rfl | moved
  · simp only [Node.sound_zero, Node.settled, Bool.and_eq_true, Bool.not_eq_true']
  · have different : by_ ≠ 0 := by omega
    simp only [Node.sound_moved _ different, Node.hasLook, Bool.or_eq_false_iff]

private theorem sound_repeated (body : Node) (least : Nat) (most : Option Nat) (lazy : Bool)
    (by_ : Nat) :
    (Node.repeated body least most lazy).sound by_ ↔
      ∀ offset ∈ copyOffsets body.size (compiledBounds least most), body.sound (offset + by_) := by
  cases looks : body.hasLook with
  | false =>
      have nothing : (Node.repeated body least most lazy).hasLook = false := by
        rw [Node.hasLook, looks, Bool.and_false]
      exact ⟨fun _ _ _ => Or.inl looks, fun _ => Or.inl nothing⟩
  | true =>
      have whole : ∀ place, body.sound place ↔ place = 0 ∧ body.settled = true := by
        intro place
        unfold Node.sound
        rw [looks]
        simp
      simp only [whole]
      by_cases none_ : (compiledBounds least most).total = 0
      · have empty : copyOffsets body.size (compiledBounds least most) = [] :=
          List.eq_nil_of_length_eq_zero ((length_copyOffsets _ _).trans none_)
        rw [empty]
        have nothing : (Node.repeated body least most lazy).hasLook = false := by
          simp [Node.hasLook, none_]
        exact ⟨fun _ offset wrong => absurd wrong List.not_mem_nil, fun _ => Or.inl nothing⟩
      · have positive := size_pos_of_hasLook looks
        have places := copyOffsets_zero positive none_
        obtain ⟨offset, member⟩ : ∃ offset,
            offset ∈ copyOffsets body.size (compiledBounds least most) := by
          apply List.exists_mem_of_ne_nil
          intro empty
          have length := length_copyOffsets body.size (compiledBounds least most)
          rw [empty] at length
          exact none_ length.symm
        have outer : (Node.repeated body least most lazy).sound by_ ↔
            by_ = 0 ∧ (compiledBounds least most).copies = 1 ∧
              (compiledBounds least most).total = 1 ∧ body.settled = true := by
          unfold Node.sound
          simp [Node.hasLook, Node.settled, looks, none_, and_assoc]
        rw [outer]
        constructor
        · rintro ⟨rfl, one, single, settled⟩ place there
          exact ⟨places.mpr ⟨one, single⟩ place there, settled⟩
        · intro all
          have still : by_ = 0 := by
            have := (all offset member).1
            omega
          obtain ⟨one, single⟩ := places.mp (fun place there => by
            have := (all place there).1
            omega)
          exact ⟨still, one, single, (all offset member).2⟩

/-! ### When a program is consistent -/

section

variable {ignoreCase : Bool} {classes : List ReClass} {node : Node} {base by_ : Nat}
  {code block : List ReInst}

theorem Emits.region (emits : Emits ignoreCase classes node base block)
    (holds : Holds code (base + by_) (relocated block by_)) :
    RegionWithin code (base + by_) node.size := by
  obtain ⟨length, within⟩ := emits.within
  have moved := within.relocated by_
  have held := holds.region (by
    rw [relocated_length]
    exact moved.widen (Nat.le_refl _) (by omega))
  rw [relocated_length, length] at held
  exact held

private theorem lookInst_relocate (behind negated : Bool) (continuation by_ : Nat) :
    (lookInst behind negated continuation).relocate by_ =
      lookInst behind negated continuation := by
  cases behind <;> rfl

theorem Emits.consistent_iff (emits : Emits ignoreCase classes node base block)
    (holds : Holds code (base + by_) (relocated block by_)) :
    Consistent code node (base + by_) ↔ node.sound by_ := by
  induction node generalizing base by_ block with
  | empty | literal _ | any | set _ | lineStart | lineEnd | word _ | backref _ =>
      exact ⟨fun _ => Or.inl rfl, fun _ => emits.region holds⟩
  | group capture body ih =>
      cases capture with
      | none => exact ih emits holds
      | some group =>
          have region := emits.region holds
          obtain ⟨inner, rfl, bodyEmits⟩ := emits
          rw [relocated_cons, relocated_append] at holds
          have place : base + by_ + 1 = base + 1 + by_ := by omega
          have held := holds.tail.front
          rw [place] at held
          have inside := ih bodyEmits held
          rw [← place] at inside
          exact ⟨fun consistent => inside.mp consistent.2,
            fun sound => ⟨region, inside.mpr sound⟩⟩
  | look behind negated body ih =>
      have region := emits.region holds
      obtain ⟨inner, rfl, bodyEmits⟩ := emits
      have length := bodyEmits.within.1
      rw [relocated_cons, relocated_append, lookInst_relocate] at holds
      have place : base + by_ + 1 = base + 1 + by_ := by omega
      have held := holds.tail.front
      rw [place] at held
      have inside := ih bodyEmits held
      rw [← place] at inside
      have ended := holds.tail.back.head
      rw [relocated_length, length] at ended
      have there : base + by_ + 1 + body.size = base + by_ + body.size + 1 := by omega
      rw [there] at ended
      constructor
      · rintro ⟨_, continues, _, consistent⟩
        rw [holds.head, length] at continues
        have equal := congrArg ReInst.y (Option.some.inj continues)
        have still : by_ = 0 := by
          unfold lookInst at equal
          dsimp only at equal
          omega
        rw [still] at inside consistent
        exact Or.inr ⟨still, (Node.sound_zero body).mp (inside.mp consistent)⟩
      · intro sound
        obtain ⟨rfl, settled⟩ := sound.resolve_left (by nofun)
        exact ⟨region, holds.head.trans (by rw [length]; rfl), ended,
          inside.mpr ((Node.sound_zero body).mpr settled)⟩
  | sequence first rest ihFirst ihRest =>
      have region := emits.region holds
      obtain ⟨front, back, rfl, firstEmits, restEmits⟩ := emits
      rw [relocated_append] at holds
      have left := ihFirst firstEmits holds.front
      have held := holds.back
      have place : base + by_ + (relocated front by_).length = base + front.length + by_ := by
        rw [relocated_length]
        omega
      rw [place] at held
      have right := ihRest restEmits held
      have there : base + front.length + by_ = base + by_ + first.size := by
        rw [firstEmits.within.1]
        omega
      rw [there] at right
      rw [sound_sequence, ← left, ← right]
      exact ⟨And.right, fun both => ⟨region, both⟩⟩
  | alternate left right ihLeft ihRight =>
      have region := emits.region holds
      obtain ⟨front, back, rfl, leftEmits, rightEmits⟩ := emits
      have length := leftEmits.within.1
      rw [relocated_cons, relocated_append, relocated_cons, relocated_relocated] at holds
      have heldLeft := holds.tail.front
      have placeLeft : base + by_ + 1 = base + (1 + by_) := by omega
      rw [placeLeft] at heldLeft
      have consistentLeft := ihLeft leftEmits heldLeft
      rw [← placeLeft] at consistentLeft
      have heldRight := holds.tail.back.tail
      have placeRight : base + by_ + 1 + (relocated front (1 + by_)).length + 1 =
          base + front.length + 2 + by_ := by
        rw [relocated_length]
        omega
      rw [placeRight] at heldRight
      have consistentRight := ihRight rightEmits heldRight
      have there : base + front.length + 2 + by_ = base + by_ + left.size + 2 := by
        rw [length]
        omega
      rw [there] at consistentRight
      rw [sound_alternate, ← consistentLeft, ← consistentRight]
      exact ⟨And.right, fun both => ⟨region, both⟩⟩
  | repeated body least most lazy ih =>
      have region := emits.region holds
      obtain ⟨atom, blockEq, bodyEmits⟩ := emits
      have length := bodyEmits.within.1
      have copy : ∀ offset ∈ copyOffsets body.size (compiledBounds least most),
          (Consistent code body (base + by_ + offset) ↔ body.sound (offset + by_)) := by
        intro offset member
        rw [← length] at member
        obtain ⟨pre, post, split, there⟩ := repeatedCode_copy atom base _ lazy member
        rw [blockEq, split, relocated_append, relocated_append, relocated_relocated] at holds
        have held := holds.back.front
        have place : base + by_ + (relocated pre by_).length = base + (offset + by_) := by
          rw [relocated_length, there]
          omega
        rw [place] at held
        have inside := ih bodyEmits held
        have same : base + (offset + by_) = base + by_ + offset := by omega
        rw [same] at inside
        exact inside
      rw [sound_repeated]
      constructor
      · rintro ⟨_, all⟩ offset member
        exact (copy offset member).mp (all offset member)
      · intro all
        exact ⟨region, fun offset member => (copy offset member).mpr (all offset member)⟩

end

/-- A program is consistent exactly when no lookaround was moved after it was
emitted. -/
theorem csRegexCompile_consistent_iff {pattern : List UInt8} {flags : ReFlags} {regex : Regex}
    (accepted : csRegexCompile pattern flags = .ok regex) :
    ∃ tree, patternTree pattern flags.ignoreCase = some tree ∧
      (Consistent regex.code tree 1 ↔ tree.settled = true) := by
  obtain ⟨tree, block, compiled⟩ := csRegexCompile_compiled accepted
  have holds : Holds regex.code (1 + 0) (relocated block 0) := by
    rw [relocated_zero]
    exact ⟨[{ op := .save, x := 0, y := 0 }], _, compiled.code, rfl⟩
  refine ⟨tree, compiled.parsed, ?_⟩
  rw [← Node.sound_zero]
  exact compiled.emits.consistent_iff holds

theorem csRegexCompile_consistent_iff_last :
    ∃ regex, csRegexCompile (ascii "c|(?:(?<!x)(?=a)b)*|(?=d)e") noFlags = .ok regex ∧
      ∃ tree, patternTree (ascii "c|(?:(?<!x)(?=a)b)*|(?=d)e") noFlags.ignoreCase =
          some tree ∧
        (Consistent regex.code tree 1 ↔ tree.settled = true) := by
  obtain ⟨regex, accepted⟩ := exists_of_isOk (csRegexCompile
    (ascii "c|(?:(?<!x)(?=a)b)*|(?=d)e") noFlags) (by decide)
  exact ⟨regex, accepted, csRegexCompile_consistent_iff accepted⟩

/-- The lookahead stands before a `|`, and its continuation is off by one. -/
theorem lookahead_not_relocated :
    ¬∀ (pattern : List UInt8) (flags : ReFlags) (regex : Regex),
      csRegexCompile pattern flags = .ok regex →
      ∃ tree, patternTree pattern flags.ignoreCase = some tree ∧
        Consistent regex.code tree 1 := by
  intro claim
  obtain ⟨regex, accepted⟩ := exists_of_isOk (csRegexCompile
    (ascii "(?=a)b|c") noFlags) (by decide)
  obtain ⟨tree, parsed, consistent⟩ := claim _ _ regex accepted
  obtain ⟨same, sameParsed, exact_⟩ := csRegexCompile_consistent_iff accepted
  rw [parsed] at sameParsed
  cases sameParsed
  have moved : (patternTree (ascii "(?=a)b|c") false).any (fun node => !node.settled) = true := by
    decide
  have settled := exact_.mp consistent
  rw [show patternTree (ascii "(?=a)b|c") false = some tree from parsed, Option.any_some,
    settled] at moved
  cases moved

end CScript
