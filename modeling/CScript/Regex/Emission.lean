/-
What the compiler emits for a syntax tree.

The code of a tree is described from the tree alone, as the copying and the
shifting leave it.  Parsing a pattern then emits the code of its tree, however
the constructs nest.
-/

import CScript.Regex.Syntax

namespace CScript

/-! ### Relocated code -/

def relocated (code : List ReInst) (by_ : Nat) : List ReInst :=
  code.map (fun inst => inst.relocate by_)

@[simp] theorem relocated_length (code : List ReInst) (by_ : Nat) :
    (relocated code by_).length = code.length :=
  List.length_map _

@[simp] theorem relocated_append (front back : List ReInst) (by_ : Nat) :
    relocated (front ++ back) by_ = relocated front by_ ++ relocated back by_ :=
  List.map_append

@[simp] theorem relocated_nil (by_ : Nat) : relocated [] by_ = [] :=
  rfl

@[simp] theorem relocated_cons (inst : ReInst) (code : List ReInst) (by_ : Nat) :
    relocated (inst :: code) by_ = inst.relocate by_ :: relocated code by_ :=
  rfl

theorem ReInst.relocate_zero (inst : ReInst) : inst.relocate 0 = inst := by
  cases inst with
  | mk op x y => cases op <;> rfl

theorem ReInst.relocate_relocate (inst : ReInst) (first second : Nat) :
    (inst.relocate first).relocate second = inst.relocate (first + second) := by
  cases inst with
  | mk op x y => cases op <;> simp [ReInst.relocate, Nat.add_assoc]

@[simp] theorem relocated_zero (code : List ReInst) : relocated code 0 = code := by
  unfold relocated
  simp only [ReInst.relocate_zero, List.map_id_fun', id]

theorem relocated_relocated (code : List ReInst) (first second : Nat) :
    relocated (relocated code first) second = relocated code (first + second) := by
  unfold relocated
  simp only [List.map_map, Function.comp_def, ReInst.relocate_relocate]

/-! ### The code of a repetition -/

/-- Copies of an atom, the first `offset` instructions after the atom. -/
def copiesCode (atom : List ReInst) : Nat → Nat → List ReInst
  | _, 0 => []
  | offset, copies + 1 => relocated atom offset ++ copiesCode atom (offset + atom.length) copies

/-- Lazy quantifiers try the shorter option first. -/
def splitInst (lazy : Bool) (body finish : Nat) : ReInst :=
  { op := .split, x := if lazy then finish else body, y := if lazy then body else finish }

/-- An unbounded loop whose split stands `offset` after the atom's start. -/
def loopCode (atom : List ReInst) (base offset : Nat) (lazy : Bool) : List ReInst :=
  splitInst lazy (base + offset + 1) (base + offset + atom.length + 2) ::
    relocated atom (offset + 1) ++ [{ op := .jump, x := base + offset, y := 0 }]

def optionalCode (atom : List ReInst) (base : Nat) (lazy : Bool) (finish : Nat) :
    Nat → Nat → List ReInst
  | _, 0 => []
  | offset, optional + 1 =>
      splitInst lazy (base + offset + 1) finish :: relocated atom (offset + 1) ++
        optionalCode atom base lazy finish (offset + atom.length + 1) optional

def Bounds.copies (bounds : Bounds) : Nat :=
  bounds.least.toNat

def Bounds.optional (bounds : Bounds) : Nat :=
  (cInt (bounds.most - bounds.least)).toNat

def repeatedCode (atom : List ReInst) (base : Nat) (bounds : Bounds) (lazy : Bool) :
    List ReInst :=
  let offset := bounds.copies * atom.length
  copiesCode atom 0 bounds.copies ++
    if bounds.most = -1 then loopCode atom base offset lazy
    else optionalCode atom base lazy
      (base + offset + bounds.optional * (atom.length + 1)) offset bounds.optional

@[simp] theorem copiesCode_length (atom : List ReInst) (offset copies : Nat) :
    (copiesCode atom offset copies).length = copies * atom.length := by
  induction copies generalizing offset with
  | zero => simp [copiesCode]
  | succ copies ih =>
      rw [copiesCode, List.length_append, relocated_length, ih, Nat.succ_mul, Nat.add_comm]

@[simp] theorem optionalCode_length (atom : List ReInst) (base : Nat) (lazy : Bool)
    (finish offset optional : Nat) :
    (optionalCode atom base lazy finish offset optional).length =
      optional * (atom.length + 1) := by
  induction optional generalizing offset with
  | zero => simp [optionalCode]
  | succ optional ih =>
      simp only [optionalCode, List.cons_append, List.length_cons, List.length_append,
        relocated_length, ih]
      rw [Nat.succ_mul]
      omega

/-! ### Emitting a repetition -/

theorem modify_here (front back : List ReInst) (inst : ReInst) (change : ReInst → ReInst) :
    (front ++ inst :: back).modify front.length change = front ++ change inst :: back := by
  induction front with
  | nil => rfl
  | cons head tail ih =>
      rw [List.cons_append, List.length_cons, List.modify_succ_cons, ih, List.cons_append]

theorem patchX_here {regex : Regex} {front back : List ReInst} {inst : ReInst}
    (code : regex.code = front ++ inst :: back) (x : Nat) :
    patchX regex front.length x =
      { regex with code := front ++ { inst with x := x } :: back } := by
  unfold patchX
  rw [code, modify_here]

theorem patchY_here {regex : Regex} {front back : List ReInst} {inst : ReInst}
    (code : regex.code = front ++ inst :: back) (y : Nat) :
    patchY regex front.length y =
      { regex with code := front ++ { inst with y := y } :: back } := by
  unfold patchY
  rw [code, modify_here]

section

variable (atom pre : List ReInst)

theorem copyAtom_eq {regex : Regex} {written : List ReInst} (code : regex.code = pre ++ written) :
    copyAtom atom pre.length regex =
      { regex with code := pre ++ (written ++ relocated atom written.length) } := by
  unfold copyAtom Regex.count
  simp only [code, List.length_append, Nat.add_sub_cancel_left, List.append_assoc]
  rfl

theorem copyAtoms_eq (copies : Nat) {regex : Regex} {written : List ReInst}
    (code : regex.code = pre ++ written) :
    copyAtoms atom pre.length copies regex =
      { regex with code := pre ++ (written ++ copiesCode atom written.length copies) } := by
  induction copies generalizing regex written with
  | zero =>
      unfold copyAtoms copiesCode
      rw [List.append_nil, ← code]
  | succ copies ih =>
      unfold copyAtoms
      rw [copyAtom_eq atom pre code, ih rfl, copiesCode, List.length_append, relocated_length,
        List.append_assoc]

private theorem openCopy_eq {regex : Regex} {written : List ReInst}
    (code : regex.code = pre ++ written) (x y : Nat) :
    copyAtom atom pre.length (emit regex .split x y) =
      { regex with
        code := (pre ++ written) ++ { op := .split, x := x, y := y } ::
          relocated atom (written.length + 1) } := by
  have opened : (emit regex .split x y).code =
      pre ++ (written ++ [{ op := .split, x := x, y := y }]) := by
    unfold emit
    rw [code, List.append_assoc]
  rw [copyAtom_eq atom pre opened, List.length_append, List.length_singleton]
  simp only [emit, List.append_assoc, List.singleton_append]

theorem loopAtom_eq (lazy : Bool) {regex : Regex} {written : List ReInst}
    (code : regex.code = pre ++ written) :
    loopAtom atom pre.length lazy regex =
      { regex with
        code := pre ++ (written ++ loopCode atom pre.length written.length lazy) } := by
  have count : regex.count = (pre ++ written).length := congrArg List.length code
  have body : (emit regex .split 0 0).count = pre.length + written.length + 1 := by
    simp [Regex.count, emit, code, Nat.add_assoc]
  unfold loopAtom
  simp only [openCopy_eq atom pre code, count, body]
  have closed : (emit { regex with
      code := (pre ++ written) ++ { op := .split, x := 0, y := 0 } ::
        relocated atom (written.length + 1) } .jump (pre ++ written).length 0).code =
      (pre ++ written) ++ { op := .split, x := 0, y := 0 } ::
        (relocated atom (written.length + 1) ++
          [{ op := .jump, x := (pre ++ written).length, y := 0 }]) := by
    simp only [emit, List.append_assoc, List.cons_append]
  have finish : (emit { regex with
      code := (pre ++ written) ++ { op := .split, x := 0, y := 0 } ::
        relocated atom (written.length + 1) } .jump (pre ++ written).length 0).count =
      pre.length + written.length + atom.length + 2 := by
    unfold Regex.count
    rw [closed]
    simp only [List.length_append, List.length_cons, List.length_nil, relocated_length]
    omega
  rw [finish, patchX_here closed, patchY_here rfl]
  simp only [loopCode, splitInst, emit, List.length_append, List.append_assoc, List.cons_append]

def splitPlaces (length : Nat) : Nat → Nat → List Nat
  | _, 0 => []
  | first, optional + 1 => first :: splitPlaces length (first + length + 1) optional

private theorem optionalAtoms_eq (lazy : Bool) (optional : Nat) {regex : Regex}
    {written : List ReInst} (code : regex.code = pre ++ written) :
    optionalAtoms atom pre.length lazy optional regex =
      ({ regex with
         code := (pre ++ written) ++
           optionalCode atom pre.length lazy 0 written.length optional },
       splitPlaces atom.length (pre ++ written).length optional) := by
  induction optional generalizing regex written with
  | zero =>
      unfold optionalAtoms optionalCode splitPlaces
      rw [List.append_nil, ← code]
  | succ optional ih =>
      have count : regex.count = (pre ++ written).length := congrArg List.length code
      have body : (emit regex .split 0 0).count = pre.length + written.length + 1 := by
        simp [Regex.count, emit, code, Nat.add_assoc]
      unfold optionalAtoms
      simp only [openCopy_eq atom pre code, count, body]
      rw [patchX_here rfl, patchY_here rfl]
      have next : ∀ inst : ReInst, (pre ++ written) ++ inst ::
          relocated atom (written.length + 1) =
            pre ++ (written ++ inst :: relocated atom (written.length + 1)) :=
        fun inst => List.append_assoc _ _ _
      rw [ih (next _)]
      have length : (written ++ splitInst lazy (pre.length + written.length + 1) 0 ::
          relocated atom (written.length + 1)).length = written.length + atom.length + 1 := by
        simp only [List.length_append, List.length_cons, relocated_length]
        omega
      have place : (pre ++ (written ++ splitInst lazy (pre.length + written.length + 1) 0 ::
          relocated atom (written.length + 1))).length =
            (pre ++ written).length + atom.length + 1 := by
        rw [List.length_append, length, List.length_append]
        omega
      unfold splitInst at length place
      rw [length, place, optionalCode, splitPlaces, splitInst]
      simp only [List.append_assoc, List.cons_append]

private theorem patchSplits_eq (lazy : Bool) (base finish offset optional : Nat)
    {regex : Regex} {front : List ReInst}
    (code : regex.code = front ++ optionalCode atom base lazy 0 offset optional) :
    (splitPlaces atom.length front.length optional).foldl (fun patched split =>
        if lazy then patchX patched split finish else patchY patched split finish) regex =
      { regex with code := front ++ optionalCode atom base lazy finish offset optional } := by
  induction optional generalizing regex front offset with
  | zero =>
      unfold optionalCode splitPlaces
      unfold optionalCode at code
      rw [← code]
      rfl
  | succ optional ih =>
      rw [optionalCode, List.cons_append] at code
      have patched : (if lazy then patchX regex front.length finish
          else patchY regex front.length finish) =
          { regex with
            code := (front ++ splitInst lazy (base + offset + 1) finish ::
                relocated atom (offset + 1)) ++
              optionalCode atom base lazy 0 (offset + atom.length + 1) optional } := by
        cases lazy with
        | true =>
            rw [if_pos rfl, patchX_here code]
            simp only [splitInst, if_true, List.append_assoc, List.cons_append]
        | false =>
            rw [if_neg Bool.false_ne_true, patchY_here code]
            simp only [splitInst, Bool.false_eq_true, if_false, List.append_assoc,
              List.cons_append]
      have place : (front ++ splitInst lazy (base + offset + 1) finish ::
          relocated atom (offset + 1)).length = front.length + atom.length + 1 := by
        simp only [List.length_append, List.length_cons, relocated_length]
        omega
      rw [splitPlaces, List.foldl_cons, patched, ← place, ih _ rfl, optionalCode]
      simp only [List.append_assoc, List.cons_append]

theorem repeatAtom_eq {regex : Regex} (code : regex.code = pre ++ atom) (bounds : Bounds)
    (lazy : Bool) :
    repeatAtom regex pre.length bounds lazy =
      { regex with code := pre ++ repeatedCode atom pre.length bounds lazy } := by
  have lifted : ({ regex with code := regex.code.take pre.length } : Regex).code = pre ++ [] := by
    rw [code, List.take_left, List.append_nil]
  have drop : regex.code.drop pre.length = atom := by
    rw [code, List.drop_left]
  unfold repeatAtom
  simp only [drop]
  rw [copyAtoms_eq atom pre _ lifted]
  simp only [List.nil_append, List.length_nil]
  unfold repeatedCode
  by_cases unbounded : bounds.most = -1
  · simp only [if_pos unbounded]
    rw [loopAtom_eq atom pre lazy rfl, copiesCode_length]
    rfl
  · simp only [if_neg unbounded]
    rw [optionalAtoms_eq atom pre lazy _ rfl]
    unfold patchSplits
    rw [patchSplits_eq atom lazy pre.length _ _ _ rfl, copiesCode_length, List.append_assoc]
    simp only [Regex.count, List.length_append, copiesCode_length, optionalCode_length,
      Bounds.copies, Bounds.optional]

end

/-! ### The code of a tree -/

/-- The bounds of a quantifier after they have been read into an `int`. -/
def compiledBounds (least : Nat) (most : Option Nat) : Bounds :=
  { least := cInt least
    most := match most with
      | none => -1
      | some most => cInt most }

def lookInst (behind negated : Bool) (continuation : Nat) : ReInst :=
  { op := if behind then .lookbehind else .look
    x := if negated then 1 else 0
    y := continuation }

/-- The code a tree has when it is emitted at `base`.  What is copied or shifted
afterwards has its splits and jumps relocated and nothing else. -/
def Emits (ignoreCase : Bool) (classes : List ReClass) : Node → Nat → List ReInst → Prop
  | .empty, _, code => code = []
  | .literal byte, _, code =>
      if ignoreCase then
        ∃ index, code = [{ op := .class_, x := index, y := 0 }] ∧
          classes[index]? = some (foldedByte byte)
      else code = [{ op := .char, x := byte.toNat, y := 0 }]
  | .any, _, code => code = [{ op := .any, x := 0, y := 0 }]
  | .set set, _, code =>
      ∃ index, code = [{ op := .class_, x := index, y := 0 }] ∧ classes[index]? = some set
  | .lineStart, _, code => code = [{ op := .assertBol, x := 0, y := 0 }]
  | .lineEnd, _, code => code = [{ op := .assertEol, x := 0, y := 0 }]
  | .word positive, _, code =>
      code = [{ op := .assertWord, x := if positive then 1 else 0, y := 0 }]
  | .backref group, _, code => code = [{ op := .backref, x := group, y := 0 }]
  | .group none body, base, code => Emits ignoreCase classes body base code
  | .group (some group) body, base, code =>
      ∃ inner, code = { op := .save, x := group * 2, y := 0 } ::
          (inner ++ [{ op := .save, x := group * 2 + 1, y := 0 }]) ∧
        Emits ignoreCase classes body (base + 1) inner
  | .look behind negated body, base, code =>
      ∃ inner, code = lookInst behind negated (base + inner.length + 2) ::
          (inner ++ [{ op := .lookEnd, x := 0, y := 0 }]) ∧
        Emits ignoreCase classes body (base + 1) inner
  | .sequence first rest, base, code =>
      ∃ front back, code = front ++ back ∧ Emits ignoreCase classes first base front ∧
        Emits ignoreCase classes rest (base + front.length) back
  | .alternate left right, base, code =>
      ∃ front back, code = { op := .split, x := base + 1, y := base + front.length + 2 } ::
          (relocated front 1 ++
            { op := .jump, x := base + front.length + 2 + back.length, y := 0 } :: back) ∧
        Emits ignoreCase classes left base front ∧
        Emits ignoreCase classes right (base + front.length + 2) back
  | .repeated body least most lazy, base, code =>
      ∃ atom, code = repeatedCode atom base (compiledBounds least most) lazy ∧
        Emits ignoreCase classes body base atom

theorem Emits.mono {ignoreCase : Bool} {classes more : List ReClass} (grown : classes <+: more)
    {node : Node} {base : Nat} {code : List ReInst} (emits : Emits ignoreCase classes node base code) :
    Emits ignoreCase more node base code := by
  have kept : ∀ (index : Nat) (set : ReClass), classes[index]? = some set →
      more[index]? = some set := by
    intro index set here
    obtain ⟨added, rfl⟩ := grown
    rw [List.getElem?_append_left (List.getElem?_eq_some_iff.mp here).1]
    exact here
  induction node generalizing base code with
  | empty | any | lineStart | lineEnd | word _ | backref _ => exact emits
  | literal byte =>
      cases ignoreCase with
      | false => exact emits
      | true =>
          obtain ⟨index, code, here⟩ := emits
          exact ⟨index, code, kept index _ here⟩
  | set set =>
      obtain ⟨index, code, here⟩ := emits
      exact ⟨index, code, kept index _ here⟩
  | group capture body ih =>
      cases capture with
      | none => exact ih emits
      | some group =>
          obtain ⟨inner, code, body⟩ := emits
          exact ⟨inner, code, ih body⟩
  | look behind negated body ih =>
      obtain ⟨inner, code, body⟩ := emits
      exact ⟨inner, code, ih body⟩
  | sequence first rest ihFirst ihRest =>
      obtain ⟨front, back, code, first, rest⟩ := emits
      exact ⟨front, back, code, ihFirst first, ihRest rest⟩
  | alternate left right ihLeft ihRight =>
      obtain ⟨front, back, code, left, right⟩ := emits
      exact ⟨front, back, code, ihLeft left, ihRight right⟩
  | repeated body least most lazy ih =>
      obtain ⟨atom, code, body⟩ := emits
      exact ⟨atom, code, ih body⟩

/-! ### Targets -/

def ReInst.Within (inst : ReInst) (low high : Nat) : Prop :=
  (inst.op = .split → (low ≤ inst.x ∧ inst.x ≤ high) ∧ low ≤ inst.y ∧ inst.y ≤ high) ∧
    (inst.op = .jump → low ≤ inst.x ∧ inst.x ≤ high)

theorem ReInst.Within.widen {inst : ReInst} {low high less more : Nat}
    (within : inst.Within low high) (down : less ≤ low) (up : high ≤ more) :
    inst.Within less more := by
  constructor
  · intro split
    obtain ⟨⟨xLow, xHigh⟩, yLow, yHigh⟩ := within.1 split
    exact ⟨⟨by omega, by omega⟩, by omega, by omega⟩
  · intro jump
    obtain ⟨xLow, xHigh⟩ := within.2 jump
    exact ⟨by omega, by omega⟩

theorem ReInst.Within.relocate {inst : ReInst} {low high : Nat} (within : inst.Within low high)
    (by_ : Nat) : (inst.relocate by_).Within (low + by_) (high + by_) := by
  cases inst with
  | mk op x y =>
      cases op <;> simp_all [ReInst.Within, ReInst.relocate]

def CodeWithin (code : List ReInst) (low high : Nat) : Prop :=
  ∀ inst ∈ code, inst.Within low high

theorem CodeWithin.widen {code : List ReInst} {low high less more : Nat}
    (within : CodeWithin code low high) (down : less ≤ low) (up : high ≤ more) :
    CodeWithin code less more :=
  fun inst member => (within inst member).widen down up

theorem CodeWithin.relocated {code : List ReInst} {low high : Nat}
    (within : CodeWithin code low high) (by_ : Nat) :
    CodeWithin (relocated code by_) (low + by_) (high + by_) := by
  intro inst member
  obtain ⟨one, oneMember, rfl⟩ := List.mem_map.mp member
  exact (within one oneMember).relocate by_

theorem CodeWithin.append {front back : List ReInst} {low high : Nat}
    (frontWithin : CodeWithin front low high) (backWithin : CodeWithin back low high) :
    CodeWithin (front ++ back) low high := by
  intro inst member
  rcases List.mem_append.mp member with old | new
  · exact frontWithin inst old
  · exact backWithin inst new

theorem CodeWithin.cons {inst : ReInst} {code : List ReInst} {low high : Nat}
    (first : inst.Within low high) (rest : CodeWithin code low high) :
    CodeWithin (inst :: code) low high := by
  intro one member
  rcases List.mem_cons.mp member with rfl | later
  · exact first
  · exact rest one later

theorem within_of_straight {inst : ReInst} (noSplit : inst.op ≠ .split) (noJump : inst.op ≠ .jump)
    (low high : Nat) : inst.Within low high :=
  ⟨fun split => absurd split noSplit, fun jump => absurd jump noJump⟩

theorem codeWithin_straight {inst : ReInst} (noSplit : inst.op ≠ .split)
    (noJump : inst.op ≠ .jump) (low high : Nat) : CodeWithin [inst] low high := by
  intro one member
  rw [List.mem_singleton.mp member]
  exact within_of_straight noSplit noJump low high

theorem splitInst_within (lazy : Bool) {body finish low high : Nat} (bodyLow : low ≤ body)
    (bodyHigh : body ≤ high) (finishLow : low ≤ finish) (finishHigh : finish ≤ high) :
    (splitInst lazy body finish).Within low high := by
  cases lazy <;>
    exact ⟨fun _ => ⟨⟨by assumption, by assumption⟩, by assumption, by assumption⟩,
      fun wrong => by cases wrong⟩

section

variable {atom : List ReInst} {base : Nat}

theorem copiesCode_within (within : CodeWithin atom base (base + atom.length))
    (offset copies : Nat) :
    CodeWithin (copiesCode atom offset copies) (base + offset)
      (base + offset + copies * atom.length) := by
  induction copies generalizing offset with
  | zero =>
      intro inst member
      cases member
  | succ copies ih =>
      have more : (copies + 1) * atom.length = copies * atom.length + atom.length :=
        Nat.succ_mul copies atom.length
      rw [copiesCode]
      exact ((within.relocated offset).widen (by omega) (by omega)).append
        ((ih (offset + atom.length)).widen (by omega) (by omega))

theorem optionalCode_within (within : CodeWithin atom base (base + atom.length)) (lazy : Bool)
    {finish : Nat} (offset optional : Nat)
    (fits : base + offset + optional * (atom.length + 1) ≤ finish) :
    CodeWithin (optionalCode atom base lazy finish offset optional) (base + offset) finish := by
  induction optional generalizing offset with
  | zero =>
      intro inst member
      cases member
  | succ optional ih =>
      have more : (optional + 1) * (atom.length + 1) =
          optional * (atom.length + 1) + (atom.length + 1) := Nat.succ_mul optional _
      rw [optionalCode, List.cons_append]
      exact .cons (splitInst_within lazy (by omega) (by omega) (by omega) (by omega))
        (((within.relocated (offset + 1)).widen (by omega) (by omega)).append
          ((ih (offset + atom.length + 1) (by omega)).widen (by omega) (by omega)))

theorem loopCode_within (within : CodeWithin atom base (base + atom.length)) (offset : Nat)
    (lazy : Bool) :
    CodeWithin (loopCode atom base offset lazy) (base + offset)
      (base + offset + atom.length + 2) := by
  unfold loopCode
  refine .cons (splitInst_within lazy (by omega) (by omega) (by omega) (by omega)) ?_
  refine ((within.relocated (offset + 1)).widen (by omega) (by omega)).append ?_
  refine .cons ⟨(fun wrong => by cases wrong), fun _ => ⟨?_, ?_⟩⟩ (fun _ wrong => by cases wrong)
  · exact Nat.le_refl _
  · exact Nat.le_of_lt (by dsimp only; omega)

end

def Node.size : Node → Nat
  | .empty => 0
  | .group none body => body.size
  | .group (some _) body => body.size + 2
  | .look _ _ body => body.size + 2
  | .sequence first rest => first.size + rest.size
  | .alternate left right => left.size + right.size + 2
  | .repeated body least most _ =>
      let bounds := compiledBounds least most
      bounds.copies * body.size +
        if bounds.most = -1 then body.size + 2 else bounds.optional * (body.size + 1)
  | _ => 1

theorem repeatedCode_length (atom : List ReInst) (base : Nat) (bounds : Bounds) (lazy : Bool) :
    (repeatedCode atom base bounds lazy).length = bounds.copies * atom.length +
      if bounds.most = -1 then atom.length + 2 else bounds.optional * (atom.length + 1) := by
  unfold repeatedCode
  rw [List.length_append, copiesCode_length]
  by_cases unbounded : bounds.most = -1
  · simp [if_pos unbounded, loopCode]
  · simp [if_neg unbounded]

theorem repeatedCode_within {atom : List ReInst} {base : Nat}
    (within : CodeWithin atom base (base + atom.length)) (bounds : Bounds) (lazy : Bool) :
    CodeWithin (repeatedCode atom base bounds lazy) base
      (base + (repeatedCode atom base bounds lazy).length) := by
  have length := repeatedCode_length atom base bounds lazy
  have copies := copiesCode_within within 0 bounds.copies
  by_cases unbounded : bounds.most = -1
  · have loop := loopCode_within within (bounds.copies * atom.length) lazy
    rw [if_pos unbounded] at length
    unfold repeatedCode at length ⊢
    simp only [if_pos unbounded] at length ⊢
    rw [length]
    exact (copies.widen (by omega) (by omega)).append (loop.widen (by omega) (by omega))
  · have optional := optionalCode_within within lazy (bounds.copies * atom.length)
      bounds.optional (Nat.le_refl _)
    rw [if_neg unbounded] at length
    unfold repeatedCode at length ⊢
    simp only [if_neg unbounded] at length ⊢
    rw [length]
    exact (copies.widen (by omega) (by omega)).append (optional.widen (by omega) (by omega))

theorem Emits.within {ignoreCase : Bool} {classes : List ReClass} {node : Node} {base : Nat}
    {code : List ReInst} (emits : Emits ignoreCase classes node base code) :
    code.length = node.size ∧ CodeWithin code base (base + code.length) := by
  have straight : ∀ (base : Nat) (code : List ReInst) (inst : ReInst), code = [inst] →
      inst.op ≠ .split → inst.op ≠ .jump →
      code.length = 1 ∧ CodeWithin code base (base + code.length) := by
    rintro base code inst rfl noSplit noJump
    exact ⟨rfl, codeWithin_straight noSplit noJump _ _⟩
  induction node generalizing base code with
  | empty =>
      cases emits
      exact ⟨rfl, fun _ wrong => by cases wrong⟩
  | literal byte =>
      cases ignoreCase with
      | false => exact straight base code _ emits nofun nofun
      | true =>
          obtain ⟨index, one, _⟩ := emits
          exact straight base code _ one nofun nofun
  | any | lineStart | lineEnd | word _ | backref _ =>
      exact straight base code _ emits nofun nofun
  | set set =>
      obtain ⟨index, one, _⟩ := emits
      exact straight base code _ one nofun nofun
  | group capture body ih =>
      cases capture with
      | none => exact ih emits
      | some group =>
          obtain ⟨inner, rfl, bodyEmits⟩ := emits
          obtain ⟨length, within⟩ := ih bodyEmits
          constructor
          · simp only [List.length_cons, List.length_append, List.length_nil, length, Node.size]
          · refine .cons (within_of_straight (by nofun) (by nofun) _ _) ?_
            refine (within.widen (by omega) ?_).append (codeWithin_straight (by nofun) (by nofun) _ _)
            simp only [List.length_cons, List.length_append]
            omega
  | look behind negated body ih =>
      obtain ⟨inner, rfl, bodyEmits⟩ := emits
      obtain ⟨length, within⟩ := ih bodyEmits
      constructor
      · simp only [List.length_cons, List.length_append, List.length_nil, length, Node.size]
      · refine .cons (within_of_straight ?_ ?_ _ _) ?_
        · cases behind <;> exact nofun
        · cases behind <;> exact nofun
        · refine (within.widen (by omega) ?_).append (codeWithin_straight (by nofun) (by nofun) _ _)
          simp only [List.length_cons, List.length_append]
          omega
  | sequence first rest ihFirst ihRest =>
      obtain ⟨front, back, rfl, firstEmits, restEmits⟩ := emits
      obtain ⟨frontLength, frontWithin⟩ := ihFirst firstEmits
      obtain ⟨backLength, backWithin⟩ := ihRest restEmits
      constructor
      · rw [List.length_append, frontLength, backLength, Node.size]
      · rw [List.length_append]
        exact (frontWithin.widen (by omega) (by omega)).append
          (backWithin.widen (by omega) (by omega))
  | alternate left right ihLeft ihRight =>
      obtain ⟨front, back, rfl, leftEmits, rightEmits⟩ := emits
      obtain ⟨frontLength, frontWithin⟩ := ihLeft leftEmits
      obtain ⟨backLength, backWithin⟩ := ihRight rightEmits
      have length : ({ op := .split, x := base + 1, y := base + front.length + 2 } ::
          (relocated front 1 ++
            { op := .jump, x := base + front.length + 2 + back.length, y := 0 } ::
              back)).length = front.length + back.length + 2 := by
        simp only [List.length_cons, List.length_append, relocated_length]
        omega
      rw [length]
      constructor
      · rw [frontLength, backLength, Node.size]
      · refine .cons ⟨fun _ => ⟨⟨?_, ?_⟩, ?_, ?_⟩, nofun⟩ ?_
        · exact Nat.le_succ base
        · dsimp only; omega
        · dsimp only; omega
        · dsimp only; omega
        · refine ((frontWithin.relocated 1).widen (by omega) (by omega)).append ?_
          refine .cons ⟨nofun, fun _ => ⟨?_, ?_⟩⟩ (backWithin.widen (by omega) (by omega))
          · dsimp only; omega
          · dsimp only; omega
  | repeated body least most lazy ih =>
      obtain ⟨atom, codeEq, bodyEmits⟩ := emits
      obtain ⟨length, within⟩ := ih bodyEmits
      rw [codeEq]
      constructor
      · simp only [repeatedCode_length, length, Node.size]
      · exact repeatedCode_within within _ lazy

end CScript
