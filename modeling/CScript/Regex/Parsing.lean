/-
Compiling a pattern emits the code of its tree.

The two parsers take the same steps: where the compiler accepts, the tree parser
stands at the same place, has counted the same groups, and its tree is the one
the new code belongs to.
-/

import CScript.Regex.Emission

namespace CScript

theorem bind_ok {α β : Type} {first : ReResult α} {next : α → ReResult β} {answer : β}
    (ran : first >>= next = .ok answer) : ∃ value, first = .ok value ∧ next value = .ok answer := by
  cases first with
  | error failure => cases ran
  | ok value => exact ⟨value, rfl, ran⟩

/-! ### Quantifiers -/

theorem cInt_step (n digit : Int) : cInt (cInt (cInt n * 10) + digit) = cInt (n * 10 + digit) := by
  unfold cInt
  rw [Int.bmod_mul_bmod, Int.bmod_add_bmod]

theorem readInt_eq {digits : List UInt8} (all : ∀ digit ∈ digits, isDigit digit = true) :
    readInt digits = cInt (readNat digits) := by
  have step : ∀ (rest : List UInt8) (n : Nat), (∀ digit ∈ rest, isDigit digit = true) →
      rest.foldl (fun n digit => cInt (cInt (n * 10) + ((digit.toNat : Int) - 48))) (cInt n) =
        cInt (rest.foldl (fun n digit => n * 10 + (digit.toNat - 48)) n : Nat) := by
    intro rest
    induction rest with
    | nil =>
        intro n _
        rw [List.foldl_nil, List.foldl_nil]
    | cons digit rest ih =>
        intro n all
        have low : 48 ≤ digit.toNat := by
          have isDigit_ := all digit (List.mem_cons_self ..)
          unfold isDigit at isDigit_
          rw [Bool.and_eq_true, decide_eq_true_eq] at isDigit_
          exact UInt8.le_iff_toNat_le.mp isDigit_.1
        have whole : (n : Int) * 10 + ((digit.toNat : Int) - 48) =
            ((n * 10 + (digit.toNat - 48) : Nat) : Int) := by omega
        have next : cInt (cInt (cInt n * 10) + ((digit.toNat : Int) - 48)) =
            cInt ((n * 10 + (digit.toNat - 48) : Nat) : Int) := by
          rw [cInt_step, whole]
        rw [List.foldl_cons, List.foldl_cons, next]
        exact ih _ (fun one member => all one (List.mem_cons_of_mem _ member))
  have whole := step digits 0 all
  rw [cInt_small (by decide) (by decide)] at whole
  exact whole

private theorem closeBrace_some {given braces : Braces} {rest after : List UInt8}
    (closed : closeBrace given rest = some (braces, after)) : braces = given := by
  unfold closeBrace at closed
  split at closed
  · cases closed
  · split at closed
    · cases closed
      rfl
    · cases closed

theorem readBraces_digits {rest after : List UInt8} {braces : Braces}
    (found : readBraces rest = some (braces, after)) :
    (∀ digit ∈ braces.least, isDigit digit = true) ∧
      ∀ most, braces.most = some most → ∀ digit ∈ most, isDigit digit = true := by
  have digits : ∀ (text : List UInt8), ∀ digit ∈ text.takeWhile isDigit,
      isDigit digit = true := fun text => List.all_eq_true.mp List.all_takeWhile
  unfold readBraces at found
  dsimp only at found
  split at found
  · cases found
  · split at found
    · cases found
    · split at found
      · split at found
        · rw [closeBrace_some found]
          exact ⟨digits rest, fun most equal => by cases equal⟩
        · rw [closeBrace_some found]
          exact ⟨digits rest, fun most equal => by cases equal; exact digits _⟩
      · rw [closeBrace_some found]
        exact ⟨digits rest, fun most equal => by cases equal; exact digits rest⟩

private theorem compiledBounds_plain :
    compiledBounds 0 none = { least := 0, most := -1 } ∧
      compiledBounds 1 none = { least := 1, most := -1 } ∧
      compiledBounds 0 (some 1) = { least := 0, most := 1 } := by
  have zero : cInt (0 : Nat) = 0 := cInt_small (by decide) (by decide)
  have one : cInt (1 : Nat) = 1 := cInt_small (by decide) (by decide)
  simp only [compiledBounds, zero, one, and_self]

theorem readBounds_written {rest : List UInt8} {answer : Option (Bounds × List UInt8)}
    (ran : readBounds rest = .ok answer) :
    answer = (writtenBounds rest).map
      (fun found => (compiledBounds found.1.least found.1.most, found.2)) := by
  obtain ⟨star_, plus_, mark_⟩ := compiledBounds_plain
  unfold readBounds at ran
  unfold writtenBounds
  cases rest with
  | nil => cases ran; rfl
  | cons c rest =>
      by_cases star : c = '*'.toUInt8
      · simp only [if_pos star, Option.map_some, star_] at ran ⊢
        cases ran
        rfl
      by_cases plus : c = '+'.toUInt8
      · simp only [if_neg star, if_pos plus, Option.map_some, plus_] at ran ⊢
        cases ran
        rfl
      by_cases mark : c = '?'.toUInt8
      · simp only [if_neg star, if_neg plus, if_pos mark, Option.map_some, mark_] at ran ⊢
        cases ran
        rfl
      by_cases brace : c = '\x7b'.toUInt8
      · simp only [if_neg star, if_neg plus, if_neg mark, if_pos brace] at ran ⊢
        cases found : readBraces rest with
        | none =>
            rw [found] at ran
            cases ran
            rfl
        | some read =>
            obtain ⟨braces, after⟩ := read
            rw [found] at ran
            obtain ⟨bounds, checked, finished⟩ := bind_ok ran
            cases finished
            obtain ⟨least, most⟩ := readBraces_digits found
            have same : bounds = compiledBounds (readNat braces.least)
                (braces.most.map readNat) := by
              unfold checkBounds at checked
              split at checked
              · cases checked
              · split at checked
                · cases checked
                · cases checked
                  unfold compiledBounds
                  rw [readInt_eq least]
                  cases given : braces.most with
                  | none => rfl
                  | some digits =>
                      rw [Option.map_some, Option.getD_some, readInt_eq (most digits given)]
                      rfl
            rw [same]
            rfl
      · simp only [if_neg star, if_neg plus, if_neg mark, if_neg brace] at ran ⊢
        cases ran
        rfl

/-! ### What is emitted -/

def Regex.flags (regex : Regex) : ReFlags :=
  { ignoreCase := regex.ignoreCase, multiline := regex.multiline, dotAll := regex.dotAll }

structure Emitted (before after : Regex) (node : Node) : Prop where
  code : ∃ block, after.code = before.code ++ block ∧
    Emits before.ignoreCase after.classes node before.count block
  classes : before.classes <+: after.classes
  flags : after.flags = before.flags

theorem Emitted.ignoreCase {before after : Regex} {node : Node}
    (emitted : Emitted before after node) : after.ignoreCase = before.ignoreCase :=
  congrArg ReFlags.ignoreCase emitted.flags

def ReParser.scan (parser : ReParser) : Scan :=
  { groups := parser.regex.groupCount, rest := parser.rest }

def Agrees (ignoreCase : Bool) (parse : ReParser → ReResult ReParser)
    (tree : Scan → Option (Node × Scan)) : Prop :=
  ∀ (parser after : ReParser), parser.regex.ignoreCase = ignoreCase → parse parser = .ok after →
    ∃ node, tree parser.scan = some (node, after.scan) ∧
      Emitted parser.regex after.regex node

theorem emitted_nothing (regex : Regex) : Emitted regex regex .empty :=
  ⟨⟨[], (List.append_nil _).symm, rfl⟩, List.prefix_refl _, rfl⟩

theorem emitted_leaf (regex : Regex) {op : ReOp} {x : Nat} {node : Node}
    (leaf : ∀ base, Emits regex.ignoreCase regex.classes node base
      [{ op := op, x := x, y := 0 }]) :
    Emitted regex (emit regex op x 0) node :=
  ⟨⟨_, rfl, leaf _⟩, List.prefix_refl _, rfl⟩

theorem emitted_set (parser : ReParser) (set : ReClass) :
    Emitted parser.regex (emitClass parser set).regex (.set set) :=
  ⟨⟨_, rfl, _, rfl, List.getElem?_concat_length⟩, List.prefix_append _ _, rfl⟩

theorem emitted_byte (parser : ReParser) (byte : UInt8) :
    Emitted parser.regex (emitByte parser byte).regex (.literal byte) := by
  unfold emitByte
  cases folds : parser.regex.ignoreCase with
  | false =>
      refine ⟨⟨_, rfl, ?_⟩, List.prefix_refl _, rfl⟩
      rw [folds]
      exact rfl
  | true =>
      refine ⟨⟨_, rfl, ?_⟩, List.prefix_append _ _, rfl⟩
      rw [folds]
      exact ⟨_, rfl, List.getElem?_concat_length⟩

theorem emitByte_scan (parser : ReParser) (byte : UInt8) :
    (emitByte parser byte).scan = parser.scan := by
  unfold emitByte
  cases parser.regex.ignoreCase <;> rfl

theorem Emitted.sequence {before middle after : Regex} {first rest : Node}
    (begun : Emitted before middle first) (ended : Emitted middle after rest) :
    Emitted before after (.sequence first rest) := by
  obtain ⟨front, frontCode, frontEmits⟩ := begun.code
  obtain ⟨back, backCode, backEmits⟩ := ended.code
  have place : middle.count = before.count + front.length := by
    unfold Regex.count
    rw [frontCode, List.length_append]
  rw [place, begun.ignoreCase] at backEmits
  refine ⟨⟨front ++ back, ?_, front, back, rfl, frontEmits.mono ended.classes, backEmits⟩,
    begun.classes.trans ended.classes, ended.flags.trans begun.flags⟩
  rw [backCode, frontCode, List.append_assoc]

theorem Emitted.capture {before opened closed : Regex} {body : Node} {group : Nat}
    (start : opened.code = before.code ++ [{ op := .save, x := group * 2, y := 0 }])
    (classes : opened.classes = before.classes) (flags : opened.flags = before.flags)
    (inside : Emitted opened closed body) :
    Emitted before (emit closed .save (group * 2 + 1) 0) (.group (some group) body) := by
  obtain ⟨inner, innerCode, innerEmits⟩ := inside.code
  have place : opened.count = before.count + 1 := by
    unfold Regex.count
    rw [start, List.length_append, List.length_singleton]
  have folds : opened.ignoreCase = before.ignoreCase := congrArg ReFlags.ignoreCase flags
  rw [place, folds] at innerEmits
  refine ⟨⟨_, ?_, inner, rfl, innerEmits⟩, ?_, inside.flags.trans flags⟩
  · simp only [emit, innerCode, start, List.append_assoc, List.cons_append, List.nil_append]
  · rw [← classes]
    exact inside.classes

theorem Emitted.look {before closed : Regex} {behind negated : Bool} {body : Node}
    (inside : Emitted (emit before (if behind then .lookbehind else .look)
      (if negated then 1 else 0) 0) closed body) :
    Emitted before (patchY (emit closed .lookEnd 0 0) before.count
      (emit closed .lookEnd 0 0).count) (.look behind negated body) := by
  obtain ⟨inner, innerCode, innerEmits⟩ := inside.code
  have place : (emit before (if behind then .lookbehind else .look)
      (if negated then 1 else 0) 0).count = before.count + 1 := by
    simp [Regex.count, emit]
  have ended : (emit closed .lookEnd 0 0).code = before.code ++
      lookInst behind negated 0 :: (inner ++ [{ op := .lookEnd, x := 0, y := 0 }]) := by
    simp only [emit, innerCode, lookInst, List.append_assoc, List.cons_append, List.nil_append]
  have count : (emit closed .lookEnd 0 0).count = before.count + inner.length + 2 := by
    unfold Regex.count
    rw [ended]
    simp only [List.length_append, List.length_cons, List.length_nil]
    omega
  rw [place] at innerEmits
  rw [count]
  have patched : patchY (emit closed .lookEnd 0 0) before.count (before.count + inner.length + 2) =
      _ := patchY_here ended _
  rw [patched]
  exact ⟨⟨_, rfl, inner, rfl, innerEmits⟩, inside.classes, inside.flags⟩

private theorem shift_eq {inst : ReInst} {low high : Nat} (within : inst.Within low high) :
    inst.shift low = inst.relocate 1 := by
  cases inst with
  | mk op x y =>
      cases op with
      | split =>
          obtain ⟨⟨xLow, _⟩, yLow, _⟩ := within.1 rfl
          unfold ReInst.shift ReInst.relocate
          dsimp only at xLow yLow ⊢
          rw [if_pos xLow, if_pos yLow]
      | jump =>
          obtain ⟨xLow, _⟩ := within.2 rfl
          unfold ReInst.shift ReInst.relocate
          dsimp only at xLow ⊢
          rw [if_pos xLow]
      | _ => rfl

theorem openAlternative_eq {regex : Regex} {pre front : List ReInst}
    (code : regex.code = pre ++ front)
    (within : CodeWithin front pre.length (pre.length + front.length)) :
    openAlternative regex pre.length =
      { regex with
        code := (pre ++ { op := .split, x := pre.length + 1, y := pre.length + front.length + 2 } ::
          relocated front 1) ++ [{ op := .jump, x := 0, y := 0 }] } := by
  have moved : front.map (fun inst => inst.shift pre.length) = relocated front 1 :=
    List.map_congr_left (fun inst member => shift_eq (within inst member))
  unfold openAlternative
  simp only [code, List.drop_left, List.take_left, moved]
  have jumped : (emit { regex with
      code := pre ++ { op := .split, x := pre.length + 1, y := 0 } :: relocated front 1 }
      .jump 0 0).code = pre ++ { op := .split, x := pre.length + 1, y := 0 } ::
        (relocated front 1 ++ [{ op := .jump, x := 0, y := 0 }]) := by
    simp only [emit, List.append_assoc, List.cons_append]
  have count : (emit { regex with
      code := pre ++ { op := .split, x := pre.length + 1, y := 0 } :: relocated front 1 }
      .jump 0 0).count = pre.length + front.length + 2 := by
    unfold Regex.count
    rw [jumped]
    simp only [List.length_append, List.length_cons, List.length_nil, relocated_length]
    omega
  rw [patchY_here jumped, count]
  simp only [emit, List.append_assoc, List.cons_append]

theorem Emitted.alternate {before middle after : Regex} {left right : Node}
    (begun : Emitted before middle left)
    (ended : Emitted (openAlternative middle before.count) after right) :
    Emitted before
      (patchX after ((openAlternative middle before.count).count - 1) after.count)
      (.alternate left right) := by
  obtain ⟨front, frontCode, frontEmits⟩ := begun.code
  obtain ⟨back, backCode, backEmits⟩ := ended.code
  have opened := openAlternative_eq frontCode frontEmits.within.2
  have openedClasses : (openAlternative middle before.count).classes = middle.classes := by
    have same := congrArg Regex.classes opened
    exact same
  have openedFlags : (openAlternative middle before.count).flags = middle.flags := by
    have same := congrArg Regex.flags opened
    exact same
  have openedFolds : (openAlternative middle before.count).ignoreCase = before.ignoreCase :=
    (congrArg ReFlags.ignoreCase openedFlags).trans begun.ignoreCase
  have openedCode : (openAlternative middle before.count).code = _ := congrArg Regex.code opened
  have openedCount : (openAlternative middle before.count).count =
      before.count + front.length + 2 := by
    unfold Regex.count at openedCode ⊢
    rw [openedCode]
    simp only [List.length_append, List.length_cons, List.length_nil, relocated_length]
    omega
  have place : (openAlternative middle before.count).count - 1 =
      (before.code ++ { op := .split, x := before.code.length + 1
                        y := before.code.length + front.length + 2 } ::
          relocated front 1).length := by
    rw [openedCount]
    simp only [List.length_append, List.length_cons, relocated_length, Regex.count]
    omega
  have afterCode : after.code = (before.code ++
      { op := .split, x := before.code.length + 1, y := before.code.length + front.length + 2 } ::
        relocated front 1) ++ { op := .jump, x := 0, y := 0 } :: back := by
    rw [backCode]
    unfold Regex.count
    rw [opened, List.append_assoc]
    rfl
  have afterCount : after.count = before.count + front.length + 2 + back.length := by
    unfold Regex.count
    rw [afterCode]
    simp only [List.length_append, List.length_cons, relocated_length]
    omega
  rw [openedCount, openedFolds] at backEmits
  rw [place, patchX_here afterCode, afterCount]
  refine ⟨⟨_, List.append_assoc _ _ _, front, back, rfl, ?_, backEmits⟩, ?_, ?_⟩
  · exact frontEmits.mono (openedClasses ▸ ended.classes)
  · exact begun.classes.trans (openedClasses ▸ ended.classes)
  · exact (ended.flags.trans openedFlags).trans begun.flags

theorem Emitted.repeated {before after : Regex} {atom : Node} (emitted : Emitted before after atom)
    (least : Nat) (most : Option Nat) (lazy : Bool) :
    Emitted before (repeatAtom after before.count (compiledBounds least most) lazy)
      (.repeated atom least most lazy) := by
  obtain ⟨block, code, emits⟩ := emitted.code
  have repeated_ : repeatAtom after before.count (compiledBounds least most) lazy = _ :=
    repeatAtom_eq block before.code code (compiledBounds least most) lazy
  rw [repeated_]
  exact ⟨⟨_, rfl, block, rfl, emits⟩, emitted.classes, emitted.flags⟩

/-! ### Atoms -/

theorem parseEscape_agrees (ignoreCase : Bool) : Agrees ignoreCase parseEscape treeEscape := by
  intro parser after folds ran
  unfold parseEscape at ran
  unfold treeEscape
  cases rest : parser.rest with
  | nil =>
      rw [rest] at ran
      cases ran
  | cons escape tail =>
      have scanRest : parser.scan.rest = escape :: tail := rest
      rw [rest] at ran
      rw [scanRest]
      dsimp only at ran ⊢
      cases kind : readEscape escape with
      | word positive =>
          rw [kind] at ran
          cases ran
          exact ⟨_, rfl, emitted_leaf _ (fun _ => rfl)⟩
      | backref group =>
          rw [kind] at ran
          dsimp only at ran
          split at ran
          · cases ran
          · cases ran
            exact ⟨_, rfl, emitted_leaf _ (fun _ => rfl)⟩
      | set set =>
          rw [kind] at ran
          cases ran
          exact ⟨_, rfl, emitted_set { parser with rest := tail } set⟩
      | byte byte =>
          rw [kind] at ran
          cases ran
          refine ⟨_, ?_, emitted_byte { parser with rest := tail } byte⟩
          rw [emitByte_scan]
          rfl

private theorem toOption_ok {α : Type} {result : ReResult α} {value : α}
    (ran : result = .ok value) : result.toOption = some value := by
  rw [ran]
  rfl

private theorem closeParen_agrees {message : String} {parser after : ReParser}
    (ran : closeParen message parser = .ok after) (node : Node) :
    treeClose node parser.scan = some (node, after.scan) ∧ after.regex = parser.regex := by
  unfold closeParen at ran
  unfold treeClose
  cases rest : parser.rest with
  | nil =>
      rw [rest] at ran
      cases ran
  | cons c tail =>
      have scanRest : parser.scan.rest = c :: tail := rest
      rw [rest] at ran
      rw [scanRest]
      dsimp only at ran ⊢
      by_cases closes : c = ')'.toUInt8
      · rw [if_pos closes] at ran ⊢
        cases ran
        exact ⟨rfl, rfl⟩
      · rw [if_neg closes] at ran
        cases ran

section

variable {ignoreCase : Bool} {alternation : ReParser → ReResult ReParser}
  {tree : Scan → Option (Node × Scan)}

private theorem parseLook_agrees (agrees : Agrees ignoreCase alternation tree)
    (parser : ReParser) {after : ReParser} (folds : parser.regex.ignoreCase = ignoreCase)
    {behind negated : Bool} (ran : parseLook alternation parser behind negated = .ok after) :
    ∃ node, (do
        let (body, scan) ← tree parser.scan
        treeClose (.look behind negated body) scan) = some (node, after.scan) ∧
      Emitted parser.regex after.regex node := by
  unfold parseLook at ran
  obtain ⟨body, bodyRan, ran⟩ := bind_ok ran
  obtain ⟨closed, closeRan, ran⟩ := bind_ok ran
  cases ran
  obtain ⟨node, nodeTree, emitted⟩ := agrees _ body (by exact folds) bodyRan
  obtain ⟨closeTree, same⟩ := closeParen_agrees closeRan (.look behind negated node)
  refine ⟨.look behind negated node, ?_, ?_⟩
  · have opened : tree parser.scan = some (node, body.scan) := nodeTree
    rw [opened]
    exact closeTree
  · rw [← same] at emitted
    exact Emitted.look emitted

private theorem addGroupName_fields {regex named : Regex} {name : List UInt8} {group : Nat}
    (ran : addGroupName regex name group = .ok named) :
    named.code = regex.code ∧ named.classes = regex.classes ∧ named.flags = regex.flags ∧
      named.groupCount = regex.groupCount := by
  unfold addGroupName at ran
  split at ran
  · cases ran
  · cases ran
    exact ⟨rfl, rfl, rfl, rfl⟩

private theorem parseCapture_agrees (agrees : Agrees ignoreCase alternation tree)
    (parser : ReParser) {after : ReParser} (folds : parser.regex.ignoreCase = ignoreCase)
    {name : Option (List UInt8)} (ran : parseCapture alternation parser name = .ok after) :
    ∃ node, (do
        let (body, scan) ← tree { groups := parser.scan.groups + 1, rest := parser.scan.rest }
        treeClose (.group (some parser.scan.groups) body) scan) = some (node, after.scan) ∧
      Emitted parser.regex after.regex node := by
  unfold parseCapture at ran
  split at ran
  · cases ran
  · obtain ⟨regex, namedRan, ran⟩ := bind_ok ran
    obtain ⟨body, bodyRan, ran⟩ := bind_ok ran
    obtain ⟨closed, closeRan, ran⟩ := bind_ok ran
    cases ran
    have fields : regex.code = (emit parser.regex .save (parser.regex.groupCount * 2) 0).code ∧
        regex.classes = parser.regex.classes ∧ regex.flags = parser.regex.flags ∧
        regex.groupCount = parser.regex.groupCount + 1 := by
      unfold recordName at namedRan
      cases name with
      | none =>
          cases namedRan
          exact ⟨rfl, rfl, rfl, rfl⟩
      | some name => exact addGroupName_fields namedRan
    obtain ⟨code, classes, flags, groups⟩ := fields
    have regexFolds : regex.ignoreCase = ignoreCase :=
      (congrArg ReFlags.ignoreCase flags).trans folds
    obtain ⟨node, nodeTree, emitted⟩ := agrees _ _ regexFolds bodyRan
    obtain ⟨closeTree, same⟩ :=
      closeParen_agrees closeRan (.group (some parser.regex.groupCount) node)
    refine ⟨.group (some parser.regex.groupCount) node, ?_, ?_⟩
    · have opened : tree { groups := parser.scan.groups + 1, rest := parser.scan.rest } =
          some (node, body.scan) := by
        rw [← nodeTree]
        unfold ReParser.scan
        rw [groups]
      rw [opened]
      exact closeTree
    · rw [← same] at emitted
      exact Emitted.capture code classes flags emitted

theorem parseGroup_agrees (agrees : Agrees ignoreCase alternation tree) :
    Agrees ignoreCase (parseGroup alternation) (treeGroup tree) := by
  intro parser after folds ran
  unfold parseGroup at ran
  obtain ⟨⟨modifier, rest⟩, readRan, ran⟩ := bind_ok ran
  have read : (readModifier parser.scan.rest).toOption = some (modifier, rest) :=
    toOption_ok readRan
  unfold treeGroup
  rw [read]
  cases modifier with
  | look behind negated =>
      exact parseLook_agrees agrees { parser with rest := rest } folds ran
  | plain =>
      obtain ⟨body, bodyRan, closeRan⟩ := bind_ok ran
      obtain ⟨node, nodeTree, emitted⟩ := agrees _ body (by exact folds) bodyRan
      obtain ⟨closeTree, same⟩ := closeParen_agrees closeRan (.group none node)
      refine ⟨.group none node, ?_, ?_⟩
      · have opened : tree { parser.scan with rest := rest } = some (node, body.scan) := nodeTree
        simp only [Option.bind_eq_bind, Option.bind_some, opened]
        exact closeTree
      · rw [same]
        exact ⟨emitted.code, emitted.classes, emitted.flags⟩
  | capturing name =>
      exact parseCapture_agrees agrees { parser with rest := rest } folds ran

theorem parseAtom_agrees (agrees : Agrees ignoreCase alternation tree) :
    Agrees ignoreCase (parseAtom alternation) (treeAtom ignoreCase tree) := by
  intro parser after folds ran
  unfold parseAtom at ran
  unfold treeAtom
  cases rest : parser.rest with
  | nil =>
      rw [rest] at ran
      cases ran
  | cons c tail =>
      have scanRest : parser.scan.rest = c :: tail := rest
      rw [rest] at ran
      rw [scanRest]
      dsimp only at ran ⊢
      by_cases opens : c = '('.toUInt8
      · rw [if_pos opens] at ran ⊢
        exact parseGroup_agrees agrees { parser with rest := tail } after folds ran
      rw [if_neg opens] at ran ⊢
      by_cases class_ : c = '['.toUInt8
      · rw [if_pos class_] at ran ⊢
        obtain ⟨⟨set, left⟩, read, ran⟩ := bind_ok ran
        cases ran
        have found : (readClass ignoreCase tail).toOption = some (set, left) := by
          rw [← folds]
          exact toOption_ok read
        rw [found]
        exact ⟨_, rfl, emitted_set { parser with rest := left } set⟩
      rw [if_neg class_] at ran ⊢
      by_cases any_ : c = '.'.toUInt8
      · rw [if_pos any_] at ran ⊢
        cases ran
        exact ⟨_, rfl, emitted_leaf _ (fun _ => rfl)⟩
      rw [if_neg any_] at ran ⊢
      by_cases start : c = '^'.toUInt8
      · rw [if_pos start] at ran ⊢
        cases ran
        exact ⟨_, rfl, emitted_leaf _ (fun _ => rfl)⟩
      rw [if_neg start] at ran ⊢
      by_cases finish : c = '$'.toUInt8
      · rw [if_pos finish] at ran ⊢
        cases ran
        exact ⟨_, rfl, emitted_leaf _ (fun _ => rfl)⟩
      rw [if_neg finish] at ran ⊢
      by_cases escapes : c = '\\'.toUInt8
      · rw [if_pos escapes] at ran ⊢
        exact parseEscape_agrees ignoreCase { parser with rest := tail } after folds ran
      rw [if_neg escapes] at ran ⊢
      cases ran
      refine ⟨_, ?_, emitted_byte { parser with rest := tail } c⟩
      rw [emitByte_scan]
      rfl

theorem repeatAtom_groupCount (regex : Regex) (atomStart : Nat) (bounds : Bounds) (lazy : Bool)
    {pre atom : List ReInst} (code : regex.code = pre ++ atom) (start : atomStart = pre.length) :
    (repeatAtom regex atomStart bounds lazy).groupCount = regex.groupCount := by
  rw [start, repeatAtom_eq atom pre code]

theorem parseRepetition_agrees (agrees : Agrees ignoreCase alternation tree) :
    Agrees ignoreCase (parseRepetition alternation) (treeRepetition ignoreCase tree) := by
  intro parser after folds ran
  unfold parseRepetition at ran
  obtain ⟨atom, atomRan, ran⟩ := bind_ok ran
  obtain ⟨answer, boundsRan, ran⟩ := bind_ok ran
  obtain ⟨node, nodeTree, emitted⟩ := parseAtom_agrees agrees parser atom folds atomRan
  have written := readBounds_written boundsRan
  unfold treeRepetition
  rw [nodeTree]
  simp only [Option.bind_eq_bind, Option.bind_some]
  have scanRest : atom.scan.rest = atom.rest := rfl
  rw [scanRest]
  cases found : writtenBounds atom.rest with
  | none =>
      rw [found] at written
      subst written
      cases ran
      exact ⟨node, rfl, emitted⟩
  | some bounds =>
      obtain ⟨bounds, rest⟩ := bounds
      rw [found] at written
      subst written
      cases marked : readLazy rest with
      | mk lazy left =>
          have finished : after =
              { regex := repeatAtom atom.regex parser.regex.count
                  (compiledBounds bounds.least bounds.most) lazy, rest := left } := by
            simp only [Option.map_some, marked] at ran
            exact (Except.ok.inj ran).symm
          rw [finished]
          refine ⟨.repeated node bounds.least bounds.most lazy, ?_, emitted.repeated _ _ _⟩
          obtain ⟨block, code, _⟩ := emitted.code
          have groups := repeatAtom_groupCount atom.regex parser.regex.count
            (compiledBounds bounds.least bounds.most) lazy code rfl
          unfold ReParser.scan
          simp only [marked, groups]
          rfl

/-! ### Concatenation and alternation -/

theorem parseConcatenation_agrees (agrees : Agrees ignoreCase alternation tree) (fuel : Nat) :
    Agrees ignoreCase (parseConcatenation alternation fuel)
      (treeConcatenation ignoreCase tree fuel) := by
  induction fuel with
  | zero =>
      intro parser after _ ran
      cases ran
  | succ fuel ih =>
      intro parser after folds ran
      unfold parseConcatenation at ran
      unfold treeConcatenation
      have scanRest : parser.scan.rest = parser.rest := rfl
      rw [scanRest]
      by_cases ends : endsConcatenation parser.rest = true
      · rw [if_pos ends] at ran ⊢
        cases ran
        exact ⟨.empty, rfl, emitted_nothing _⟩
      · rw [if_neg ends] at ran ⊢
        obtain ⟨middle, firstRan, restRan⟩ := bind_ok ran
        obtain ⟨first, firstTree, begun⟩ :=
          parseRepetition_agrees agrees parser middle folds firstRan
        obtain ⟨rest, restTree, ended⟩ :=
          ih middle after (begun.ignoreCase.trans folds) restRan
        refine ⟨.sequence first rest, ?_, begun.sequence ended⟩
        simp only [firstTree, restTree, Option.bind_eq_bind, Option.bind_some]
        rfl

private theorem alternatives_agrees (agrees : Agrees ignoreCase alternation tree) (fuel : Nat)
    {before : Regex} {parser after : ReParser} {left : Node}
    (folds : parser.regex.ignoreCase = ignoreCase)
    (begun : Emitted before parser.regex left)
    (ran : alternatives alternation before.count fuel parser = .ok after) :
    ∃ node, treeAlternatives ignoreCase tree fuel left parser.scan = some (node, after.scan) ∧
      Emitted before after.regex node := by
  induction fuel generalizing parser left with
  | zero => cases ran
  | succ fuel ih =>
      unfold alternatives at ran
      unfold treeAlternatives
      cases rest : parser.rest with
      | nil =>
          have scanRest : parser.scan.rest = [] := rest
          rw [rest] at ran
          rw [scanRest]
          cases ran
          exact ⟨left, rfl, begun⟩
      | cons c tail =>
          have scanRest : parser.scan.rest = c :: tail := rest
          rw [rest] at ran
          rw [scanRest]
          dsimp only at ran ⊢
          by_cases more : c = '|'.toUInt8
          · rw [if_pos more] at ran ⊢
            obtain ⟨right, rightRan, loopRan⟩ := bind_ok ran
            have openFolds : (openAlternative parser.regex before.count).ignoreCase =
                ignoreCase := folds
            obtain ⟨node, nodeTree, ended⟩ :=
              parseConcatenation_agrees agrees _ _ right (by exact openFolds) rightRan
            have joinedFolds : right.regex.ignoreCase = ignoreCase :=
              ended.ignoreCase.trans openFolds
            obtain ⟨whole, wholeTree, emitted⟩ := ih (by exact joinedFolds)
              (begun.alternate ended) loopRan
            refine ⟨whole, ?_, emitted⟩
            have scanned : treeConcatenation ignoreCase tree (tail.length + 1)
                { parser.scan with rest := tail } = some (node, right.scan) := nodeTree
            rw [scanned]
            exact wholeTree
          · rw [if_neg more] at ran ⊢
            cases ran
            exact ⟨left, rfl, begun⟩

end

theorem parseAlternation_agrees (ignoreCase : Bool) (fuel : Nat) :
    Agrees ignoreCase (parseAlternation fuel) (treeAlternation ignoreCase fuel) := by
  induction fuel with
  | zero =>
      intro parser after _ ran
      cases ran
  | succ fuel ih =>
      intro parser after folds ran
      unfold parseAlternation at ran
      obtain ⟨left, leftRan, loopRan⟩ := bind_ok ran
      obtain ⟨node, nodeTree, begun⟩ :=
        parseConcatenation_agrees ih _ parser left folds leftRan
      obtain ⟨whole, wholeTree, emitted⟩ :=
        alternatives_agrees ih _ (begun.ignoreCase.trans folds) begun loopRan
      refine ⟨whole, ?_, emitted⟩
      unfold treeAlternation
      have scanned : treeConcatenation ignoreCase (treeAlternation ignoreCase fuel)
          (parser.scan.rest.length + 1) parser.scan = some (node, left.scan) := nodeTree
      rw [scanned]
      exact wholeTree

/-! ### The whole pattern -/

structure Compiled (pattern : List UInt8) (flags : ReFlags) (regex : Regex) (tree : Node)
    (block : List ReInst) : Prop where
  parsed : patternTree pattern flags.ignoreCase = some tree
  code : regex.code = { op := .save, x := 0, y := 0 } ::
    (block ++ [{ op := .save, x := 1, y := 0 }, { op := .match_, x := 0, y := 0 }])
  emits : Emits flags.ignoreCase regex.classes tree 1 block
  flags : regex.flags = flags

theorem csRegexCompile_compiled {pattern : List UInt8} {flags : ReFlags} {regex : Regex}
    (accepted : csRegexCompile pattern flags = .ok regex) :
    ∃ tree block, Compiled pattern flags regex tree block := by
  unfold csRegexCompile at accepted
  obtain ⟨parsed, parsedRan, finished⟩ := bind_ok accepted
  split at finished
  · cases finished
  · rename_i nothingLeft
    have rest : parsed.rest = [] := not_not.mp nothingLeft
    cases finished
    obtain ⟨tree, treeRan, emitted⟩ :=
      parseAlternation_agrees flags.ignoreCase _ _ parsed rfl parsedRan
    obtain ⟨block, code, emits⟩ := emitted.code
    refine ⟨tree, block, ?_, ?_, emits, emitted.flags⟩
    · unfold patternTree
      have scanned : treeAlternation flags.ignoreCase (pattern.length + 1)
          { groups := 1, rest := pattern } = some (tree, parsed.scan) := treeRan
      rw [scanned]
      unfold ReParser.scan
      rw [rest]
    · simp only [emit, code, List.append_assoc, List.nil_append, List.cons_append]

end CScript
