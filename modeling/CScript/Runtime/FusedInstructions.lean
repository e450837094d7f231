/-
Instructions that stand for several.

`i++` in effect position, two operands loaded at once, a comparison that jumps and a store
that drops its value have instructions of their own, written out beside the ones they
stand for.  What the instructions ask of the rest of the machine is asked of a host, which
may run anything.
-/

import CScript.Compiler.NumberLiteral
import CScript.Foundation.Blocks
import CScript.Runtime.BigIntNumbers
import CScript.Runtime.NumberText

namespace CScript.Fused

open Foundation.Blocks

/-! ### Sums of doubles -/

def minus (number : Double) : Double :=
  ⟨number.bits ^^^ 0x8000000000000000⟩

/-- `x + y`, rounded to nearest; every NaN is one. -/
def plus (x y : Double) : Double :=
  if x.isNaN || y.isNaN then ⟨0x7ff8000000000000⟩
  else if x.isInf then
    if y.isInf && decide (x.negative ≠ y.negative) then ⟨0x7ff8000000000000⟩ else x
  else if y.isInf then y
  else
    let sum := x.value + y.value
    if sum = 0 then if x.negative && y.negative then ⟨0x8000000000000000⟩ else ⟨0⟩
    else if 0 < sum then NumberLiteral.nearest sum
    else minus (NumberLiteral.nearest (-sum))

/-- `x - y`, which is defined as `x + (-y)`. -/
def difference (x y : Double) : Double :=
  plus x (minus y)

/-! ### The machine -/

structure Machine (World : Type) where
  slots : List Value
  world : World

structure Site where
  name : ObjString
  cache : Nat
  deriving DecidableEq, Repr

structure Host (World : Type) where
  cells : World → Cells
  csBigIntNew : BigInt → World → Nat × World
  shortestDigits : Double → Digits
  /-- `csVMValueToText` of what is neither a string nor a number. -/
  valueToText : Value → Machine World → Option (List UInt8) × Machine World
  hasPendingException : World → Bool
  /-- The store into a global whose cache is filled and current. -/
  storeCachedGlobal : Site → Value → World → Option World
  assignGlobal : Site → Value → World → Except (List UInt8) World
  /-- The store into an object of the layout that the cache has. -/
  csVMStoreCached : Site → Value → Value → World → Option World
  propertyWriteSlow : Site → Value → Value → Machine World → Bool × Machine World

/-- How a run ends: an error has been reported, a call has failed, or the stack holds less
than the instruction takes. -/
inductive Failure (World : Type) where
  | error (message : List UInt8) (world : World)
  | failedCall (machine : Machine World)
  | stuck

inductive Instruction (World : Type) where
  | constant (value : Value)
  | pop
  | dup
  | getLocal (slot : Nat)
  | setLocal (slot : Nat)
  | setLocalPop (slot : Nat)
  | getLocalLocal (left right : Nat)
  | getLocalConst (slot : Nat) (value : Value)
  | incLocal (slot : Nat)
  | decLocal (slot : Nat)
  | add
  | subtract
  | compare (op : CompareOp)
  | equal
  | notEqual
  | popJumpIfFalse (target : Nat)
  | jumpIfNot (op : CompareOp) (target : Nat)
  | jumpIfNotEqual (target : Nat)
  | jumpIfEqual (target : Nat)
  | setGlobal (site : Site)
  | setGlobalPop (site : Site)
  | setProperty (site : Site)
  | setPropertyPop (site : Site)
  | other (effect : Machine World → Outcome (Machine World) (Failure World))

section

variable {World : Type}

abbrev Result (World : Type) : Type :=
  Outcome (Machine World) (Failure World)

def Machine.push (machine : Machine World) (value : Value) : Machine World :=
  { machine with slots := machine.slots ++ [value] }

def top? (slots : List Value) : Option (List Value × Value) :=
  match slots.reverse with
  | value :: rest => some (rest.reverse, value)
  | [] => none

def topTwo? (slots : List Value) : Option (List Value × Value × Value) :=
  match slots.reverse with
  | b :: a :: rest => some (rest.reverse, a, b)
  | _ => none

@[simp] theorem top?_concat (slots : List Value) (value : Value) :
    top? (slots ++ [value]) = some (slots, value) := by
  unfold top?
  rw [List.reverse_append]
  exact congrArg (fun rest => some (rest, value)) slots.reverse_reverse

@[simp] theorem topTwo?_concat (slots : List Value) (a b : Value) :
    topTwo? (slots ++ [a] ++ [b]) = some (slots, a, b) := by
  unfold topTwo?
  rw [List.reverse_append, List.reverse_append]
  exact congrArg (fun rest => some (rest, a, b)) slots.reverse_reverse

theorem top?_cases (slots : List Value) :
    top? slots = none ∧ slots = [] ∨
      ∃ rest value, slots = rest ++ [value] ∧ top? slots = some (rest, value) := by
  rcases List.eq_nil_or_concat slots with rfl | ⟨rest, value, rfl⟩
  · exact .inl ⟨rfl, rfl⟩
  · rw [List.concat_eq_append]
    exact .inr ⟨rest, value, rfl, top?_concat rest value⟩

/-! ### The source -/

def isString : Value → Bool
  | .obj (.string _) => true
  | _ => false

def isBigInt (value : Value) : Bool :=
  value.asBigInt.isSome

variable (host : Host World)

def csVMValueToText (value : Value) (machine : Machine World) :
    Option (List UInt8) × Machine World :=
  match value with
  | .obj (.string text) => (some text.chars, machine)
  | .number number => (some (csValueFormatNumber host.shortestDigits number), machine)
  | other => host.valueToText other machine

/-- `bigintArithmetic`, for the operators `+` and `-`. -/
def bigintArithmetic (symbol : List UInt8) (compute : BigInt → BigInt → Option BigInt)
    (machine : Machine World) (rest : List Value) (a b : Value) : Result World :=
  match a.asBigInt, b.asBigInt with
  | some left, some right =>
      match compute ((host.cells machine.world).bigints left)
          ((host.cells machine.world).bigints right) with
      | none => .ends (.error (ascii "out of memory in BigInt arithmetic") machine.world)
      | some result =>
          let (address, world) := host.csBigIntNew result machine.world
          .next { slots := rest ++ [.obj (.cell .bigint address)], world := world }
  | _, _ =>
      .ends (.error (ascii "cannot mix BigInt and " ++
        csValueTypeName (if isBigInt a then b else a) ++ ascii " in '" ++ symbol ++ ascii "'")
        machine.world)

def concatenate (machine : Machine World) (a b : Value) : Result World :=
  let (aText, machine) := csVMValueToText host a machine
  let (bText, machine) := csVMValueToText host b machine
  match aText, bText with
  | some aText, some bText =>
      match topTwo? machine.slots with
      | some (rest, _, _) =>
          .next { machine with slots := rest ++ [.obj (.string { chars := aText ++ bText })] }
      | none => .ends .stuck
  | _, _ =>
      if host.hasPendingException machine.world then .ends (.failedCall machine)
      else .ends (.error (ascii "out of memory while concatenating strings") machine.world)

def concatenateOrAdd (machine : Machine World) (rest : List Value) (a b : Value) :
    Result World :=
  if isString a || isString b then concatenate host machine a b
  else if isBigInt a || isBigInt b then
    bigintArithmetic host (ascii "+") csBigAdd machine rest a b
  else
    match a.asNumber, b.asNumber with
    | some left, some right =>
        .next { machine with slots := rest ++ [.number (plus left right)] }
    | _, _ =>
        .ends (.error (ascii "cannot add " ++ csValueTypeName a ++ ascii " and " ++
          csValueTypeName b) machine.world)

/-- `OP_ADD`. -/
def execAdd (machine : Machine World) : Result World :=
  match topTwo? machine.slots with
  | none => .ends .stuck
  | some (rest, a, b) =>
      match a.asNumber, b.asNumber with
      | some left, some right =>
          .next { machine with slots := rest ++ [.number (plus left right)] }
      | _, _ => concatenateOrAdd host machine rest a b

/-- `OP_SUBTRACT`, which is `BINARY_ARITHMETIC_OP`. -/
def execSubtract (machine : Machine World) : Result World :=
  match topTwo? machine.slots with
  | none => .ends .stuck
  | some (rest, a, b) =>
      if isBigInt b || isBigInt a then
        bigintArithmetic host (ascii "-") csBigSubtract machine rest a b
      else
        match a.asNumber, b.asNumber with
        | some left, some right =>
            .next { machine with slots := rest ++ [.number (difference left right)] }
        | _, _ =>
            .ends (.error (ascii "operands of '-' must be numbers, got " ++ csValueTypeName a ++
              ascii " and " ++ csValueTypeName b) machine.world)

def updateSymbol (increment : Bool) : List UInt8 :=
  if increment then ascii "++" else ascii "--"

/-- `OP_INC_LOCAL` and `OP_DEC_LOCAL`. -/
def execUpdate (increment : Bool) (slot : Nat) (machine : Machine World) : Result World :=
  match machine.slots[slot]? with
  | none => .ends .stuck
  | some target =>
      match target.asNumber with
      | none =>
          .ends (.error (ascii "operand of '" ++ updateSymbol increment ++
            ascii "' must be a number, got " ++ csValueTypeName target) machine.world)
      | some number =>
          .next { machine with
            slots := machine.slots.set slot
              (.number (plus number (if increment then .ofNat 1 else minus (.ofNat 1)))) }

/-- `BINARY_COMPARE_OP`. -/
def execCompare (op : CompareOp) (machine : Machine World) : Result World :=
  match topTwo? machine.slots with
  | none => .ends .stuck
  | some (rest, a, b) =>
      match binaryCompare (host.cells machine.world).bigints op a b with
      | none => .ends .stuck
      | some (.error message) => .ends (.error message machine.world)
      | some (.ok answer) => .next { machine with slots := rest ++ [.bool answer] }

/-- `COMPARE_JUMP`. -/
def execCompareJump (op : CompareOp) (target : Nat) (machine : Machine World) : Result World :=
  match topTwo? machine.slots with
  | none => .ends .stuck
  | some (rest, a, b) =>
      if isBigInt a || isBigInt b then
        match comparingExactly (host.cells machine.world).bigints a b with
        | none => .ends .stuck
        | some (.invalid message) => .ends (.error message machine.world)
        | some .unordered => .jump target { machine with slots := rest }
        | some (.known order) =>
            if op.orders order 0 then .next { machine with slots := rest }
            else .jump target { machine with slots := rest }
      else
        match a.asNumber, b.asNumber with
        | some left, some right =>
            if op.numbers left right then .next { machine with slots := rest }
            else .jump target { machine with slots := rest }
        | _, _ =>
            .ends (.error (ascii "operands of '" ++ op.text ++ ascii "' must be numbers, got " ++
              csValueTypeName a ++ ascii " and " ++ csValueTypeName b) machine.world)

def execEqual (machine : Machine World) (answer : List Value → Bool → Result World) :
    Result World :=
  match topTwo? machine.slots with
  | none => .ends .stuck
  | some (rest, a, b) =>
      answer rest (csValuesStrictEqual (host.cells machine.world).bigints a b)

/-- `OP_SET_GLOBAL`, and `OP_SET_GLOBAL_POP` where the value goes. -/
def execSetGlobal (site : Site) (keeps : Bool) (machine : Machine World) : Result World :=
  match top? machine.slots with
  | none => .ends .stuck
  | some (rest, value) =>
      let slots := if keeps then machine.slots else rest
      match host.storeCachedGlobal site value machine.world with
      | some world => .next { slots := slots, world := world }
      | none =>
          match host.assignGlobal site value machine.world with
          | .error message => .ends (.error message machine.world)
          | .ok world => .next { slots := slots, world := world }

/-- `OP_SET_PROPERTY`, and `OP_SET_PROPERTY_POP` where the value is not written back. -/
def execSetProperty (site : Site) (keeps : Bool) (machine : Machine World) : Result World :=
  match topTwo? machine.slots with
  | none => .ends .stuck
  | some (rest, receiver, value) =>
      match host.csVMStoreCached site receiver value machine.world with
      | some world =>
          .next { slots := if keeps then rest ++ [value] else rest, world := world }
      | none =>
          match host.propertyWriteSlow site receiver value machine with
          | (false, machine) => .ends (.failedCall machine)
          | (true, machine) =>
              match topTwo? machine.slots with
              | none => .ends .stuck
              | some (rest, _, _) =>
                  .next { machine with slots := if keeps then rest ++ [value] else rest }

def exec : Instruction World → Machine World → Result World
  | .constant value, machine => .next (machine.push value)
  | .pop, machine =>
      match top? machine.slots with
      | none => .ends .stuck
      | some (rest, _) => .next { machine with slots := rest }
  | .dup, machine =>
      match top? machine.slots with
      | none => .ends .stuck
      | some (_, value) => .next (machine.push value)
  | .getLocal slot, machine =>
      match machine.slots[slot]? with
      | none => .ends .stuck
      | some value => .next (machine.push value)
  | .setLocal slot, machine =>
      match top? machine.slots with
      | none => .ends .stuck
      | some (_, value) => .next { machine with slots := machine.slots.set slot value }
  | .setLocalPop slot, machine =>
      match top? machine.slots with
      | none => .ends .stuck
      | some (rest, value) => .next { machine with slots := rest.set slot value }
  | .getLocalLocal left right, machine =>
      match machine.slots[left]? with
      | none => .ends .stuck
      | some value =>
          match (machine.push value).slots[right]? with
          | none => .ends .stuck
          | some other => .next ((machine.push value).push other)
  | .getLocalConst slot constant, machine =>
      match machine.slots[slot]? with
      | none => .ends .stuck
      | some value => .next ((machine.push value).push constant)
  | .incLocal slot, machine => execUpdate true slot machine
  | .decLocal slot, machine => execUpdate false slot machine
  | .add, machine => execAdd host machine
  | .subtract, machine => execSubtract host machine
  | .compare op, machine => execCompare host op machine
  | .equal, machine =>
      execEqual host machine fun rest same => .next { machine with slots := rest ++ [.bool same] }
  | .notEqual, machine =>
      execEqual host machine fun rest same =>
        .next { machine with slots := rest ++ [.bool (!same)] }
  | .popJumpIfFalse target, machine =>
      match top? machine.slots with
      | none => .ends .stuck
      | some (rest, value) =>
          if csValueIsTruthy (host.cells machine.world) value then
            .next { machine with slots := rest }
          else .jump target { machine with slots := rest }
  | .jumpIfNot op target, machine => execCompareJump host op target machine
  | .jumpIfNotEqual target, machine =>
      execEqual host machine fun rest same =>
        if same then .next { machine with slots := rest }
        else .jump target { machine with slots := rest }
  | .jumpIfEqual target, machine =>
      execEqual host machine fun rest same =>
        if same then .jump target { machine with slots := rest }
        else .next { machine with slots := rest }
  | .setGlobal site, machine => execSetGlobal host site true machine
  | .setGlobalPop site, machine => execSetGlobal host site false machine
  | .setProperty site, machine => execSetProperty host site true machine
  | .setPropertyPop site, machine => execSetProperty host site false machine
  | .other effect, machine => effect machine

/-! ### What the compiler emits -/

/-- `++` or `--` of a local, where the value is used. -/
def compileUpdate (increment isPrefix : Bool) (slot : Nat) : List (Instruction World) :=
  [.getLocal slot] ++ (if isPrefix then [] else [.dup]) ++
    [.constant (.number (.ofNat 1)), if increment then .add else .subtract, .setLocal slot] ++
    (if isPrefix then [] else [.pop])

def updateInPlace (increment : Bool) (slot : Nat) : Instruction World :=
  if increment then .incLocal slot else .decLocal slot

inductive Operand (World : Type) where
  | local_ (slot : Nat)
  | literal (number : Double)
  | code (body : List (Instruction World))

def Operand.load : Operand World → List (Instruction World)
  | .local_ slot => [.getLocal slot]
  | .literal number => [.constant (.number number)]
  | .code body => body

def compileOperandPair : Operand World → Operand World → List (Instruction World)
  | .local_ slot, .literal number => [.getLocalConst slot (.number number)]
  | .local_ left, .local_ right => [.getLocalLocal left right]
  | left, right => left.load ++ right.load

inductive Condition (World : Type) where
  | compare (op : CompareOp) (left right : Operand World)
  | equal (left right : Operand World)
  | notEqual (left right : Operand World)
  | code (body : List (Instruction World))

def Condition.compile : Condition World → List (Instruction World)
  | .compare op left right => compileOperandPair left right ++ [.compare op]
  | .equal left right => compileOperandPair left right ++ [.equal]
  | .notEqual left right => compileOperandPair left right ++ [.notEqual]
  | .code body => body

def emitConditionJump (condition : Condition World) (target : Nat) :
    List (Instruction World) :=
  match condition with
  | .compare op left right => compileOperandPair left right ++ [.jumpIfNot op target]
  | .equal left right => compileOperandPair left right ++ [.jumpIfNotEqual target]
  | .notEqual left right => compileOperandPair left right ++ [.jumpIfEqual target]
  | .code body => body ++ [.popJumpIfFalse target]

inductive Store (World : Type) where
  | local_ (slot : Nat)
  | global (site : Site)
  | property (site : Site)
  | code (body : List (Instruction World))

def Store.emit (store : Store World) (discard : Bool) : List (Instruction World) :=
  match store with
  | .local_ slot => [if discard then .setLocalPop slot else .setLocal slot]
  | .global site => [if discard then .setGlobalPop site else .setGlobal site]
  | .property site => [if discard then .setPropertyPop site else .setProperty site]
  | .code body => body ++ if discard then [.pop] else []

/-! ### One instruction -/

section

variable (machine : Machine World)

theorem exec_pop : exec host .pop machine =
    match top? machine.slots with
    | none => .ends .stuck
    | some (rest, _) => .next { machine with slots := rest } := rfl

theorem exec_dup : exec host .dup machine =
    match top? machine.slots with
    | none => .ends .stuck
    | some (_, value) => .next (machine.push value) := rfl

theorem exec_getLocal (slot : Nat) : exec host (.getLocal slot) machine =
    match machine.slots[slot]? with
    | none => .ends .stuck
    | some value => .next (machine.push value) := rfl

theorem exec_setLocal (slot : Nat) : exec host (.setLocal slot) machine =
    match top? machine.slots with
    | none => .ends .stuck
    | some (_, value) => .next { machine with slots := machine.slots.set slot value } := rfl

theorem exec_setLocalPop (slot : Nat) : exec host (.setLocalPop slot) machine =
    match top? machine.slots with
    | none => .ends .stuck
    | some (rest, value) => .next { machine with slots := rest.set slot value } := rfl

theorem exec_getLocalLocal (left right : Nat) : exec host (.getLocalLocal left right) machine =
    match machine.slots[left]? with
    | none => .ends .stuck
    | some value =>
        match (machine.push value).slots[right]? with
        | none => .ends .stuck
        | some other => .next ((machine.push value).push other) := rfl

theorem exec_getLocalConst (slot : Nat) (constant : Value) :
    exec host (.getLocalConst slot constant) machine =
      match machine.slots[slot]? with
      | none => .ends .stuck
      | some value => .next ((machine.push value).push constant) := rfl

theorem exec_add : exec host .add machine = execAdd host machine := rfl

theorem exec_subtract : exec host .subtract machine = execSubtract host machine := rfl

theorem exec_compare (op : CompareOp) :
    exec host (.compare op) machine = execCompare host op machine := rfl

theorem exec_jumpIfNot (op : CompareOp) (target : Nat) :
    exec host (.jumpIfNot op target) machine = execCompareJump host op target machine := rfl

theorem exec_popJumpIfFalse (target : Nat) : exec host (.popJumpIfFalse target) machine =
    match top? machine.slots with
    | none => .ends .stuck
    | some (rest, value) =>
        if csValueIsTruthy (host.cells machine.world) value then
          .next { machine with slots := rest }
        else .jump target { machine with slots := rest } := rfl

theorem exec_equal : exec host .equal machine =
    execEqual host machine fun rest same =>
      .next { machine with slots := rest ++ [.bool same] } := rfl

theorem exec_notEqual : exec host .notEqual machine =
    execEqual host machine fun rest same =>
      .next { machine with slots := rest ++ [.bool (!same)] } := rfl

theorem exec_jumpIfEqual (target : Nat) : exec host (.jumpIfEqual target) machine =
    execEqual host machine fun rest same =>
      if same then .jump target { machine with slots := rest }
      else .next { machine with slots := rest } := rfl

theorem exec_jumpIfNotEqual (target : Nat) : exec host (.jumpIfNotEqual target) machine =
    execEqual host machine fun rest same =>
      if same then .next { machine with slots := rest }
      else .jump target { machine with slots := rest } := rfl

theorem exec_setGlobal (site : Site) :
    exec host (.setGlobal site) machine = execSetGlobal host site true machine := rfl

theorem exec_setGlobalPop (site : Site) :
    exec host (.setGlobalPop site) machine = execSetGlobal host site false machine := rfl

theorem exec_setProperty (site : Site) :
    exec host (.setProperty site) machine = execSetProperty host site true machine := rfl

theorem exec_setPropertyPop (site : Site) :
    exec host (.setPropertyPop site) machine = execSetProperty host site false machine := rfl

end

/-! ### Loads and stores -/

theorem run_one (instruction : Instruction World) (machine : Machine World) :
    run (exec host) [instruction] machine = exec host instruction machine := by
  unfold run
  cases exec host instruction machine <;> rfl

theorem run_pair (first second : Instruction World) (machine : Machine World) :
    run (exec host) [first, second] machine =
      (exec host first machine).andThen (exec host second) := by
  unfold run
  exact congrArg (exec host first machine).andThen (funext (run_one host second))

theorem getLocalLocal_run (left right : Nat) (machine : Machine World) :
    run (exec host) [.getLocalLocal left right] machine =
      run (exec host) [.getLocal left, .getLocal right] machine := by
  rw [run_one, run_pair]
  simp only [exec_getLocalLocal, exec_getLocal]
  cases machine.slots[left]? with
  | none => rfl
  | some value => rfl

theorem getLocalConst_run (slot : Nat) (constant : Value) (machine : Machine World) :
    run (exec host) [.getLocalConst slot constant] machine =
      run (exec host) [.getLocal slot, .constant constant] machine := by
  rw [run_one, run_pair]
  simp only [exec_getLocalConst, exec_getLocal]
  cases machine.slots[slot]? with
  | none => rfl
  | some value => rfl

theorem compileOperandPair_run (left right : Operand World) (machine : Machine World) :
    run (exec host) (compileOperandPair left right) machine =
      run (exec host) (left.load ++ right.load) machine := by
  cases left with
  | local_ slot =>
      cases right with
      | local_ other => exact getLocalLocal_run host slot other machine
      | literal number => exact getLocalConst_run host slot (.number number) machine
      | code body => rfl
  | literal number => rfl
  | code body => rfl

theorem set_concat_top (rest : List Value) (value : Value) (slot : Nat) :
    top? ((rest ++ [value]).set slot value) = some (rest.set slot value, value) := by
  rw [List.set_append]
  split
  · exact top?_concat _ value
  · next beyond =>
      have same : rest.set slot value = rest :=
        List.set_eq_of_length_le (Nat.le_of_not_lt beyond)
      rw [same]
      cases slot - rest.length <;> exact top?_concat rest value

theorem exec_pop_top {machine : Machine World} {rest : List Value} {value : Value}
    (found : top? machine.slots = some (rest, value)) :
    exec host .pop machine = .next { machine with slots := rest } := by
  simp only [exec_pop, found]

theorem exec_pop_concat (rest : List Value) (value : Value) (world : World) :
    exec host .pop { slots := rest ++ [value], world := world } =
      .next { slots := rest, world := world } := by
  simp only [exec_pop, top?_concat]

theorem setLocalPop_run (slot : Nat) (machine : Machine World) :
    run (exec host) [.setLocalPop slot] machine =
      run (exec host) [.setLocal slot, .pop] machine := by
  rw [run_one, run_pair]
  rcases top?_cases machine.slots with ⟨_, found⟩ | ⟨rest, value, same, found⟩
  · simp only [exec_setLocalPop, exec_setLocal, found]
    rfl
  · have kept : top? (machine.slots.set slot value) = some (rest.set slot value, value) := by
      rw [same]
      exact set_concat_top rest value slot
    simp only [exec_setLocalPop, exec_setLocal, exec_pop, found, Outcome.andThen, kept]

theorem setGlobalPop_run (site : Site) (machine : Machine World) :
    run (exec host) [.setGlobalPop site] machine =
      run (exec host) [.setGlobal site, .pop] machine := by
  rw [run_one, run_pair]
  rcases top?_cases machine.slots with ⟨_, found⟩ | ⟨rest, value, _, found⟩
  · simp only [exec_setGlobalPop, exec_setGlobal, execSetGlobal, found]
    rfl
  · simp only [exec_setGlobalPop, exec_setGlobal, execSetGlobal, found, if_true,
      Bool.false_eq_true, if_false]
    cases host.storeCachedGlobal site value machine.world with
    | some world =>
        have after : top? (Machine.slots { slots := machine.slots, world := world }) =
            some (rest, value) := found
        exact (exec_pop_top host after).symm
    | none =>
        cases host.assignGlobal site value machine.world with
        | error message => rfl
        | ok world =>
            have after : top? (Machine.slots { slots := machine.slots, world := world }) =
                some (rest, value) := found
            exact (exec_pop_top host after).symm

theorem setPropertyPop_run (site : Site) (machine : Machine World) :
    run (exec host) [.setPropertyPop site] machine =
      run (exec host) [.setProperty site, .pop] machine := by
  rw [run_one, run_pair]
  simp only [exec_setPropertyPop, exec_setProperty, execSetProperty, if_true,
    Bool.false_eq_true, if_false]
  cases topTwo? machine.slots with
  | none => rfl
  | some found =>
      obtain ⟨rest, receiver, value⟩ := found
      simp only
      cases host.csVMStoreCached site receiver value machine.world with
      | some world => exact (exec_pop_concat host rest value world).symm
      | none =>
          cases host.propertyWriteSlow site receiver value machine with
          | mk written later =>
              cases written with
              | false => rfl
              | true =>
                  simp only
                  cases topTwo? later.slots with
                  | none => rfl
                  | some found => exact (exec_pop_concat host found.1 value later.world).symm

theorem Store.emit_run (store : Store World) (machine : Machine World) :
    run (exec host) (store.emit true) machine =
      run (exec host) (store.emit false ++ [.pop]) machine := by
  cases store with
  | local_ slot => exact setLocalPop_run host slot machine
  | global site => exact setGlobalPop_run host site machine
  | property site => exact setPropertyPop_run host site machine
  | code body =>
      change run (exec host) (body ++ [.pop]) machine =
        run (exec host) (body ++ [] ++ [.pop]) machine
      rw [List.append_nil]

/-! ### Comparisons that jump -/

theorem exec_popJumpIfFalse_bool (rest : List Value) (answer : Bool) (world : World) (target : Nat) :
    exec host (.popJumpIfFalse target) { slots := rest ++ [.bool answer], world := world } =
      if answer then .next { slots := rest, world := world }
      else .jump target { slots := rest, world := world } := by
  simp only [exec_popJumpIfFalse, top?_concat, csValueIsTruthy]
  cases answer <;> rfl

theorem jumpIfNot_run (op : CompareOp) (target : Nat) (machine : Machine World) :
    run (exec host) [.jumpIfNot op target] machine =
      run (exec host) [.compare op, .popJumpIfFalse target] machine := by
  rw [run_one, run_pair]
  simp only [exec_jumpIfNot, exec_compare, execCompareJump, execCompare]
  cases topTwo? machine.slots with
  | none => rfl
  | some found =>
      obtain ⟨rest, a, b⟩ := found
      have either : (b.asBigInt.isSome || a.asBigInt.isSome) = (isBigInt a || isBigInt b) :=
        Bool.or_comm _ _
      simp only [binaryCompare, either]
      cases isBigInt a || isBigInt b with
      | true =>
          simp only [if_true]
          cases comparingExactly (host.cells machine.world).bigints a b with
          | none => rfl
          | some ordering =>
              cases ordering with
              | invalid message => rfl
              | unordered => exact (exec_popJumpIfFalse_bool host rest false machine.world target).symm
              | known order =>
                  refine Eq.trans ?_ (exec_popJumpIfFalse_bool host rest
                    (decide (op.orders order 0)) machine.world target).symm
                  by_cases holds : op.orders order 0
                  · simp only [holds, if_true, decide_true]
                  · simp only [holds, if_false, decide_false, Bool.false_eq_true]
      | false =>
          simp only [Bool.false_eq_true, if_false]
          cases a.asNumber with
          | none => rfl
          | some left =>
              cases b.asNumber with
              | none => rfl
              | some right =>
                  exact (exec_popJumpIfFalse_bool host rest (op.numbers left right) machine.world
                    target).symm

theorem jumpIfNotEqual_run (target : Nat) (machine : Machine World) :
    run (exec host) [.jumpIfNotEqual target] machine =
      run (exec host) [.equal, .popJumpIfFalse target] machine := by
  rw [run_one, run_pair]
  simp only [exec_jumpIfNotEqual, exec_equal, execEqual]
  cases topTwo? machine.slots with
  | none => rfl
  | some found => exact (exec_popJumpIfFalse_bool host found.1 _ machine.world target).symm

theorem jumpIfEqual_run (target : Nat) (machine : Machine World) :
    run (exec host) [.jumpIfEqual target] machine =
      run (exec host) [.notEqual, .popJumpIfFalse target] machine := by
  rw [run_one, run_pair]
  simp only [exec_jumpIfEqual, exec_notEqual, execEqual]
  cases topTwo? machine.slots with
  | none => rfl
  | some found =>
      obtain ⟨rest, a, b⟩ := found
      have answer := exec_popJumpIfFalse_bool host rest
        (!csValuesStrictEqual (host.cells machine.world).bigints a b) machine.world target
      simp only [Outcome.andThen]
      refine Eq.trans ?_ answer.symm
      cases csValuesStrictEqual (host.cells machine.world).bigints a b <;> rfl

theorem emitConditionJump_run (condition : Condition World) (target : Nat)
    (machine : Machine World) :
    run (exec host) (emitConditionJump condition target) machine =
      run (exec host) (condition.compile ++ [.popJumpIfFalse target]) machine := by
  cases condition with
  | compare op left right =>
      change run (exec host) (compileOperandPair left right ++ [.jumpIfNot op target]) machine =
        run (exec host) (compileOperandPair left right ++ [.compare op] ++ _) machine
      rw [List.append_assoc, run_append, run_append]
      exact congrArg _ (funext (jumpIfNot_run host op target))
  | equal left right =>
      change run (exec host) (compileOperandPair left right ++ [.jumpIfNotEqual target]) machine =
        run (exec host) (compileOperandPair left right ++ [.equal] ++ _) machine
      rw [List.append_assoc, run_append, run_append]
      exact congrArg _ (funext (jumpIfNotEqual_run host target))
  | notEqual left right =>
      change run (exec host) (compileOperandPair left right ++ [.jumpIfEqual target]) machine =
        run (exec host) (compileOperandPair left right ++ [.notEqual] ++ _) machine
      rw [List.append_assoc, run_append, run_append]
      exact congrArg _ (funext (jumpIfEqual_run host target))
  | code body => rfl

/-! ### Updates in place -/

theorem exec_updateInPlace (increment : Bool) (slot : Nat) (machine : Machine World) :
    exec host (updateInPlace increment slot) machine = execUpdate increment slot machine := by
  cases increment <;> rfl

theorem exec_getLocal_held {slot : Nat} {machine : Machine World} {value : Value}
    (held : machine.slots[slot]? = some value) :
    exec host (.getLocal slot) machine = .next (machine.push value) := by
  rw [exec_getLocal, held]

def kept (isPrefix : Bool) (value : Value) : List Value :=
  if isPrefix then [] else [value]

theorem compileUpdate_run (increment isPrefix : Bool) {slot : Nat} {machine : Machine World}
    {value : Value} (held : machine.slots[slot]? = some value) :
    run (exec host) (compileUpdate increment isPrefix slot ++ [.pop]) machine =
      (exec host (if increment then .add else .subtract)
        { machine with
          slots := machine.slots ++ kept isPrefix value ++ [value] ++
            [.number (.ofNat 1)] }).andThen
        (run (exec host) ([.setLocal slot] ++ (if isPrefix then [] else [.pop]) ++ [.pop])) := by
  have load : exec host (.getLocal slot) machine = .next (machine.push value) :=
    exec_getLocal_held host held
  cases isPrefix with
  | true =>
      change (exec host (.getLocal slot) machine).andThen _ = _
      have nothing : machine.slots ++ kept true value = machine.slots := List.append_nil _
      rw [load, nothing]
      rfl
  | false =>
      change (exec host (.getLocal slot) machine).andThen _ = _
      rw [load]
      have again : exec host .dup (machine.push value) =
          .next ((machine.push value).push value) := by
        simp only [exec_dup, Machine.push, top?_concat]
      change (exec host .dup (machine.push value)).andThen _ = _
      rw [again]
      rfl

theorem store_run (isPrefix : Bool) {slot : Nat} {slots : List Value} (old new : Value)
    (inside : slot < slots.length) (world : World) :
    run (exec host) ([.setLocal slot] ++ (if isPrefix then [] else [.pop]) ++ [.pop])
        { slots := slots ++ kept isPrefix old ++ [new], world := world } =
      .next { slots := slots.set slot new, world := world } := by
  have stores (above : List Value) :
      exec host (.setLocal slot) { slots := slots ++ above ++ [new], world := world } =
        .next { slots := slots.set slot new ++ above ++ [new], world := world } := by
    have set : (slots ++ above ++ [new]).set slot new = slots.set slot new ++ above ++ [new] := by
      rw [List.append_assoc, List.set_append, if_pos inside, List.append_assoc]
    simp only [exec_setLocal, top?_concat, set]
  cases isPrefix with
  | true =>
      change (exec host (.setLocal slot) _).andThen (run (exec host) [.pop]) = _
      rw [kept, if_pos rfl, stores, List.append_nil]
      change run (exec host) [.pop] _ = _
      rw [run_one, exec_pop_concat]
  | false =>
      change (exec host (.setLocal slot) _).andThen (run (exec host) [.pop, .pop]) = _
      rw [kept, if_neg Bool.false_ne_true, stores]
      change run (exec host) [.pop, .pop] _ = _
      rw [run_pair, exec_pop_concat]
      exact exec_pop_concat host _ old world

theorem update_number (increment isPrefix : Bool) {slot : Nat} {machine : Machine World}
    {number : Double} (held : machine.slots[slot]? = some (.number number)) :
    run (exec host) [updateInPlace increment slot] machine =
      run (exec host) (compileUpdate increment isPrefix slot ++ [.pop]) machine := by
  have inside : slot < machine.slots.length := (List.getElem?_eq_some_iff.mp held).1
  rw [run_one, exec_updateInPlace, compileUpdate_run host increment isPrefix held]
  cases increment with
  | true =>
      have adds : exec host .add
          { machine with
            slots := machine.slots ++ kept isPrefix (.number number) ++ [.number number] ++
              [.number (.ofNat 1)] } =
          .next { machine with
            slots := machine.slots ++ kept isPrefix (.number number) ++
              [.number (plus number (.ofNat 1))] } := by
        simp only [exec_add, execAdd, topTwo?_concat, Value.asNumber]
      rw [if_pos rfl, adds]
      refine Eq.trans ?_ (store_run host isPrefix (.number number) _ inside machine.world).symm
      simp only [execUpdate, held, Value.asNumber, if_true]
  | false =>
      have subtracts : exec host .subtract
          { machine with
            slots := machine.slots ++ kept isPrefix (.number number) ++ [.number number] ++
              [.number (.ofNat 1)] } =
          .next { machine with
            slots := machine.slots ++ kept isPrefix (.number number) ++
              [.number (difference number (.ofNat 1))] } := by
        simp only [exec_subtract, execSubtract, topTwo?_concat, Value.asNumber, isBigInt,
          Value.asBigInt, Option.isSome, Bool.or_self, Bool.false_eq_true, if_false]
      rw [if_neg Bool.false_ne_true, subtracts]
      refine Eq.trans ?_ (store_run host isPrefix (.number number) _ inside machine.world).symm
      simp only [execUpdate, held, Value.asNumber, Bool.false_eq_true, if_false, difference]

theorem ends_andThen (failure : Failure World) (rest : Machine World → Result World) :
    Outcome.andThen (.ends failure) rest = .ends failure := rfl

theorem exec_add_other {rest : List Value} {value : Value} {number : Double} {world : World}
    (other : value.asNumber = none) :
    (∃ new, exec host .add { slots := rest ++ [value] ++ [.number number], world := world } =
        .next { slots := rest ++ [new], world := world }) ∨
      ∃ message, exec host .add { slots := rest ++ [value] ++ [.number number], world := world } =
          .ends (.error message world) ∧ message.take 7 = ascii "cannot " := by
  simp only [exec_add, execAdd, topTwo?_concat, Value.asNumber, concatenateOrAdd]
  cases value with
  | number n => cases other
  | undefined | null | bool b => exact .inr ⟨_, rfl, rfl⟩
  | obj object =>
      cases object with
      | string text =>
          left
          simp only [isString, Bool.true_or, if_true, concatenate, csVMValueToText,
            topTwo?_concat]
          exact ⟨_, rfl⟩
      | cell type address =>
          cases big : Value.asBigInt (.obj (.cell type address)) with
          | none | some left =>
              simp only [isString, isBigInt, bigintArithmetic, big]
              exact .inr ⟨_, rfl, rfl⟩

theorem exec_subtract_other {rest : List Value} {value : Value} {number : Double} {world : World}
    (other : value.asNumber = none) :
    ∃ message, exec host .subtract
        { slots := rest ++ [value] ++ [.number number], world := world } =
          .ends (.error message world) ∧
      (message.take 7 = ascii "cannot " ∨ message.take 8 = ascii "operands") := by
  simp only [exec_subtract, execSubtract, topTwo?_concat]
  cases value with
  | number n => cases other
  | undefined | null | bool b => exact ⟨_, rfl, .inr rfl⟩
  | obj object =>
      cases object with
      | string text => exact ⟨_, rfl, .inr rfl⟩
      | cell type address =>
          cases big : Value.asBigInt (.obj (.cell type address)) with
          | none =>
              simp only [isBigInt, big]
              exact ⟨_, rfl, .inr rfl⟩
          | some left =>
              simp only [isBigInt, bigintArithmetic, big]
              exact ⟨_, rfl, .inl rfl⟩

theorem update_other (increment isPrefix : Bool) {slot : Nat} {machine : Machine World}
    {value : Value} (held : machine.slots[slot]? = some value) (other : value.asNumber = none) :
    run (exec host) [updateInPlace increment slot] machine ≠
      run (exec host) (compileUpdate increment isPrefix slot ++ [.pop]) machine := by
  have inside : slot < machine.slots.length := (List.getElem?_eq_some_iff.mp held).1
  have refused : ∃ message, exec host (updateInPlace increment slot) machine =
      .ends (.error message machine.world) ∧ message.take 8 = ascii "operand " := by
    rw [exec_updateInPlace]
    simp only [execUpdate, held, other]
    cases increment <;> exact ⟨_, rfl, rfl⟩
  obtain ⟨message, refuses, starts⟩ := refused
  rw [run_one, refuses, compileUpdate_run host increment isPrefix held]
  -- a message that both report would start in two ways
  have apart {word : List UInt8} (count : Nat) (short : count ≤ 8) (word_ne :
      (ascii "operand ").take count ≠ word) : message.take count ≠ word := by
    rw [← starts, List.take_take, Nat.min_eq_left short] at word_ne
    exact word_ne
  cases increment with
  | true =>
      rw [if_pos rfl]
      rcases exec_add_other host other with ⟨new, adds⟩ | ⟨text, fails, cannot⟩
      · rw [adds]
        have stored := store_run host isPrefix value new inside machine.world
        intro same
        cases same.trans stored
      · rw [fails, ends_andThen]
        intro same
        cases same
        exact apart 7 (by decide) (by decide) cannot
  | false =>
      rw [if_neg Bool.false_ne_true]
      obtain ⟨text, fails, begins⟩ := exec_subtract_other host other
      rw [fails, ends_andThen]
      intro same
      cases same
      rcases begins with cannot | operands
      · exact apart 7 (by decide) (by decide) cannot
      · exact apart 8 (by decide) (by decide) operands

def UpdatesNumber : Instruction World → Machine World → Prop
  | .incLocal slot, machine | .decLocal slot, machine =>
      ∀ value, machine.slots[slot]? = some value → value.asNumber.isSome = true
  | _, _ => True

inductive Fusion : List (Instruction World) → List (Instruction World) → Prop
  | update (increment isPrefix : Bool) (slot : Nat) :
      Fusion (compileUpdate increment isPrefix slot ++ [.pop]) [updateInPlace increment slot]
  | operands (left right : Operand World) :
      Fusion (left.load ++ right.load) (compileOperandPair left right)
  | condition (condition : Condition World) (target : Nat) :
      Fusion (condition.compile ++ [.popJumpIfFalse target]) (emitConditionJump condition target)
  | store (store : Store World) : Fusion (store.emit false ++ [.pop]) (store.emit true)

theorem update_missing (increment isPrefix : Bool) {slot : Nat} {machine : Machine World}
    (missing : machine.slots[slot]? = none) :
    run (exec host) [updateInPlace increment slot] machine =
      run (exec host) (compileUpdate increment isPrefix slot ++ [.pop]) machine := by
  have load : exec host (.getLocal slot) machine = .ends .stuck := by
    rw [exec_getLocal, missing]
  rw [run_one, exec_updateInPlace]
  change _ = (exec host (.getLocal slot) machine).andThen _
  rw [load]
  simp only [execUpdate, missing]
  rfl

theorem asNumber_eq_some {value : Value} (isNumber : value.asNumber.isSome = true) :
    ∃ number, value = .number number := by
  cases value with
  | number number => exact ⟨number, rfl⟩
  | _ => cases isNumber

theorem fusion_sound : Sound (exec host) (@UpdatesNumber World) Fusion := by
  intro plain fused fusion machine meets
  cases fusion with
  | update increment isPrefix slot =>
      symm
      cases held : machine.slots[slot]? with
      | none => exact update_missing host increment isPrefix held
      | some value =>
          have isNumber : value.asNumber.isSome = true := by
            have accepts := meets.1
            cases increment <;> exact accepts value held
          obtain ⟨number, rfl⟩ := asNumber_eq_some isNumber
          exact update_number host increment isPrefix held
  | operands left right => exact (compileOperandPair_run host left right machine).symm
  | condition condition target => exact (emitConditionJump_run host condition target machine).symm
  | store store => exact (store.emit_run host machine).symm

/-- An update in place does what the load, the addition or subtraction and the store do
exactly where its local holds a number; the loads, jumps and stores that are one instruction
always do, and a program whose updates in place meet numbers may have either. -/
theorem fusions_iff :
    (∀ (increment isPrefix : Bool) (slot : Nat) (machine : Machine World) (value : Value),
      machine.slots[slot]? = some value →
      (run (exec host) [updateInPlace increment slot] machine =
          run (exec host) (compileUpdate increment isPrefix slot ++ [.pop]) machine ↔
        value.asNumber.isSome = true)) ∧
      (∀ (left right : Operand World) (machine : Machine World),
        run (exec host) (compileOperandPair left right) machine =
          run (exec host) (left.load ++ right.load) machine) ∧
      (∀ (condition : Condition World) (target : Nat) (machine : Machine World),
        run (exec host) (emitConditionJump condition target) machine =
          run (exec host) (condition.compile ++ [.popJumpIfFalse target]) machine) ∧
      (∀ (store : Store World) (machine : Machine World),
        run (exec host) (store.emit true) machine =
          run (exec host) (store.emit false ++ [.pop]) machine) ∧
      ∀ plain fused : Nat → List (Instruction World),
        (∀ block, Replaces Fusion (plain block) (fused block)) →
        ∀ (count block : Nat) (machine : Machine World),
          MeetsAfter (exec host) UpdatesNumber fused count block machine →
          after (exec host) plain count block machine =
            after (exec host) fused count block machine := by
  refine ⟨fun increment isPrefix slot machine value held => ⟨fun same => ?_, fun isNumber => ?_⟩,
    compileOperandPair_run host, emitConditionJump_run host, Store.emit_run host,
    fun plain fused replaces count block machine meets =>
      Replaces.after_eq (fusion_sound host) replaces count block machine meets⟩
  · by_contra other
    rw [Bool.not_eq_true, Option.isSome_eq_false_iff, Option.isNone_iff_eq_none] at other
    exact update_other host increment isPrefix held other same
  · obtain ⟨number, rfl⟩ := asNumber_eq_some isNumber
    exact update_number host increment isPrefix held

end

def quietHost : Host Unit :=
  { cells := fun _ => { bigints := fun _ => csBigFromInt64 0, symbolKey := fun _ => ⟨[]⟩
                        keyText := fun _ => ⟨[]⟩ }
    csBigIntNew := fun _ world => (0, world)
    shortestDigits := fun _ => { digits := ascii "1", point := 1 }
    valueToText := fun _ machine => (none, machine)
    hasPendingException := fun _ => false
    storeCachedGlobal := fun _ _ _ => none
    assignGlobal := fun site _ _ =>
      .error (ascii "'" ++ site.name.chars ++ ascii "' is not defined")
    csVMStoreCached := fun _ _ _ _ => none
    propertyWriteSlow := fun _ _ _ machine => (false, machine) }

def textMachine (text : List UInt8) : Machine Unit :=
  { slots := [.obj (.string ⟨text⟩)], world := () }

/-- `x++` of a local that holds `"a"`: refused in effect position, `"a1"` elsewhere. -/
theorem fusions_string :
    run (exec quietHost) [updateInPlace true 0] (textMachine (ascii "a")) =
        .ends (.error (ascii "operand of '++' must be a number, got string") ()) ∧
      run (exec quietHost) (compileUpdate true true 0 ++ [.pop]) (textMachine (ascii "a")) =
        .next (textMachine (ascii "a1")) ∧
      run (exec quietHost) [updateInPlace true 0] (textMachine (ascii "a")) ≠
        run (exec quietHost) (compileUpdate true true 0 ++ [.pop]) (textMachine (ascii "a")) :=
  ⟨rfl, rfl, nofun⟩

end CScript.Fused
