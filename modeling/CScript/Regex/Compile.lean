/-
Compiling a pattern: a recursive-descent parser that emits a flat program.

The parser's position is the part of the pattern that is left.  A group parses
an alternation inside an atom, so `parseAtom`, `parseRepetition` and
`parseConcatenation` take the parser of the alternations below them, and
`parseAlternation` ties the knot with fuel: one unit for each level of groups.
-/

import CScript.Regex.Program

namespace CScript

structure ReParser where
  regex : Regex
  rest : List UInt8
  deriving DecidableEq, Repr

/-- `stuck` is a loop that ran out of fuel or a read past the pattern. -/
inductive ReFailure where
  | failed (message : List UInt8)
  | stuck
  deriving DecidableEq, Repr

abbrev ReResult (α : Type) : Type := Except ReFailure α

def fail {α : Type} (message : String) : ReResult α :=
  .error (.failed (ascii message))

def ReParser.emit (parser : ReParser) (op : ReOp) (x y : Nat) : ReParser :=
  { parser with regex := CScript.emit parser.regex op x y }

/-! ### Bytes and classes -/

/-- `none` where the source answers false, with the set as it was. -/
def addEscapeClass (set : ReClass) (escape : UInt8) : Option ReClass :=
  if escape = 'd'.toUInt8 then some (classAddRange set '0'.toUInt8 '9'.toUInt8)
  else if escape = 'w'.toUInt8 then
    some (classAdd (classAddRange (classAddRange (classAddRange set 'a'.toUInt8 'z'.toUInt8)
      'A'.toUInt8 'Z'.toUInt8) '0'.toUInt8 '9'.toUInt8) '_'.toUInt8)
  else if escape = 's'.toUInt8 then
    some ([' '.toUInt8, '\t'.toUInt8, '\n'.toUInt8, '\r'.toUInt8, 12, 11].foldl classAdd set)
  else none

def escapedByte (escape : UInt8) : UInt8 :=
  if escape = 'n'.toUInt8 then '\n'.toUInt8
  else if escape = 't'.toUInt8 then '\t'.toUInt8
  else if escape = 'r'.toUInt8 then '\r'.toUInt8
  else if escape = 'f'.toUInt8 then 12
  else if escape = 'v'.toUInt8 then 11
  else if escape = '0'.toUInt8 then 0
  else escape

def isLower (c : UInt8) : Bool :=
  'a'.toUInt8 ≤ c && c ≤ 'z'.toUInt8

def isUpper (c : UInt8) : Bool :=
  'A'.toUInt8 ≤ c && c ≤ 'Z'.toUInt8

def emitClass (parser : ReParser) (set : ReClass) : ReParser :=
  { parser with regex := emit (addClass parser.regex set) .class_ parser.regex.classes.length 0 }

def foldedByte (byte : UInt8) : ReClass :=
  let set := classAdd emptyClass byte
  let set := if isLower byte then classAdd set (byte - 32) else set
  if isUpper byte then classAdd set (byte + 32) else set

def emitByte (parser : ReParser) (byte : UInt8) : ReParser :=
  if parser.regex.ignoreCase then emitClass parser (foldedByte byte)
  else parser.emit .char byte.toNat 0

/-- One byte at the start of a class member, or a shorthand that is a whole
member.  The loop of `parseClass` reads the first with `low`. -/
inductive ClassMember where
  | byte (low : UInt8)
  | shorthand (set : ReClass)

def classMember (set : ReClass) : List UInt8 → ReResult (ClassMember × List UInt8)
  | [] => .error .stuck
  | c :: rest =>
      if c = '\\'.toUInt8 then
        match rest with
        | [] => fail "trailing '\\' in a character class"
        | escape :: rest =>
            match addEscapeClass set escape with
            | some added => .ok (.shorthand added, rest)
            | none =>
                if escape = 'D'.toUInt8 || escape = 'W'.toUInt8 || escape = 'S'.toUInt8 then
                  fail "\\D, \\W and \\S are not supported inside a character class"
                else .ok (.byte (escapedByte escape), rest)
      else .ok (.byte c, rest)

def classHigh : List UInt8 → ReResult (UInt8 × List UInt8)
  | [] => .error .stuck
  | c :: rest =>
      if c = '\\'.toUInt8 then
        match rest with
        | [] => fail "trailing '\\' in a character class"
        | escape :: rest => .ok (escapedByte escape, rest)
      else .ok (c, rest)

/-- A `-` that stands before the end of the class or of the pattern is no
range. -/
def rangeFollows : List UInt8 → Option (List UInt8)
  | dash :: next :: rest =>
      if dash = '-'.toUInt8 && next ≠ ']'.toUInt8 then some (next :: rest) else none
  | _ => none

def classLoop : Nat → ReClass → Bool → List UInt8 → ReResult (ReClass × List UInt8)
  | 0, _, _, _ => .error .stuck
  | _ + 1, _, _, [] => fail "unterminated character class: missing ']'"
  | fuel + 1, set, first, c :: rest =>
      if c = ']'.toUInt8 && !first then .ok (set, rest)
      else do
        let (member, rest) ← classMember set (c :: rest)
        match member with
        | .shorthand set => classLoop fuel set false rest
        | .byte low =>
            match rangeFollows rest with
            | none => classLoop fuel (classAdd set low) false rest
            | some upper => do
                let (high, rest) ← classHigh upper
                if high < low then fail "a character range runs backwards"
                else classLoop fuel (classAddRange set low high) false rest

def foldCase (set : ReClass) : ReClass :=
  let set := (List.range' 97 26).foldl
    (fun filled c => if csRegexClassHas filled (UInt8.ofNat c)
      then classAdd filled (UInt8.ofNat (c - 32)) else filled) set
  (List.range' 65 26).foldl
    (fun filled c => if csRegexClassHas filled (UInt8.ofNat c)
      then classAdd filled (UInt8.ofNat (c + 32)) else filled) set

/-- The class after a `[`, and what follows its `]`. -/
def readClass (ignoreCase : Bool) (rest : List UInt8) : ReResult (ReClass × List UInt8) := do
  let negated := rest.head? = some '^'.toUInt8
  let members := if negated then rest.tail else rest
  let (set, rest) ← classLoop (members.length + 1) emptyClass true members
  let set := if ignoreCase then foldCase set else set
  return (if negated then negate set else set, rest)

def parseClass (parser : ReParser) : ReResult ReParser := do
  let (set, rest) ← readClass parser.regex.ignoreCase parser.rest
  return emitClass { parser with rest := rest } set

/-! ### Atoms -/

/-- What follows a `(`. -/
inductive Modifier where
  | capturing (name : Option (List UInt8))
  | plain
  | look (behind negated : Bool)
  deriving DecidableEq, Repr

def readName (rest : List UInt8) : ReResult (Modifier × List UInt8) :=
  let name := rest.takeWhile (fun c => c ≠ '>'.toUInt8)
  match rest.dropWhile (fun c => c ≠ '>'.toUInt8) with
  | [] => fail "unterminated group name: missing '>'"
  | _ :: rest =>
      if name = [] then fail "a named group needs a name"
      else .ok (.capturing (some name), rest)

def readModifier : List UInt8 → ReResult (Modifier × List UInt8)
  | mark :: kind :: rest =>
      if mark ≠ '?'.toUInt8 then .ok (.capturing none, mark :: kind :: rest)
      else if kind = ':'.toUInt8 then .ok (.plain, rest)
      else if kind = '='.toUInt8 || kind = '!'.toUInt8 then
        .ok (.look false (kind = '!'.toUInt8), rest)
      else if kind = '<'.toUInt8 then
        match rest with
        | [] => readName []
        | sign :: after =>
            if sign = '='.toUInt8 || sign = '!'.toUInt8 then
              .ok (.look true (sign = '!'.toUInt8), after)
            else readName (sign :: after)
      else fail "unsupported group modifier after '(?'"
  | rest => .ok (.capturing none, rest)

/-- `strlen` of a recorded name stops at a zero byte. -/
def sameName (recorded name : List UInt8) : Bool :=
  (recorded.takeWhile (fun c => c ≠ 0)).length = name.length && recorded = name

def addGroupName (regex : Regex) (name : List UInt8) (group : Nat) : ReResult Regex :=
  if regex.names.any (fun entry => sameName entry.name name) then
    fail "two groups cannot share a name"
  else .ok { regex with names := regex.names ++ [{ name := name, group := group }] }

def recordName (regex : Regex) (name : Option (List UInt8)) (group : Nat) : ReResult Regex :=
  match name with
  | none => .ok regex
  | some name => addGroupName regex name group

/-- What follows a `\`. -/
inductive Escape where
  | word (positive : Bool)
  | backref (group : Nat)
  | set (set : ReClass)
  | byte (byte : UInt8)
  deriving DecidableEq, Repr

def readEscape (escape : UInt8) : Escape :=
  if escape = 'b'.toUInt8 || escape = 'B'.toUInt8 then .word (escape = 'b'.toUInt8)
  else if '1'.toUInt8 ≤ escape && escape ≤ '9'.toUInt8 then
    .backref (escape - '0'.toUInt8).toNat
  else
    match addEscapeClass emptyClass (if isUpper escape then escape + 32 else escape) with
    | some set => .set (if isUpper escape then negate set else set)
    | none => .byte (escapedByte escape)

def parseEscape (parser : ReParser) : ReResult ReParser :=
  match parser.rest with
  | [] => fail "trailing '\\'"
  | escape :: rest =>
      let parser := { parser with rest := rest }
      match readEscape escape with
      | .word positive => .ok (parser.emit .assertWord (if positive then 1 else 0) 0)
      | .backref group =>
          if parser.regex.groupCount ≤ group then
            fail "backreference to a group that does not exist"
          else .ok (parser.emit .backref group 0)
      | .set set => .ok (emitClass parser set)
      | .byte byte => .ok (emitByte parser byte)

def closeParen (message : String) (parser : ReParser) : ReResult ReParser :=
  match parser.rest with
  | [] => fail message
  | c :: rest => if c = ')'.toUInt8 then .ok { parser with rest := rest } else fail message

section

variable (parseAlternation : ReParser → ReResult ReParser)

/-- `(?=…)` and `(?<=…)`: the continuation is known once the body is emitted. -/
def parseLook (parser : ReParser) (behind negated : Bool) : ReResult ReParser := do
  let look := parser.regex.count
  let op := if behind then .lookbehind else .look
  let body ← parseAlternation (parser.emit op (if negated then 1 else 0) 0)
  let closed ← closeParen (if behind then "unterminated lookbehind: missing ')'"
    else "unterminated lookahead: missing ')'") body
  let ended := closed.emit .lookEnd 0 0
  return { ended with regex := patchY ended.regex look ended.regex.count }

def parseCapture (parser : ReParser) (name : Option (List UInt8)) : ReResult ReParser := do
  if CS_REGEX_MAX_GROUPS ≤ parser.regex.groupCount then fail "too many capture groups"
  else do
    let group := parser.regex.groupCount
    let regex := emit { parser.regex with groupCount := group + 1 } .save (group * 2) 0
    let regex ← recordName regex name group
    let body ← parseAlternation { parser with regex := regex }
    let closed ← closeParen "unterminated group: missing ')'" body
    return closed.emit .save (group * 2 + 1) 0

def parseGroup (parser : ReParser) : ReResult ReParser := do
  let (modifier, rest) ← readModifier parser.rest
  match modifier with
  | .look behind negated => parseLook parseAlternation { parser with rest := rest } behind negated
  | .plain => do
      let body ← parseAlternation { parser with rest := rest }
      closeParen "unterminated group: missing ')'" body
  | .capturing name => parseCapture parseAlternation { parser with rest := rest } name

def parseAtom (parser : ReParser) : ReResult ReParser :=
  match parser.rest with
  | [] => .error .stuck
  | c :: rest =>
      let parser := { parser with rest := rest }
      if c = '('.toUInt8 then parseGroup parseAlternation parser
      else if c = '['.toUInt8 then parseClass parser
      else if c = '.'.toUInt8 then .ok (parser.emit .any 0 0)
      else if c = '^'.toUInt8 then .ok (parser.emit .assertBol 0 0)
      else if c = '$'.toUInt8 then .ok (parser.emit .assertEol 0 0)
      else if c = '\\'.toUInt8 then parseEscape parser
      else .ok (emitByte parser c)

end

/-! ### Quantifiers -/

/-- A C `int` after arithmetic. -/
def cInt (n : Int) : Int :=
  n.bmod 0x100000000

theorem cInt_small {n : Int} (low : -2147483648 ≤ n) (high : n < 2147483648) : cInt n = n := by
  unfold cInt
  rw [Int.bmod_eq_of_le_mul_two] <;> omega

def isDigit (c : UInt8) : Bool :=
  '0'.toUInt8 ≤ c && c ≤ '9'.toUInt8

/-- The loop that reads a bound, digit by digit. -/
def readInt (digits : List UInt8) : Int :=
  digits.foldl (fun n digit => cInt (cInt (n * 10) + ((digit.toNat : Int) - 48))) 0

/-- The digits of a `{n,m}`; an upper bound that is not there is unbounded. -/
structure Braces where
  least : List UInt8
  most : Option (List UInt8)
  deriving DecidableEq, Repr

def closeBrace (braces : Braces) : List UInt8 → Option (Braces × List UInt8)
  | [] => none
  | c :: rest => if c = '\x7d'.toUInt8 then some (braces, rest) else none

/-- `none` when the brace is a literal one. -/
def readBraces (rest : List UInt8) : Option (Braces × List UInt8) :=
  let least := rest.takeWhile isDigit
  let rest := rest.dropWhile isDigit
  if least = [] then none
  else
    match rest with
    | [] => none
    | c :: after =>
        if c = ','.toUInt8 then
          if after.head? = some '\x7d'.toUInt8 then
            closeBrace { least := least, most := none } after
          else
            closeBrace { least := least, most := some (after.takeWhile isDigit) }
              (after.dropWhile isDigit)
        else closeBrace { least := least, most := some least } (c :: after)

/-- The bounds as the source keeps them, `most` being -1 when unbounded. -/
structure Bounds where
  least : Int
  most : Int
  deriving DecidableEq, Repr

def checkBounds (bounds : Bounds) : ReResult Bounds :=
  if bounds.most ≠ -1 ∧ bounds.most < bounds.least then
    fail "a \x7bn,m\x7d range runs backwards"
  else if 1000 < bounds.most ∨ 1000 < bounds.least then
    fail "a \x7bn,m\x7d repetition is limited to 1000"
  else .ok bounds

/-- `none` when no quantifier follows the atom. -/
def readBounds : List UInt8 → ReResult (Option (Bounds × List UInt8))
  | [] => .ok none
  | c :: rest =>
      if c = '*'.toUInt8 then .ok (some ({ least := 0, most := -1 }, rest))
      else if c = '+'.toUInt8 then .ok (some ({ least := 1, most := -1 }, rest))
      else if c = '?'.toUInt8 then .ok (some ({ least := 0, most := 1 }, rest))
      else if c = '\x7b'.toUInt8 then
        match readBraces rest with
        | none => .ok none
        | some (braces, rest) => do
            let bounds ← checkBounds
              { least := readInt braces.least, most := (braces.most.map readInt).getD (-1) }
            return some (bounds, rest)
      else .ok none

def readLazy (rest : List UInt8) : Bool × List UInt8 :=
  if rest.head? = some '?'.toUInt8 then (true, rest.tail) else (false, rest)

/-! ### Repetition -/

def ReInst.relocate (inst : ReInst) (by_ : Nat) : ReInst :=
  match inst.op with
  | .split => { inst with x := inst.x + by_, y := inst.y + by_ }
  | .jump => { inst with x := inst.x + by_ }
  | _ => inst

/-- One copy of an atom that was emitted at `atomStart`. -/
def copyAtom (atom : List ReInst) (atomStart : Nat) (regex : Regex) : Regex :=
  { regex with
    code := regex.code ++ atom.map (fun inst => inst.relocate (regex.count - atomStart)) }

def copyAtoms (atom : List ReInst) (atomStart : Nat) : Nat → Regex → Regex
  | 0, regex => regex
  | copies + 1, regex => copyAtoms atom atomStart copies (copyAtom atom atomStart regex)

/-- `e*`: split, body, jump back. -/
def loopAtom (atom : List ReInst) (atomStart : Nat) (lazy : Bool) (regex : Regex) : Regex :=
  let split := regex.count
  let opened := emit regex .split 0 0
  let bodyStart := opened.count
  let closed := emit (copyAtom atom atomStart opened) .jump split 0
  let split_ := patchX closed split (if lazy then closed.count else bodyStart)
  patchY split_ split (if lazy then bodyStart else closed.count)

def optionalAtoms (atom : List ReInst) (atomStart : Nat) (lazy : Bool) :
    Nat → Regex → Regex × List Nat
  | 0, regex => (regex, [])
  | optional + 1, regex =>
      let split := regex.count
      let opened := emit regex .split 0 0
      let bodyStart := opened.count
      let copied := copyAtom atom atomStart opened
      let arms := patchY (patchX copied split (if lazy then 0 else bodyStart)) split
        (if lazy then bodyStart else 0)
      let (after, splits) := optionalAtoms atom atomStart lazy optional arms
      (after, split :: splits)

def patchSplits (lazy : Bool) (splits : List Nat) (regex : Regex) : Regex :=
  splits.foldl (fun patched split =>
    if lazy then patchX patched split regex.count else patchY patched split regex.count) regex

def repeatAtom (regex : Regex) (atomStart : Nat) (bounds : Bounds) (lazy : Bool) : Regex :=
  let atom := regex.code.drop atomStart
  let lifted := { regex with code := regex.code.take atomStart }
  let copied := copyAtoms atom atomStart bounds.least.toNat lifted
  if bounds.most = -1 then loopAtom atom atomStart lazy copied
  else
    let (after, splits) := optionalAtoms atom atomStart lazy
      (cInt (bounds.most - bounds.least)).toNat copied
    patchSplits lazy splits after

section

variable (parseAlternation : ReParser → ReResult ReParser)

def parseRepetition (parser : ReParser) : ReResult ReParser := do
  let atomStart := parser.regex.count
  let atom ← parseAtom parseAlternation parser
  match ← readBounds atom.rest with
  | none => return atom
  | some (bounds, rest) =>
      let (lazy, rest) := readLazy rest
      return { regex := repeatAtom atom.regex atomStart bounds lazy, rest := rest }

/-! ### Concatenation and alternation -/

def endsConcatenation : List UInt8 → Bool
  | [] => true
  | c :: _ => c = '|'.toUInt8 || c = ')'.toUInt8

def parseConcatenation : Nat → ReParser → ReResult ReParser
  | 0, _ => .error .stuck
  | fuel + 1, parser =>
      if endsConcatenation parser.rest then .ok parser
      else do
        let parser ← parseRepetition parseAlternation parser
        parseConcatenation fuel parser

/-- The loop that makes room for a split under the code from `start` on. -/
def ReInst.shift (inst : ReInst) (start : Nat) : ReInst :=
  let above (target : Nat) : Nat := if start ≤ target then target + 1 else target
  match inst.op with
  | .split => { inst with x := above inst.x, y := above inst.y }
  | .jump => { inst with x := above inst.x }
  | _ => inst

def openAlternative (regex : Regex) (start : Nat) : Regex :=
  let moved := (regex.code.drop start).map (fun inst => inst.shift start)
  let split := { op := .split, x := start + 1, y := 0 }
  let jumped := emit { regex with code := regex.code.take start ++ split :: moved } .jump 0 0
  patchY jumped start jumped.count

def alternatives (start : Nat) : Nat → ReParser → ReResult ReParser
  | 0, _ => .error .stuck
  | fuel + 1, parser =>
      match parser.rest with
      | [] => .ok parser
      | c :: rest =>
          if c = '|'.toUInt8 then do
            let opened := openAlternative parser.regex start
            let jump := opened.count - 1
            let right ← parseConcatenation parseAlternation (rest.length + 1)
              { regex := opened, rest := rest }
            let joined := patchX right.regex jump right.regex.count
            alternatives start fuel { right with regex := joined }
          else .ok parser

end

def parseAlternation : Nat → ReParser → ReResult ReParser
  | 0, _ => .error .stuck
  | fuel + 1, parser => do
      let start := parser.regex.count
      let left ← parseConcatenation (parseAlternation fuel) (parser.rest.length + 1) parser
      alternatives (parseAlternation fuel) start (left.rest.length + 1) left

structure ReFlags where
  ignoreCase : Bool
  multiline : Bool
  dotAll : Bool
  deriving DecidableEq, Repr

def csRegexCompile (pattern : List UInt8) (flags : ReFlags) : ReResult Regex := do
  let regex : Regex :=
    { code := []
      classes := []
      groupCount := 1
      names := []
      ignoreCase := flags.ignoreCase
      multiline := flags.multiline
      dotAll := flags.dotAll }
  let parsed ← parseAlternation (pattern.length + 1)
    { regex := emit regex .save 0 0, rest := pattern }
  if parsed.rest ≠ [] then fail "unexpected ')'"
  else return emit (emit parsed.regex .save 1 0) .match_ 0 0

def noFlags : ReFlags :=
  { ignoreCase := false, multiline := false, dotAll := false }

theorem exists_of_isOk (result : ReResult Regex) (ok : result.isOk = true) :
    ∃ regex, result = .ok regex := by
  cases result with
  | error failure => cases ok
  | ok regex => exact ⟨regex, rfl⟩

end CScript
