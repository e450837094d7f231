/-
Patterns as syntax trees.

The parser below reads the grammar `csRegexCompile` accepts and builds a tree;
it emits nothing and knows no limit.  A quantifier keeps the bounds that are
written, which the compiler reads into an `int`.
-/

import CScript.Regex.Compile

namespace CScript

inductive Node where
  | empty
  | literal (byte : UInt8)
  | any
  | set (set : ReClass)
  | lineStart
  | lineEnd
  | word (positive : Bool)
  | backref (group : Nat)
  | group (capture : Option Nat) (body : Node)
  | look (behind negated : Bool) (body : Node)
  | sequence (first rest : Node)
  | alternate (left right : Node)
  | repeated (body : Node) (least : Nat) (most : Option Nat) (lazy : Bool)
  deriving DecidableEq, Repr

structure Scan where
  groups : Nat
  rest : List UInt8
  deriving DecidableEq, Repr

/-! ### Quantifiers -/

def readNat (digits : List UInt8) : Nat :=
  digits.foldl (fun n digit => n * 10 + (digit.toNat - 48)) 0

structure Written where
  least : Nat
  most : Option Nat
  deriving DecidableEq, Repr

def writtenBounds : List UInt8 → Option (Written × List UInt8)
  | [] => none
  | c :: rest =>
      if c = '*'.toUInt8 then some ({ least := 0, most := none }, rest)
      else if c = '+'.toUInt8 then some ({ least := 1, most := none }, rest)
      else if c = '?'.toUInt8 then some ({ least := 0, most := some 1 }, rest)
      else if c = '\x7b'.toUInt8 then
        (readBraces rest).map (fun (braces, rest) =>
          ({ least := readNat braces.least, most := braces.most.map readNat }, rest))
      else none

/-! ### The parser -/

def treeEscape (scan : Scan) : Option (Node × Scan) :=
  match scan.rest with
  | [] => none
  | escape :: rest =>
      let node := match readEscape escape with
        | .word positive => Node.word positive
        | .backref group => .backref group
        | .set set => .set set
        | .byte byte => .literal byte
      some (node, { scan with rest := rest })

def treeClose (node : Node) (scan : Scan) : Option (Node × Scan) :=
  match scan.rest with
  | [] => none
  | c :: rest => if c = ')'.toUInt8 then some (node, { scan with rest := rest }) else none

section

variable (ignoreCase : Bool) (treeAlternation : Scan → Option (Node × Scan))

def treeGroup (scan : Scan) : Option (Node × Scan) := do
  let (modifier, rest) ← (readModifier scan.rest).toOption
  match modifier with
  | .look behind negated => do
      let (body, after) ← treeAlternation { scan with rest := rest }
      treeClose (.look behind negated body) after
  | .plain => do
      let (body, after) ← treeAlternation { scan with rest := rest }
      treeClose (.group none body) after
  | .capturing _ => do
      let (body, after) ← treeAlternation { groups := scan.groups + 1, rest := rest }
      treeClose (.group (some scan.groups) body) after

def treeAtom (scan : Scan) : Option (Node × Scan) :=
  match scan.rest with
  | [] => none
  | c :: rest =>
      let scan := { scan with rest := rest }
      if c = '('.toUInt8 then treeGroup treeAlternation scan
      else if c = '['.toUInt8 then do
        let (set, rest) ← (readClass ignoreCase scan.rest).toOption
        return (.set set, { scan with rest := rest })
      else if c = '.'.toUInt8 then some (.any, scan)
      else if c = '^'.toUInt8 then some (.lineStart, scan)
      else if c = '$'.toUInt8 then some (.lineEnd, scan)
      else if c = '\\'.toUInt8 then treeEscape scan
      else some (.literal c, scan)

def treeRepetition (scan : Scan) : Option (Node × Scan) := do
  let (atom, after) ← treeAtom ignoreCase treeAlternation scan
  match writtenBounds after.rest with
  | none => return (atom, after)
  | some (bounds, rest) =>
      let (lazy, rest) := readLazy rest
      return (.repeated atom bounds.least bounds.most lazy, { after with rest := rest })

def treeConcatenation : Nat → Scan → Option (Node × Scan)
  | 0, _ => none
  | fuel + 1, scan =>
      if endsConcatenation scan.rest then some (.empty, scan)
      else do
        let (first, scan) ← treeRepetition ignoreCase treeAlternation scan
        let (rest, scan) ← treeConcatenation fuel scan
        return (.sequence first rest, scan)

def treeAlternatives : Nat → Node → Scan → Option (Node × Scan)
  | 0, _, _ => none
  | fuel + 1, left, scan =>
      match scan.rest with
      | [] => some (left, scan)
      | c :: rest =>
          if c = '|'.toUInt8 then do
            let (right, after) ← treeConcatenation ignoreCase treeAlternation (rest.length + 1)
              { scan with rest := rest }
            treeAlternatives fuel (.alternate left right) after
          else some (left, scan)

end

def treeAlternation (ignoreCase : Bool) : Nat → Scan → Option (Node × Scan)
  | 0, _ => none
  | fuel + 1, scan => do
      let (left, after) ← treeConcatenation ignoreCase (treeAlternation ignoreCase fuel)
        (scan.rest.length + 1) scan
      treeAlternatives ignoreCase (treeAlternation ignoreCase fuel) (after.rest.length + 1) left
        after

def patternTree (pattern : List UInt8) (ignoreCase : Bool) : Option Node :=
  match treeAlternation ignoreCase (pattern.length + 1) { groups := 1, rest := pattern } with
  | some (node, { groups := _, rest := [] }) => some node
  | _ => none

end CScript
