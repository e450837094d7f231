/-
The reader and the writer of std:json.

The module is written in the language itself, so its escapes are string literals
that the compiler decodes: `source` gives what a literal of its source stands for.
An object is the list of its members, in the order of their insertion; the reader's
cursor is a position and the bytes that are left.
-/

import CScript.Foundation.KeySort
import CScript.Foundation.OrderedMap
import CScript.Library.Decimal

namespace CScript.StdJson

open Foundation

/-! ### String literals -/

def escaped (c : UInt8) : UInt8 :=
  if c = 'n'.toUInt8 then 10
  else if c = 't'.toUInt8 then 9
  else if c = 'r'.toUInt8 then 13
  else if c = '0'.toUInt8 then 0
  else c

def decodeEscapes : List UInt8 → List UInt8
  | [] => []
  | [c] => [c]
  | c :: next :: rest =>
      if c ≠ '\\'.toUInt8 then c :: decodeEscapes (next :: rest)
      else escaped next :: decodeEscapes rest

def makeStringLiteral (lexeme : List UInt8) : List UInt8 :=
  decodeEscapes (lexeme.tail.take (lexeme.length - 2))

/-- A string literal of the module's source, written between double quotes. -/
def source (text : String) : List UInt8 :=
  makeStringLiteral (ascii "\"" ++ ascii text ++ ascii "\"")

/-! ### Values -/

/-- A value as the writer sees it: `other` is a kind that JSON cannot hold. -/
inductive JsonValue where
  | null
  | undefined
  | boolean (b : Bool)
  | number (n : Double)
  | string (chars : List UInt8)
  | bigint
  | array (elements : List JsonValue)
  | object (members : List (List UInt8 × JsonValue))
  | set (elements : List JsonValue)
  | date (iso : List UInt8)
  | other (kind : List UInt8)

/-- `String(n)` and `Number(text)`. -/
structure NumberText where
  print : Double → List UInt8
  read : List UInt8 → Double

abbrev Written : Type := Except (List UInt8) (List UInt8)

/-! ### Writing -/

def hexDigit (digit : Nat) : UInt8 :=
  UInt8.ofNat (if digit < 10 then 48 + digit else 97 + (digit - 10))

/-- `code.toString(16).padStart(4, "0")` of a byte. -/
def hexText (code : Nat) : List UInt8 :=
  let digits := if code < 16 then [hexDigit code] else [hexDigit (code / 16), hexDigit (code % 16)]
  List.replicate (4 - digits.length) '0'.toUInt8 ++ digits

def quoteChar (c : UInt8) : List UInt8 :=
  if [c] = source "\\\"" then source "\\\\\\\""
  else if [c] = source "\\\\" then source "\\\\\\\\"
  else if [c] = source "\\n" then source "\\\\n"
  else if [c] = source "\\t" then source "\\\\t"
  else if [c] = source "\\r" then source "\\\\r"
  else if c = 8 then source "\\\\b"
  else if c = 12 then source "\\\\f"
  else if c < 32 then source "\\\\u" ++ hexText c.toNat
  else [c]

def quote (text : List UInt8) : List UInt8 :=
  source "\\\"" ++ text.flatMap quoteChar ++ source "\\\""

/-- `strcmp` of two strings, which end at their first zero byte: whether the left
one comes after the right one. -/
def comesAfter : List UInt8 → List UInt8 → Bool
  | [], _ => false
  | c :: _, [] => c ≠ 0
  | c :: left, d :: right => if c = d then if c = 0 then false else comesAfter left right else d < c

structure Layout where
  indent : ℚ
  stable : Bool

namespace Layout

def newline (layout : Layout) : List UInt8 :=
  if 0 < layout.indent then source "\\n" else []

/-- `" ".repeat(indent * depth)`. -/
def spaces (layout : Layout) (depth : Nat) : List UInt8 :=
  if 0 < layout.indent then List.replicate ⌊layout.indent * depth⌋.toNat ' '.toUInt8 else []

def separator (layout : Layout) : List UInt8 :=
  if 0 < layout.indent then ascii ": " else ascii ":"

def lines (layout : Layout) (depth : Nat) (opening closing : UInt8) (parts : List (List UInt8)) :
    List UInt8 :=
  if parts = [] then [opening, closing]
  else
    opening :: layout.newline ++ List.intercalate (','.toUInt8 :: layout.newline) parts ++
      layout.newline ++ layout.spaces depth ++ [closing]

end Layout

/-- The parts of an object, in the order of its keys; an undefined member has none. -/
def memberParts (layout : Layout) (depth : Nat) :
    List (List UInt8 × Option Written) → Except (List UInt8) (List (List UInt8))
  | [] => .ok []
  | (_, none) :: rest => memberParts layout depth rest
  | (key, some written) :: rest => do
      let text ← written
      let parts ← memberParts layout depth rest
      return (layout.spaces (depth + 1) ++ quote key ++ layout.separator ++ text) :: parts

section

variable (numbers : NumberText) (layout : Layout)

mutual

def write (depth : Nat) : JsonValue → Written
  | .null => .ok (ascii "null")
  | .undefined => .ok (ascii "null")
  | .boolean b => .ok (if b then ascii "true" else ascii "false")
  | .number n => .ok (if n.isNaN || n.isInf then ascii "null" else numbers.print n)
  | .string chars => .ok (quote chars)
  | .bigint =>
      .error (ascii "JSON has no bigint: convert it to a string or a number first")
  | .array elements => do
      let parts ← writeElements depth elements
      return layout.lines depth '['.toUInt8 ']'.toUInt8 parts
  | .object members => do
      let members := writeMembers depth members
      let members := if layout.stable then KeySort.sortByKey comesAfter members else members
      let parts ← memberParts layout depth members
      return layout.lines depth '\x7b'.toUInt8 '\x7d'.toUInt8 parts
  | .set elements => do
      let parts ← writeElements depth elements
      return layout.lines depth '['.toUInt8 ']'.toUInt8 parts
  | .date iso => .ok (quote iso)
  | .other kind => .error (ascii "JSON cannot hold a " ++ kind)

def writeElements (depth : Nat) : List JsonValue → Except (List UInt8) (List (List UInt8))
  | [] => .ok []
  | element :: rest => do
      let text ← write (depth + 1) element
      let parts ← writeElements depth rest
      return (layout.spaces (depth + 1) ++ text) :: parts

def writeMembers (depth : Nat) :
    List (List UInt8 × JsonValue) → List (List UInt8 × Option Written)
  | [] => []
  | (key, held) :: rest =>
      (key, match held with
        | .undefined => none
        | held => some (write (depth + 1) held)) :: writeMembers depth rest

end

end

def stringify (numbers : NumberText) (value : JsonValue) (indent : ℚ) (stable : Bool) : Written :=
  write numbers { indent := indent, stable := stable } 0 value

def stringifyStable (numbers : NumberText) (value : JsonValue) (indent : ℚ) : Written :=
  write numbers { indent := indent, stable := true } 0 value

/-! ### Reading -/

structure Cursor where
  at_ : Nat
  rest : List UInt8
  deriving DecidableEq, Repr

namespace Cursor

def advance (cursor : Cursor) (count : Nat) : Cursor :=
  { at_ := cursor.at_ + count, rest := cursor.rest.drop count }

/-- The message of an error, with the position. -/
def complain (cursor : Cursor) (message : List UInt8) : List UInt8 :=
  ascii "at " ++ Decimal.natText cursor.at_ ++ ascii ": " ++ message

def fail {α : Type} (cursor : Cursor) (message : List UInt8) : Except (List UInt8) α :=
  .error (cursor.complain message)

end Cursor

def isSpace (c : UInt8) : Bool :=
  c = ' '.toUInt8 || c = 9 || c = 10 || c = 13

def skipSpaceFrom (at_ : Nat) : List UInt8 → Except (List UInt8) Cursor
  | [] => .ok { at_ := at_, rest := [] }
  | c :: rest =>
      if isSpace c then skipSpaceFrom (at_ + 1) rest
      else if c = '/'.toUInt8 then
        Cursor.fail { at_ := at_, rest := c :: rest } (ascii "JSON has no comments")
      else .ok { at_ := at_, rest := c :: rest }

def skipSpace (cursor : Cursor) : Except (List UInt8) Cursor :=
  skipSpaceFrom cursor.at_ cursor.rest

def parseWord (cursor : Cursor) (word : List UInt8) (value : JsonValue) :
    Except (List UInt8) (JsonValue × Cursor) :=
  if cursor.rest.take word.length ≠ word then
    cursor.fail (ascii "expected '" ++ word ++ ascii "'")
  else .ok (value, cursor.advance word.length)

def isDigit (c : UInt8) : Bool :=
  48 ≤ c && c ≤ 57

def hexDigitValue (c : UInt8) : Option Nat :=
  if 48 ≤ c ∧ c ≤ 57 then some (c.toNat - 48)
  else if 65 ≤ c ∧ c ≤ 70 then some (c.toNat - 55)
  else if 97 ≤ c ∧ c ≤ 102 then some (c.toNat - 87)
  else none

/-- `none` is the answer -1. -/
def hexValue (digits : List UInt8) : Option Nat :=
  if digits.length ≠ 4 then none
  else digits.foldl (fun total c => do
    let total ← total
    let digit ← hexDigitValue c
    return total * 16 + digit) (some 0)

def utf8 (code : Nat) : List UInt8 :=
  if code < 0x80 then [UInt8.ofNat code]
  else if code < 0x800 then
    [UInt8.ofNat (0xc0 + code / 64), UInt8.ofNat (0x80 + code % 64)]
  else if code < 0x10000 then
    [UInt8.ofNat (0xe0 + code / 4096), UInt8.ofNat (0x80 + code / 64 % 64),
      UInt8.ofNat (0x80 + code % 64)]
  else
    [UInt8.ofNat (0xf0 + code / 262144), UInt8.ofNat (0x80 + code / 4096 % 64),
      UInt8.ofNat (0x80 + code / 64 % 64), UInt8.ofNat (0x80 + code % 64)]

def joinSurrogates (value : Nat) (cursor : Cursor) : Nat × Cursor :=
  if 0xd800 ≤ value ∧ value ≤ 0xdbff ∧ cursor.rest.take 2 = source "\\\\u" then
    match hexValue ((cursor.rest.drop 2).take 4) with
    | some low =>
        if 0xdc00 ≤ low ∧ low ≤ 0xdfff then
          (0x10000 + (value - 0xd800) * 0x400 + (low - 0xdc00), cursor.advance 6)
        else (value, cursor)
    | none => (value, cursor)
  else (value, cursor)

def readEscape (escape : Option UInt8) (cursor : Cursor) :
    Except (List UInt8) (List UInt8 × Cursor) :=
  if escape = some '"'.toUInt8 then .ok (source "\\\"", cursor)
  else if escape = some '\\'.toUInt8 then .ok (source "\\\\", cursor)
  else if escape = some '/'.toUInt8 then .ok (source "/", cursor)
  else if escape = some 'n'.toUInt8 then .ok (source "\\n", cursor)
  else if escape = some 't'.toUInt8 then .ok (source "\\t", cursor)
  else if escape = some 'r'.toUInt8 then .ok (source "\\r", cursor)
  else if escape = some 'b'.toUInt8 then .ok (source "\\b", cursor)
  else if escape = some 'f'.toUInt8 then .ok (source "\\f", cursor)
  else if escape = some 'u'.toUInt8 then
    match hexValue (cursor.rest.take 4) with
    | none => (cursor.advance 4).fail (ascii "\\u needs four hex digits")
    | some value =>
        let (value, cursor) := joinSurrogates value (cursor.advance 4)
        .ok (utf8 value, cursor)
  else
    cursor.fail (ascii "unknown escape '\\" ++
      (escape.map (fun c => [c])).getD (ascii "undefined") ++ ascii "'")

/-- The loop of `parseString`; every round reads a byte. -/
def stringLoop : Nat → Cursor → List UInt8 → Except (List UInt8) (List UInt8 × Cursor)
  | 0, cursor, _ => cursor.fail (ascii "the text ended inside a string")
  | fuel + 1, cursor, out =>
      match cursor.rest with
      | [] => cursor.fail (ascii "the text ended inside a string")
      | c :: _ =>
          if c = '"'.toUInt8 then .ok (out, cursor.advance 1)
          else if c = '\\'.toUInt8 then do
            let (bytes, cursor) ← readEscape (cursor.rest.drop 1).head? (cursor.advance 2)
            stringLoop fuel cursor (out ++ bytes)
          else stringLoop fuel (cursor.advance 1) (out ++ [c])

def parseString (cursor : Cursor) : Except (List UInt8) (List UInt8 × Cursor) :=
  stringLoop cursor.rest.length (cursor.advance 1) []

def numberSplit (rest : List UInt8) : List UInt8 × List UInt8 :=
  let sign := if rest.head? = some '-'.toUInt8 then rest.take 1 else []
  let rest := rest.drop sign.length
  let whole := rest.takeWhile isDigit
  let rest := rest.dropWhile isDigit
  let point := if rest.head? = some '.'.toUInt8 then rest.take 1 else []
  let rest := rest.drop point.length
  let fraction := if point = [] then [] else rest.takeWhile isDigit
  let rest := rest.drop fraction.length
  let mark := if rest.head? = some 'e'.toUInt8 ∨ rest.head? = some 'E'.toUInt8 then rest.take 1
    else []
  let rest := rest.drop mark.length
  let power := if mark ≠ [] ∧ (rest.head? = some '+'.toUInt8 ∨ rest.head? = some '-'.toUInt8) then
    rest.take 1 else []
  let rest := rest.drop power.length
  let exponent := if mark = [] then [] else rest.takeWhile isDigit
  (sign ++ whole ++ point ++ fraction ++ mark ++ power ++ exponent, rest.drop exponent.length)

section

variable (numbers : NumberText)

def parseNumber (cursor : Cursor) : Except (List UInt8) (JsonValue × Cursor) :=
  let (text, rest) := numberSplit cursor.rest
  let after : Cursor := { at_ := cursor.at_ + text.length, rest := rest }
  if (numbers.read text).isNaN then after.fail (ascii "'" ++ text ++ ascii "' is not a number")
  else .ok (.number (numbers.read text), after)

mutual

def parseValue : Nat → Cursor → Except (List UInt8) (JsonValue × Cursor)
  | 0, cursor => cursor.fail []
  | fuel + 1, cursor =>
      match cursor.rest with
      | [] => cursor.fail (ascii "the text ended where a value was expected")
      | c :: _ =>
          if c = '\x7b'.toUInt8 then parseObject fuel cursor
          else if c = '['.toUInt8 then parseArray fuel cursor
          else if c = '"'.toUInt8 then do
            let (chars, cursor) ← parseString cursor
            return (.string chars, cursor)
          else if c = 't'.toUInt8 then parseWord cursor (ascii "true") (.boolean true)
          else if c = 'f'.toUInt8 then parseWord cursor (ascii "false") (.boolean false)
          else if c = 'n'.toUInt8 then parseWord cursor (ascii "null") .null
          else if c = '\''.toUInt8 then cursor.fail (ascii "JSON strings use double quotes")
          else if c = '-'.toUInt8 || isDigit c then parseNumber numbers cursor
          else cursor.fail (ascii "expected a value, found '" ++ [c] ++ ascii "'")

def parseObject : Nat → Cursor → Except (List UInt8) (JsonValue × Cursor)
  | 0, cursor => cursor.fail []
  | fuel + 1, cursor => do
      let cursor ← skipSpace (cursor.advance 1)
      if cursor.rest.head? = some '\x7d'.toUInt8 then return (.object [], cursor.advance 1)
      else memberLoop fuel cursor []

/-- `out[key] = value` is the put of the ordered map. -/
def memberLoop : Nat → Cursor → List (List UInt8 × JsonValue) →
    Except (List UInt8) (JsonValue × Cursor)
  | 0, cursor, _ => cursor.fail []
  | fuel + 1, cursor, out => do
      let cursor ← skipSpace cursor
      if cursor.rest.head? ≠ some '"'.toUInt8 then
        cursor.fail (ascii "a key must be a quoted string")
      else do
        let (key, cursor) ← parseString cursor
        let cursor ← skipSpace cursor
        if cursor.rest.head? ≠ some ':'.toUInt8 then
          cursor.fail (ascii "expected ':' after a key")
        else do
          let cursor ← skipSpace (cursor.advance 1)
          let (value, cursor) ← parseValue fuel cursor
          let out := OrderedMap.put OrderedMap.equal out key value
          let cursor ← skipSpace cursor
          if cursor.rest.head? = some ','.toUInt8 then do
            let cursor ← skipSpace (cursor.advance 1)
            if cursor.rest.head? = some '\x7d'.toUInt8 then
              cursor.fail (ascii "JSON has no trailing commas")
            else memberLoop fuel cursor out
          else if cursor.rest.head? = some '\x7d'.toUInt8 then
            return (.object out, cursor.advance 1)
          else cursor.fail (ascii "expected ',' or '\x7d' in an object")

def parseArray : Nat → Cursor → Except (List UInt8) (JsonValue × Cursor)
  | 0, cursor => cursor.fail []
  | fuel + 1, cursor => do
      let cursor ← skipSpace (cursor.advance 1)
      if cursor.rest.head? = some ']'.toUInt8 then return (.array [], cursor.advance 1)
      else elementLoop fuel cursor []

def elementLoop : Nat → Cursor → List JsonValue → Except (List UInt8) (JsonValue × Cursor)
  | 0, cursor, _ => cursor.fail []
  | fuel + 1, cursor, out => do
      let cursor ← skipSpace cursor
      let (value, cursor) ← parseValue fuel cursor
      let out := out ++ [value]
      let cursor ← skipSpace cursor
      if cursor.rest.head? = some ','.toUInt8 then do
        let cursor ← skipSpace (cursor.advance 1)
        if cursor.rest.head? = some ']'.toUInt8 then
          cursor.fail (ascii "JSON has no trailing commas")
        else elementLoop fuel cursor out
      else if cursor.rest.head? = some ']'.toUInt8 then return (.array out, cursor.advance 1)
      else cursor.fail (ascii "expected ',' or ']' in an array")

end

/-- At most three calls are made between two bytes read.  What the last `skipSpace`
finds wrong is reported as text after the value. -/
def parse (text : List UInt8) : Except (List UInt8) JsonValue := do
  let cursor ← skipSpace { at_ := 0, rest := text }
  let (value, cursor) ← parseValue numbers (3 * text.length + 3) cursor
  match skipSpace cursor with
  | .ok after =>
      if after.rest = [] then return value
      else after.fail (ascii "unexpected text after the value")
  | .error _ =>
      let left := cursor.rest.dropWhile isSpace
      Cursor.fail { at_ := cursor.at_ + (cursor.rest.length - left.length), rest := left }
        (ascii "unexpected text after the value")

end

end CScript.StdJson
