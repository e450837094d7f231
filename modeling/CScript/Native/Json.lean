/-
JSON.stringify and JSON.parse over bytes.

A value is taken as the tree a walk over it sees: an array is the list of its
elements, an object the ordered map its bag holds together with the keys that
are not enumerable.  The parser's cursor is the bytes that are left.
-/

import CScript.Foundation.OrderedMap
import CScript.Runtime.Value

namespace CScript

open Foundation

inductive JsonTree where
  | null
  | bool (b : Bool)
  | number (n : Double)
  | string (s : ObjString)
  /-- With its ISO text, unless the date is invalid. -/
  | date (iso : Option (List UInt8))
  | array (elements : List JsonTree)
  | object (bag : List (ObjString × JsonTree)) (hidden : List ObjString)
  /-- Undefined, a function, or anything else without a JSON form. -/
  | formless

/-- `csValueToCString` on a number and `strtod`.  The latter answers the number
and what it left, or nothing when it read nothing. -/
structure NumberText where
  print : Double → List UInt8
  strtod : List UInt8 → Option (Double × List UInt8)

/-! ### Writing -/

def hexDigit (nibble : UInt8) : UInt8 :=
  if nibble < 10 then '0'.toUInt8 + nibble else 'a'.toUInt8 + (nibble - 10)

/-- `\u%04x` of a byte. -/
def hexEscape (c : UInt8) : List UInt8 :=
  ascii "\\u00" ++ [hexDigit (c >>> 4), hexDigit (c &&& 15)]

def escapeChar (c : UInt8) : List UInt8 :=
  if c = '"'.toUInt8 then ascii "\\\""
  else if c = '\\'.toUInt8 then ascii "\\\\"
  else if c = '\n'.toUInt8 then ascii "\\n"
  else if c = '\t'.toUInt8 then ascii "\\t"
  else if c = '\r'.toUInt8 then ascii "\\r"
  else if c < 0x20 then hexEscape c
  else [c]

def jsonAppendString (out chars : List UInt8) : List UInt8 :=
  out ++ ascii "\"" ++ chars.flatMap escapeChar ++ ascii "\""

section

variable (numbers : NumberText)

mutual

def jsonWrite (out : List UInt8) : JsonTree → List UInt8 × Bool
  | .null => (out ++ ascii "null", true)
  | .bool b => (out ++ (if b then ascii "true" else ascii "false"), true)
  | .number n =>
      if n.isNaN || n.isInf then (out ++ ascii "null", true)
      else (out ++ numbers.print n, true)
  | .string s => (jsonAppendString out s.chars, true)
  | .date none => (out, false)
  | .date (some iso) => (jsonAppendString out iso, true)
  | .array elements => (writeElements (out ++ ascii "[") true elements ++ ascii "]", true)
  | .object bag hidden =>
      (writeMembers (out ++ ascii "\x7b") hidden true bag ++ ascii "\x7d", true)
  | .formless => (out, false)

def writeElements (out : List UInt8) (first : Bool) : List JsonTree → List UInt8
  | [] => out
  | element :: rest =>
      let out := if first then out else out ++ ascii ","
      let (out, writable) := jsonWrite out element
      -- An element with no JSON form becomes null rather than vanishing.
      let out := if writable then out else out ++ ascii "null"
      writeElements out false rest

def writeMembers (out : List UInt8) (hidden : List ObjString) (first : Bool) :
    List (ObjString × JsonTree) → List UInt8
  | [] => out
  | (key, property) :: rest =>
      if key ∈ hidden then writeMembers out hidden first rest
      -- A probe into a buffer of its own decides whether the member appears.
      else if (jsonWrite [] property).2 then
        let out := if first then out else out ++ ascii ","
        let out := jsonAppendString out key.chars ++ ascii ":"
        writeMembers (jsonWrite out property).1 hidden false rest
      else writeMembers out hidden first rest

end

/-- `none` is undefined, for a value with no JSON form. -/
def jsonStringify (value : JsonTree) : Option (List UInt8) :=
  let (out, writable) := jsonWrite numbers [] value
  if writable then some out else none

/-! ### Reading -/

def isWhitespace (c : UInt8) : Bool :=
  c = ' '.toUInt8 || c = '\t'.toUInt8 || c = '\n'.toUInt8 || c = '\r'.toUInt8

def skipWhitespace : List UInt8 → List UInt8
  | [] => []
  | c :: rest => if isWhitespace c then skipWhitespace rest else c :: rest

def parseLiteral (text : List UInt8) (value : JsonTree) (rest : List UInt8) :
    Option (JsonTree × List UInt8) :=
  if text.isPrefixOf rest then some (value, rest.drop text.length) else none

def hexValue (digit : UInt8) : Option Nat :=
  if '0'.toUInt8 ≤ digit ∧ digit ≤ '9'.toUInt8 then some (digit - '0'.toUInt8).toNat
  else if 'a'.toUInt8 ≤ digit ∧ digit ≤ 'f'.toUInt8 then some ((digit - 'a'.toUInt8).toNat + 10)
  else if 'A'.toUInt8 ≤ digit ∧ digit ≤ 'F'.toUInt8 then some ((digit - 'A'.toUInt8).toNat + 10)
  else none

def readHex4 : List UInt8 → Option (Nat × List UInt8)
  | a :: b :: c :: d :: rest => do
      let a ← hexValue a
      let b ← hexValue b
      let c ← hexValue c
      let d ← hexValue d
      return (((a * 16 + b) * 16 + c) * 16 + d, rest)
  | _ => none

def encodeUtf8 (code : Nat) : List UInt8 :=
  let trail (shift : Nat) : UInt8 := UInt8.ofNat (0x80 ||| ((code >>> shift) &&& 0x3f))
  if code < 0x80 then [UInt8.ofNat code]
  else if code < 0x800 then [UInt8.ofNat (0xc0 ||| (code >>> 6)), trail 0]
  else if code < 0x10000 then [UInt8.ofNat (0xe0 ||| (code >>> 12)), trail 6, trail 0]
  else [UInt8.ofNat (0xf0 ||| (code >>> 18)), trail 12, trail 6, trail 0]

def joinSurrogates (code : Nat) (rest : List UInt8) : Nat × List UInt8 :=
  if 0xd800 ≤ code ∧ code ≤ 0xdbff ∧ 6 ≤ rest.length ∧ rest.take 2 = ascii "\\u" then
    match readHex4 (rest.drop 2) with
    | some (low, after) =>
        if 0xdc00 ≤ low ∧ low ≤ 0xdfff then
          (0x10000 + (code - 0xd800) * 0x400 + (low - 0xdc00), after)
        else (code, rest)
    | none => (code, rest)
  else (code, rest)

def readCharacter (c : UInt8) (rest : List UInt8) : Option (List UInt8 × List UInt8) :=
  match rest with
  | [] => some ([c], [])
  | escaped :: after =>
      if c ≠ '\\'.toUInt8 then some ([c], rest)
      else if escaped = 'n'.toUInt8 then some (['\n'.toUInt8], after)
      else if escaped = 't'.toUInt8 then some (['\t'.toUInt8], after)
      else if escaped = 'r'.toUInt8 then some (['\r'.toUInt8], after)
      else if escaped = 'b'.toUInt8 then some ([8], after)
      else if escaped = 'f'.toUInt8 then some ([12], after)
      else if escaped = 'u'.toUInt8 then do
        let (code, after) ← readHex4 after
        let (code, after) := joinSurrogates code after
        return (encodeUtf8 code, after)
      -- A quote, a backslash and a slash stand for themselves, as does the rest.
      else some ([escaped], after)

/-- The loop of `parseString`; every round reads a byte. -/
def parseStringLoop : Nat → List UInt8 → List UInt8 → Option (ObjString × List UInt8)
  | 0, _, _ => none
  | _ + 1, [], _ => none
  | fuel + 1, c :: rest, buffer =>
      if c = '"'.toUInt8 then some ({ chars := buffer }, rest)
      else do
        let (pending, rest) ← readCharacter c rest
        parseStringLoop fuel rest (buffer ++ pending)

def parseString (text : List UInt8) : Option (ObjString × List UInt8) :=
  parseStringLoop (text.length + 1) text []

mutual

def parseValue : Nat → List UInt8 → Option (JsonTree × List UInt8)
  | 0, _ => none
  | fuel + 1, text =>
      match skipWhitespace text with
      | [] => none
      | c :: rest =>
          if c = '{'.toUInt8 then parseObject fuel rest
          else if c = '['.toUInt8 then parseArray fuel rest
          else if c = '"'.toUInt8 then do
            let (s, rest) ← parseString rest
            return (.string s, rest)
          else if c = 't'.toUInt8 then parseLiteral (ascii "true") (.bool true) (c :: rest)
          else if c = 'f'.toUInt8 then parseLiteral (ascii "false") (.bool false) (c :: rest)
          else if c = 'n'.toUInt8 then parseLiteral (ascii "null") .null (c :: rest)
          else do
            let (n, rest) ← numbers.strtod (c :: rest)
            return (.number n, rest)

def parseArray : Nat → List UInt8 → Option (JsonTree × List UInt8)
  | 0, _ => none
  | fuel + 1, text =>
      match skipWhitespace text with
      | [] => parseElements fuel [] []
      | c :: rest =>
          if c = ']'.toUInt8 then some (.array [], rest)
          else parseElements fuel (c :: rest) []

def parseElements : Nat → List UInt8 → List JsonTree → Option (JsonTree × List UInt8)
  | 0, _, _ => none
  | fuel + 1, text, elements => do
      let (element, rest) ← parseValue fuel text
      match skipWhitespace rest with
      | [] => none
      | c :: rest =>
          if c = ','.toUInt8 then parseElements fuel rest (elements ++ [element])
          else if c = ']'.toUInt8 then return (.array (elements ++ [element]), rest)
          else none

def parseObject : Nat → List UInt8 → Option (JsonTree × List UInt8)
  | 0, _ => none
  | fuel + 1, text =>
      match skipWhitespace text with
      | [] => parseMembers fuel [] []
      | c :: rest =>
          if c = '}'.toUInt8 then some (.object [] [], rest)
          else parseMembers fuel (c :: rest) []

/-- A key, a colon and a value put into the bag, `csObjectPut` being the put of
the ordered map. -/
def parseMembers : Nat → List UInt8 → List (ObjString × JsonTree) →
    Option (JsonTree × List UInt8)
  | 0, _, _ => none
  | fuel + 1, text, bag =>
      match skipWhitespace text with
      | [] => none
      | quote :: rest =>
          if quote ≠ '"'.toUInt8 then none
          else do
            let (key, rest) ← parseString rest
            match skipWhitespace rest with
            | [] => none
            | colon :: rest =>
                if colon ≠ ':'.toUInt8 then none
                else do
                  let (property, rest) ← parseValue fuel rest
                  let bag := OrderedMap.put OrderedMap.equal bag key property
                  match skipWhitespace rest with
                  | [] => none
                  | c :: rest =>
                      if c = ','.toUInt8 then parseMembers fuel rest bag
                      else if c = '}'.toUInt8 then return (.object bag [], rest)
                      else none

end

end

end CScript
