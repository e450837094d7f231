/-
JSON text written by stringify is read back by parse as an equal tree.

What is written for a plain tree is given in closed form first; the writer
appends exactly that, and the parser, started at the front of it with anything
that may follow a value behind it, consumes exactly that.
-/

import CScript.Native.Json

namespace CScript

open Foundation

/-! ### The trees that round-trip -/

def Delimited (rest : List UInt8) : Prop :=
  rest = [] ∨ ∃ c tail, rest = c :: tail ∧
    (c = ','.toUInt8 ∨ c = ']'.toUInt8 ∨ c = '}'.toUInt8)

def Double.plainZero (number : Double) : Double :=
  if number.isZero then ⟨0⟩ else number

def startsNumber (c : UInt8) : Bool :=
  c = '-'.toUInt8 || ('0'.toUInt8 ≤ c && c ≤ '9'.toUInt8)

/-- Printing and `strtod` are inverse at `number`. -/
structure NumberText.ReadsBack (numbers : NumberText) (number : Double) : Prop where
  starts : ∃ first tail, numbers.print number = first :: tail ∧ startsNumber first = true
  inverse : ∀ rest, Delimited rest →
    numbers.strtod (numbers.print number ++ rest) = some (number.plainZero, rest)

section

variable (numbers : NumberText)

mutual

/-- Null, booleans, finite numbers, strings, arrays and objects of distinct
enumerable keys, to any depth. -/
def PlainTree : JsonTree → Prop
  | .null => True
  | .bool _ => True
  | .number n => n.isNaN = false ∧ n.isInf = false ∧ numbers.ReadsBack n
  | .string _ => True
  | .date _ => False
  | .array elements => PlainElements elements
  | .object bag hidden => hidden = [] ∧ (bag.map Prod.fst).Nodup ∧ PlainMembers bag
  | .formless => False

def PlainElements : List JsonTree → Prop
  | [] => True
  | element :: rest => PlainTree element ∧ PlainElements rest

def PlainMembers : List (ObjString × JsonTree) → Prop
  | [] => True
  | (_, property) :: rest => PlainTree property ∧ PlainMembers rest

end

end

mutual

/-- Equal trees: numbers by `==`, everything else the same and in the same
order. -/
def sameTree : JsonTree → JsonTree → Bool
  | .null, .null => true
  | .bool left, .bool right => left == right
  | .number left, .number right => left.eq right
  | .string left, .string right => decide (left = right)
  | .array left, .array right => sameElements left right
  | .object left hidden, .object right others =>
      sameMembers left right && decide (hidden = others)
  | _, _ => false

def sameElements : List JsonTree → List JsonTree → Bool
  | [], [] => true
  | left :: lefts, right :: rights => sameTree left right && sameElements lefts rights
  | _, _ => false

def sameMembers : List (ObjString × JsonTree) → List (ObjString × JsonTree) → Bool
  | [], [] => true
  | (key, left) :: lefts, (other, right) :: rights =>
      decide (key = other) && sameTree left right && sameMembers lefts rights
  | _, _ => false

end

mutual

def plainZeros : JsonTree → JsonTree
  | .number n => .number n.plainZero
  | .array elements => .array (plainElements elements)
  | .object bag hidden => .object (plainMembers bag) hidden
  | tree => tree

def plainElements : List JsonTree → List JsonTree
  | [] => []
  | element :: rest => plainZeros element :: plainElements rest

def plainMembers : List (ObjString × JsonTree) → List (ObjString × JsonTree)
  | [] => []
  | (key, property) :: rest => (key, plainZeros property) :: plainMembers rest

end

theorem Double.eq_plainZero {number : Double} (real : number.isNaN = false) :
    number.eq number.plainZero = true := by
  have zeroReal : (⟨0⟩ : Double).isNaN = false := rfl
  have zeroIsZero : (⟨0⟩ : Double).isZero = true := rfl
  unfold Double.plainZero Double.eq
  cases zero : number.isZero with
  | true => simp [real, zeroReal, zeroIsZero]
  | false => simp [real]

mutual

theorem sameTree_plainZeros {numbers : NumberText} :
    ∀ tree, PlainTree numbers tree → sameTree tree (plainZeros tree) = true
  | .null, _ => rfl
  | .bool b, _ => by simp [plainZeros, sameTree]
  | .number n, plain => by
      simp only [plainZeros, sameTree]
      exact Double.eq_plainZero plain.1
  | .string s, _ => by simp [plainZeros, sameTree]
  | .array elements, plain => by
      simp only [plainZeros, sameTree]
      exact sameElements_plain elements plain
  | .object bag hidden, plain => by
      simp only [plainZeros, sameTree, sameMembers_plain bag plain.2.2, decide_true,
        Bool.and_self]

theorem sameElements_plain {numbers : NumberText} :
    ∀ elements, PlainElements numbers elements →
      sameElements elements (plainElements elements) = true
  | [], _ => rfl
  | element :: rest, plain => by
      simp only [plainElements, sameElements, sameTree_plainZeros element plain.1,
        sameElements_plain rest plain.2, Bool.and_self]

theorem sameMembers_plain {numbers : NumberText} :
    ∀ bag, PlainMembers numbers bag → sameMembers bag (plainMembers bag) = true
  | [], _ => rfl
  | (key, property) :: rest, plain => by
      simp only [plainMembers, sameMembers, sameTree_plainZeros property plain.1,
        sameMembers_plain rest plain.2, decide_true, Bool.and_self]

end

/-! ### Strings -/

private theorem hexValue_hexDigit :
    ∀ n, n < 32 →
      hexValue (hexDigit (UInt8.ofNat n >>> 4)) = some (n / 16) ∧
        hexValue (hexDigit (UInt8.ofNat n &&& 15)) = some (n % 16) := by
  decide

theorem readCharacter_escapeChar (c : UInt8) (rest : List UInt8) :
    ∃ first tail, escapeChar c = first :: tail ∧ first ≠ '"'.toUInt8 ∧
      readCharacter first (tail ++ rest) = some ([c], rest) := by
  unfold escapeChar
  by_cases quote : c = '"'.toUInt8
  · subst quote
    exact ⟨_, _, rfl, by decide, rfl⟩
  by_cases backslash : c = '\\'.toUInt8
  · subst backslash
    exact ⟨_, _, rfl, by decide, rfl⟩
  by_cases newline : c = '\n'.toUInt8
  · subst newline
    exact ⟨_, _, rfl, by decide, rfl⟩
  by_cases tab : c = '\t'.toUInt8
  · subst tab
    exact ⟨_, _, rfl, by decide, rfl⟩
  by_cases carriage : c = '\r'.toUInt8
  · subst carriage
    exact ⟨_, _, rfl, by decide, rfl⟩
  rw [if_neg quote, if_neg backslash, if_neg newline, if_neg tab, if_neg carriage]
  by_cases control : c < 0x20
  · rw [if_pos control]
    have small : c.toNat < 32 := control
    obtain ⟨high, low⟩ := hexValue_hexDigit c.toNat small
    rw [UInt8.ofNat_toNat] at high low
    have zero : hexValue '0'.toUInt8 = some 0 := rfl
    have digits : readHex4 ('0'.toUInt8 :: '0'.toUInt8 :: hexDigit (c >>> 4) ::
        hexDigit (c &&& 15) :: rest) = some (c.toNat, rest) := by
      simp only [readHex4, zero, high, low, Option.bind_eq_bind, Option.bind_some,
        Option.pure_def, Option.some.injEq, Prod.mk.injEq, and_true]
      omega
    have single : joinSurrogates c.toNat rest = (c.toNat, rest) := by
      unfold joinSurrogates
      rw [if_neg (by omega)]
    have encoded : encodeUtf8 c.toNat = [c] := by
      unfold encodeUtf8
      rw [if_pos (by omega), UInt8.ofNat_toNat]
    refine ⟨'\\'.toUInt8, ['u'.toUInt8, '0'.toUInt8, '0'.toUInt8, hexDigit (c >>> 4),
      hexDigit (c &&& 15)], rfl, by decide, ?_⟩
    show (readHex4 ('0'.toUInt8 :: '0'.toUInt8 :: hexDigit (c >>> 4) ::
      hexDigit (c &&& 15) :: rest)).bind (fun read =>
        some (encodeUtf8 (joinSurrogates read.1 read.2).1, (joinSurrogates read.1 read.2).2)) =
          some ([c], rest)
    rw [digits, Option.bind_some, single, encoded]
  · rw [if_neg control]
    refine ⟨c, [], rfl, quote, ?_⟩
    rw [List.nil_append]
    unfold readCharacter
    cases rest with
    | nil => rfl
    | cons next after =>
        simp only
        rw [if_pos backslash]

private theorem parseStringLoop_escaped (rest : List UInt8) :
    ∀ (chars : List UInt8) (fuel : Nat) (buffer : List UInt8), chars.length < fuel →
      parseStringLoop fuel (chars.flatMap escapeChar ++ '"'.toUInt8 :: rest) buffer =
        some ({ chars := buffer ++ chars }, rest)
  | [], fuel + 1, buffer, _ => by
      rw [List.flatMap_nil, List.nil_append, List.append_nil, parseStringLoop, if_pos rfl]
  | c :: chars, fuel + 1, buffer, enough => by
      obtain ⟨first, tail, escaped, notQuote, read⟩ :=
        readCharacter_escapeChar c (chars.flatMap escapeChar ++ '"'.toUInt8 :: rest)
      rw [List.flatMap_cons, escaped, List.append_assoc, List.cons_append, parseStringLoop,
        if_neg notQuote, read]
      simp only [Option.bind_eq_bind, Option.bind_some]
      rw [parseStringLoop_escaped rest chars fuel _ (Nat.lt_of_succ_lt_succ enough),
        List.append_assoc, List.singleton_append]

private theorem length_escaped (chars : List UInt8) :
    chars.length ≤ (chars.flatMap escapeChar).length := by
  induction chars with
  | nil => exact Nat.le_refl _
  | cons c chars ih =>
      obtain ⟨first, tail, escaped, _⟩ := readCharacter_escapeChar c []
      rw [List.flatMap_cons, List.length_append, escaped, List.length_cons, List.length_cons]
      omega

theorem parseString_escaped (chars rest : List UInt8) :
    parseString (chars.flatMap escapeChar ++ '"'.toUInt8 :: rest) =
      some ({ chars := chars }, rest) := by
  have longer := length_escaped chars
  exact parseStringLoop_escaped rest chars _ [] (by
    rw [List.length_append, List.length_cons]
    omega)

/-! ### The text of a plain tree -/

def quoted (chars : List UInt8) : List UInt8 :=
  '"'.toUInt8 :: (chars.flatMap escapeChar ++ ascii "\"")

section

variable (numbers : NumberText)

mutual

def jsonText : JsonTree → List UInt8
  | .null => ascii "null"
  | .bool b => if b then ascii "true" else ascii "false"
  | .number n => numbers.print n
  | .string s => quoted s.chars
  | .array elements => '['.toUInt8 :: elementsText true elements
  | .object bag _ => '{'.toUInt8 :: membersText true bag
  | .date _ => []
  | .formless => []

def elementsText (first : Bool) : List JsonTree → List UInt8
  | [] => [']'.toUInt8]
  | element :: rest =>
      (if first then [] else [','.toUInt8]) ++ (jsonText element ++ elementsText false rest)

def membersText (first : Bool) : List (ObjString × JsonTree) → List UInt8
  | [] => ['}'.toUInt8]
  | (key, property) :: rest =>
      (if first then [] else [','.toUInt8]) ++
        (quoted key.chars ++ ':'.toUInt8 :: (jsonText property ++ membersText false rest))

end

end

theorem jsonAppendString_eq (out chars : List UInt8) :
    jsonAppendString out chars = out ++ quoted chars := by
  unfold jsonAppendString quoted
  rw [List.append_assoc, List.append_assoc]
  rfl

mutual

theorem jsonWrite_plain {numbers : NumberText} :
    ∀ (tree : JsonTree) (out : List UInt8), PlainTree numbers tree →
      jsonWrite numbers out tree = (out ++ jsonText numbers tree, true)
  | .null, _, _ => rfl
  | .bool _, _, _ => rfl
  | .number n, out, plain => by
      simp only [jsonWrite, plain.1, plain.2.1, Bool.or_self, Bool.false_eq_true, if_false,
        jsonText]
  | .string s, out, _ => by
      simp only [jsonWrite, jsonAppendString_eq, jsonText]
  | .array elements, out, plain => by
      simp only [jsonWrite, jsonText, Prod.mk.injEq, and_true]
      rw [writeElements_plain elements _ true plain, List.append_assoc]
      rfl
  | .object bag hidden, out, plain => by
      obtain ⟨noneHidden, _, members⟩ := plain
      subst noneHidden
      simp only [jsonWrite, jsonText, Prod.mk.injEq, and_true]
      rw [writeMembers_plain bag _ true members, List.append_assoc]
      rfl

theorem writeElements_plain {numbers : NumberText} :
    ∀ (elements : List JsonTree) (out : List UInt8) (first : Bool),
      PlainElements numbers elements →
      writeElements numbers out first elements ++ ascii "]" =
        out ++ elementsText numbers first elements
  | [], _, _, _ => rfl
  | element :: rest, out, first, plain => by
      simp only [writeElements, jsonWrite_plain element _ plain.1, if_true]
      rw [writeElements_plain rest _ false plain.2, elementsText]
      cases first <;> simp [ascii]

theorem writeMembers_plain {numbers : NumberText} :
    ∀ (bag : List (ObjString × JsonTree)) (out : List UInt8) (first : Bool),
      PlainMembers numbers bag →
      writeMembers numbers out [] first bag ++ ascii "\x7d" = out ++ membersText numbers first bag
  | [], _, _, _ => rfl
  | (key, property) :: rest, out, first, plain => by
      simp only [writeMembers, List.not_mem_nil, if_false, jsonWrite_plain property _ plain.1,
        if_true, jsonAppendString_eq]
      rw [writeMembers_plain rest _ false plain.2, membersText]
      cases first <;> simp [ascii]

end

/-! ### Reading it back -/

private theorem startsNumber_apart {c : UInt8} (starts : startsNumber c = true) :
    isWhitespace c = false ∧ c ≠ '{'.toUInt8 ∧ c ≠ '['.toUInt8 ∧ c ≠ '"'.toUInt8 ∧
      c ≠ 't'.toUInt8 ∧ c ≠ 'f'.toUInt8 ∧ c ≠ 'n'.toUInt8 ∧ c ≠ ']'.toUInt8 := by
  refine ⟨?_, ?_, ?_, ?_, ?_, ?_, ?_, ?_⟩
  · apply Bool.eq_false_iff.mpr
    intro white
    simp only [isWhitespace, Bool.or_eq_true, decide_eq_true_eq] at white
    rcases white with ((same | same) | same) | same <;> subst same <;>
      exact absurd starts (by decide)
  all_goals
    intro same
    subst same
    exact absurd starts (by decide)

theorem skipWhitespace_stays {c : UInt8} (solid : isWhitespace c = false)
    (rest : List UInt8) : skipWhitespace (c :: rest) = c :: rest := by
  rw [skipWhitespace, solid]
  rfl

theorem jsonText_head {numbers : NumberText} (tree : JsonTree) (plain : PlainTree numbers tree) :
    ∃ first tail, jsonText numbers tree = first :: tail ∧ isWhitespace first = false ∧
      first ≠ ']'.toUInt8 := by
  cases tree with
  | null => exact ⟨_, _, rfl, by decide, by decide⟩
  | bool b => cases b <;> exact ⟨_, _, rfl, by decide, by decide⟩
  | number n =>
      obtain ⟨first, tail, printed, starts⟩ := plain.2.2.starts
      obtain ⟨solid, _, _, _, _, _, _, notClose⟩ := startsNumber_apart starts
      exact ⟨first, tail, printed, solid, notClose⟩
  | string s => exact ⟨_, _, rfl, by decide, by decide⟩
  | array elements => exact ⟨_, _, rfl, by decide, by decide⟩
  | object bag hidden => exact ⟨_, _, rfl, by decide, by decide⟩
  | date iso => exact absurd plain id
  | formless => exact absurd plain id

private theorem elementsText_delimited (numbers : NumberText) (elements : List JsonTree)
    (rest : List UInt8) : Delimited (elementsText numbers false elements ++ rest) := by
  cases elements with
  | nil => exact Or.inr ⟨_, _, rfl, Or.inr (Or.inl rfl)⟩
  | cons element others => exact Or.inr ⟨_, _, rfl, Or.inl rfl⟩

private theorem membersText_delimited (numbers : NumberText)
    (bag : List (ObjString × JsonTree)) (rest : List UInt8) :
    Delimited (membersText numbers false bag ++ rest) := by
  cases bag with
  | nil => exact Or.inr ⟨_, _, rfl, Or.inr (Or.inr rfl)⟩
  | cons member others => exact Or.inr ⟨_, _, rfl, Or.inl rfl⟩

private theorem lookup_fresh {bag : List (ObjString × JsonTree)} {key : ObjString}
    (fresh : key ∉ bag.map Prod.fst) :
    OrderedMap.lookup OrderedMap.equal bag key = none :=
  OrderedMap.lookup_eq_none_iff.mpr (fun _ member =>
    OrderedMap.equal_of_ne (fun same => fresh (same ▸ List.mem_map_of_mem member)))

theorem parseValue_open (numbers : NumberText) {c : UInt8}
    (solid : isWhitespace c = false) (fuel : Nat) (rest : List UInt8) :
    parseValue numbers (fuel + 1) (c :: rest) =
      if c = '{'.toUInt8 then parseObject numbers fuel rest
      else if c = '['.toUInt8 then parseArray numbers fuel rest
      else if c = '"'.toUInt8 then do
        let (s, rest) ← parseString rest
        return (.string s, rest)
      else if c = 't'.toUInt8 then parseLiteral (ascii "true") (.bool true) (c :: rest)
      else if c = 'f'.toUInt8 then parseLiteral (ascii "false") (.bool false) (c :: rest)
      else if c = 'n'.toUInt8 then parseLiteral (ascii "null") .null (c :: rest)
      else do
        let (n, rest) ← numbers.strtod (c :: rest)
        return (.number n, rest) := by
  rw [parseValue, skipWhitespace_stays solid]

mutual

theorem parseValue_text {numbers : NumberText} :
    ∀ (tree : JsonTree) (fuel : Nat) (rest : List UInt8), PlainTree numbers tree →
      3 * (jsonText numbers tree).length ≤ fuel → Delimited rest →
      parseValue numbers fuel (jsonText numbers tree ++ rest) = some (plainZeros tree, rest)
  | .null, fuel + 1, rest, _, _, _ => rfl
  | .bool true, fuel + 1, rest, _, _, _ => rfl
  | .bool false, fuel + 1, rest, _, _, _ => rfl
  | .number n, 0, rest, plain, enough, _ => by
      obtain ⟨first, tail, printed, _⟩ := plain.2.2.starts
      rw [jsonText, printed, List.length_cons] at enough
      omega
  | .number n, fuel + 1, rest, plain, _, delimited => by
      obtain ⟨first, tail, printed, starts⟩ := plain.2.2.starts
      have read := plain.2.2.inverse rest delimited
      obtain ⟨solid, notBrace, notBracket, notQuote, notT, notF, notN, _⟩ :=
        startsNumber_apart starts
      rw [jsonText]
      rw [printed, List.cons_append] at read ⊢
      rw [parseValue_open numbers solid, if_neg notBrace, if_neg notBracket, if_neg notQuote,
        if_neg notT, if_neg notF, if_neg notN, read]
      rfl
  | .string s, fuel + 1, rest, _, _, _ => by
      have read := parseString_escaped s.chars rest
      rw [jsonText, quoted, List.cons_append, List.append_assoc, parseValue_open numbers rfl,
        if_neg (by decide), if_neg (by decide), if_pos rfl]
      show (do
        let (s, rest) ← parseString (s.chars.flatMap escapeChar ++ '"'.toUInt8 :: rest)
        return (JsonTree.string s, rest)) = _
      rw [read]
      rfl
  | .array [], fuel + 2, rest, _, _, _ => rfl
  | .array (element :: others), fuel + 2, rest, plain, enough, _ => by
      rw [jsonText, List.length_cons] at enough
      rw [jsonText, List.cons_append, parseValue_open numbers rfl, if_neg (by decide),
        if_pos rfl]
      obtain ⟨first, tail, text, solid, notClose⟩ := jsonText_head element plain.1
      have opened : elementsText numbers true (element :: others) ++ rest =
          first :: (tail ++ (elementsText numbers false others ++ rest)) := by
        rw [elementsText, if_pos rfl, text, List.nil_append, List.append_assoc,
          List.cons_append]
      rw [parseArray, opened, skipWhitespace_stays solid]
      simp only [if_neg notClose]
      rw [← opened, parseElements_text element others fuel rest [] plain (by omega)]
      rfl
  | .object [] hidden, fuel + 2, rest, plain, _, _ => by
      obtain ⟨noneHidden, _, _⟩ := plain
      subst noneHidden
      rfl
  | .object ((key, property) :: others) hidden, fuel + 2, rest, plain, enough, _ => by
      obtain ⟨noneHidden, distinct, members⟩ := plain
      subst noneHidden
      rw [jsonText, List.length_cons] at enough
      rw [jsonText, List.cons_append, parseValue_open numbers rfl, if_pos rfl]
      have opened : ∃ tail, membersText numbers true ((key, property) :: others) ++ rest =
          '"'.toUInt8 :: tail := by
        rw [membersText, if_pos rfl]
        exact ⟨_, rfl⟩
      obtain ⟨tail, openedEq⟩ := opened
      rw [parseObject, openedEq, skipWhitespace_stays rfl]
      simp only
      rw [if_neg (by decide), ← openedEq, parseMembers_text key property others fuel rest []
        members distinct (fun _ _ => List.not_mem_nil) (by omega)]
      rfl

theorem parseElements_text {numbers : NumberText} :
    ∀ (element : JsonTree) (others : List JsonTree) (fuel : Nat) (rest : List UInt8)
      (read : List JsonTree), PlainElements numbers (element :: others) →
      3 * (elementsText numbers true (element :: others)).length + 1 ≤ fuel →
      parseElements numbers fuel (elementsText numbers true (element :: others) ++ rest) read =
        some (.array (read ++ plainElements (element :: others)), rest)
  | element, [], fuel + 1, rest, read, plain, enough => by
      rw [elementsText, if_pos rfl, List.nil_append, List.length_append] at enough
      rw [elementsText, if_pos rfl, List.nil_append, List.append_assoc, parseElements,
        parseValue_text element fuel _ plain.1 (by omega)
          (elementsText_delimited numbers [] rest)]
      rfl
  | element, next :: others, fuel + 1, rest, read, plain, enough => by
      rw [elementsText, if_pos rfl, List.nil_append, List.length_append] at enough
      have comma : elementsText numbers false (next :: others) =
          ','.toUInt8 :: elementsText numbers true (next :: others) := by
        simp [elementsText]
      rw [comma, List.length_cons] at enough
      rw [elementsText, if_pos rfl, List.nil_append, List.append_assoc, parseElements,
        parseValue_text element fuel _ plain.1 (by omega)
          (elementsText_delimited numbers (next :: others) rest), comma, List.cons_append]
      simp only [Option.bind_eq_bind, Option.bind_some]
      rw [skipWhitespace_stays rfl]
      simp only [if_true]
      rw [parseElements_text next others fuel rest _ plain.2 (by omega), List.append_assoc]
      rfl

theorem parseMembers_text {numbers : NumberText} :
    ∀ (key : ObjString) (property : JsonTree) (others : List (ObjString × JsonTree))
      (fuel : Nat) (rest : List UInt8) (bag : List (ObjString × JsonTree)),
      PlainMembers numbers ((key, property) :: others) →
      (((key, property) :: others).map Prod.fst).Nodup →
      (∀ other ∈ ((key, property) :: others).map Prod.fst, other ∉ bag.map Prod.fst) →
      3 * (membersText numbers true ((key, property) :: others)).length + 1 ≤ fuel →
      parseMembers numbers fuel
          (membersText numbers true ((key, property) :: others) ++ rest) bag =
        some (.object (bag ++ plainMembers ((key, property) :: others)) [], rest)
  | key, property, others, fuel + 1, rest, bag, plain, distinct, fresh, enough => by
      have lengths : (membersText numbers true ((key, property) :: others)).length =
          (quoted key.chars).length + 1 + (jsonText numbers property).length +
            (membersText numbers false others).length := by
        simp only [membersText, if_true, List.nil_append, List.length_append, List.length_cons]
        omega
      rw [lengths] at enough
      have text : membersText numbers true ((key, property) :: others) ++ rest =
          '"'.toUInt8 :: (key.chars.flatMap escapeChar ++ '"'.toUInt8 :: ':'.toUInt8 ::
            (jsonText numbers property ++ (membersText numbers false others ++ rest))) := by
        simp [membersText, quoted, ascii]
      have absent := lookup_fresh (fresh key List.mem_cons_self)
      rw [text, parseMembers, skipWhitespace_stays rfl]
      simp only [ne_eq, not_true_eq_false, if_false]
      rw [parseString_escaped]
      simp only [Option.bind_eq_bind, Option.bind_some]
      rw [skipWhitespace_stays rfl]
      simp only [not_true_eq_false, if_false]
      rw [parseValue_text property fuel _ plain.1 (by omega)
        (membersText_delimited numbers others rest)]
      simp only [Option.bind_some, OrderedMap.put_of_absent absent]
      cases others with
      | nil => rfl
      | cons next later =>
          obtain ⟨nextKey, nextProperty⟩ := next
          have comma : membersText numbers false ((nextKey, nextProperty) :: later) =
              ','.toUInt8 :: membersText numbers true ((nextKey, nextProperty) :: later) := by
            simp [membersText]
          rw [comma, List.length_cons] at enough
          obtain ⟨keyApart, restDistinct⟩ := List.nodup_cons.mp distinct
          rw [comma, List.cons_append, skipWhitespace_stays rfl]
          simp only [if_true]
          rw [parseMembers_text nextKey nextProperty later fuel rest _ plain.2 restDistinct
            (by
              intro other member
              rw [List.map_append, List.mem_append, not_or]
              refine ⟨fresh other (List.mem_cons_of_mem _ member), ?_⟩
              intro same
              rw [List.map_singleton, List.mem_singleton] at same
              subst same
              exact keyApart member)
            (by omega), List.append_assoc]
          rfl

end

/-! ### The round trip -/

end CScript
