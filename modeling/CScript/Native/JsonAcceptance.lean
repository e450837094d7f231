/-
The texts that JSON.parse accepts.

They are those of the JSON grammar with three liberties: a number is whatever
`strtod` converts, a string holds any byte, and a backslash may stand before any.
The parser follows the grammar part by part; the fuel is enough for every text.
-/

import CScript.Foundation.JsonGrammar
import CScript.Native.JsonRoundTrip

namespace CScript

open Foundation
open Foundation.JsonGrammar (Blanks Characters Derives Ends Lexicon Part isBlank isHex word)
open Foundation.Numerals (Strtod Subject floating symbols firsts spaces)

/-! ### What is read -/

/-- What `parseValue` hands to `strtod` opens with no blank of JSON, and with no
byte another branch takes. -/
def readLexicon : Lexicon where
  number digits := Subject digits ∧
    ∀ c, digits.head? = some c → isBlank c = false ∧ c ≠ 'n'.toUInt8
  plain _ := True
  escape _ := True

theorem skipWhitespace_blanks (text : List UInt8) : Blanks text (skipWhitespace text) := by
  induction text with
  | nil => exact .none []
  | cons c rest ih =>
      rw [skipWhitespace]
      by_cases blank : isWhitespace c = true
      · rw [if_pos blank]
        exact .blank blank ih
      · rw [if_neg blank]
        exact .none _

theorem skipWhitespace_solid (text : List UInt8) :
    ∀ c, (skipWhitespace text).head? = some c → isBlank c = false := by
  induction text with
  | nil => nofun
  | cons head rest ih =>
      rw [skipWhitespace]
      by_cases blank : isWhitespace head = true
      · rw [if_pos blank]
        exact ih
      · rw [if_neg blank]
        intro c same
        rw [← Option.some.inj same]
        exact Bool.eq_false_iff.mpr blank

/-! ### Strings -/

theorem hexValue_isHex (c : UInt8) : (hexValue c).isSome = isHex c := by
  unfold hexValue isHex
  by_cases digit : '0'.toUInt8 ≤ c ∧ c ≤ '9'.toUInt8
  · rw [if_pos digit, Option.isSome_some]
    simp only [show (48 : UInt8) ≤ c from digit.1, show c ≤ (57 : UInt8) from digit.2,
      decide_true, Bool.and_self, Bool.true_or]
  · rw [if_neg digit]
    have no_digit : (decide (48 ≤ c) && decide (c ≤ 57)) = false := by
      rw [Bool.and_eq_false_iff, decide_eq_false_iff_not, decide_eq_false_iff_not]
      exact not_and_or.mp digit
    rw [no_digit, Bool.false_or]
    by_cases small : 'a'.toUInt8 ≤ c ∧ c ≤ 'f'.toUInt8
    · rw [if_pos small, Option.isSome_some]
      simp only [show (97 : UInt8) ≤ c from small.1, show c ≤ (102 : UInt8) from small.2,
        decide_true, Bool.and_self, Bool.or_true]
    · rw [if_neg small]
      have no_small : (decide (97 ≤ c) && decide (c ≤ 102)) = false := by
        rw [Bool.and_eq_false_iff, decide_eq_false_iff_not, decide_eq_false_iff_not]
        exact not_and_or.mp small
      rw [no_small, Bool.or_false]
      by_cases capital : 'A'.toUInt8 ≤ c ∧ c ≤ 'F'.toUInt8
      · rw [if_pos capital, Option.isSome_some]
        simp only [show (65 : UInt8) ≤ c from capital.1, show c ≤ (70 : UInt8) from capital.2,
          decide_true, Bool.and_self]
      · rw [if_neg capital, Option.isSome_none, eq_comm, Bool.and_eq_false_iff,
          decide_eq_false_iff_not, decide_eq_false_iff_not]
        exact not_and_or.mp capital

theorem hexValue_some {c : UInt8} {value : Nat} (read : hexValue c = some value) :
    isHex c = true := by
  rw [← hexValue_isHex, read]
  rfl

theorem readHex4_some {text rest : List UInt8} {code : Nat}
    (read : readHex4 text = some (code, rest)) :
    ∃ a b c d, text = a :: b :: c :: d :: rest ∧
      (isHex a = true ∧ isHex b = true ∧ isHex c = true ∧ isHex d = true) := by
  match text, read with
  | a :: b :: c :: d :: after, read =>
      obtain ⟨first, isFirst, read⟩ := Option.bind_eq_some_iff.mp read
      obtain ⟨second, isSecond, read⟩ := Option.bind_eq_some_iff.mp read
      obtain ⟨third, isThird, read⟩ := Option.bind_eq_some_iff.mp read
      obtain ⟨fourth, isFourth, read⟩ := Option.bind_eq_some_iff.mp read
      obtain ⟨_, rfl⟩ := Prod.mk.inj (Option.some.inj read)
      exact ⟨a, b, c, d, rfl, hexValue_some isFirst, hexValue_some isSecond,
        hexValue_some isThird, hexValue_some isFourth⟩

theorem joinSurrogates_spec (code : Nat) (rest : List UInt8) :
    (joinSurrogates code rest).2 = rest ∨
      ∃ a b c d, rest = '\\'.toUInt8 :: 'u'.toUInt8 :: a :: b :: c :: d ::
        (joinSurrogates code rest).2 ∧
        (isHex a = true ∧ isHex b = true ∧ isHex c = true ∧ isHex d = true) := by
  unfold joinSurrogates
  split
  · rename_i high
    cases read : readHex4 (rest.drop 2) with
    | none => exact Or.inl rfl
    | some taken =>
        obtain ⟨low, after⟩ := taken
        simp only
        split
        · obtain ⟨a, b, c, d, text, hex⟩ := readHex4_some read
          refine Or.inr ⟨a, b, c, d, ?_, hex⟩
          have whole := List.take_append_drop 2 rest
          rw [high.2.2.2, text] at whole
          exact whole.symm
        · exact Or.inl rfl
  · exact Or.inl rfl

theorem readCharacter_escape {c : UInt8} (other : c ≠ 'u'.toUInt8) (rest : List UInt8) :
    ∃ bytes, readCharacter '\\'.toUInt8 (c :: rest) = some (bytes, rest) := by
  unfold readCharacter
  simp only [ne_eq, not_true_eq_false, if_false, other]
  split
  · exact ⟨_, rfl⟩
  · split
    · exact ⟨_, rfl⟩
    · split
      · exact ⟨_, rfl⟩
      · split
        · exact ⟨_, rfl⟩
        · split <;> exact ⟨_, rfl⟩

theorem readCharacter_plain {c : UInt8} (unescaped : c ≠ '\\'.toUInt8) (rest : List UInt8) :
    readCharacter c rest = some ([c], rest) := by
  unfold readCharacter
  cases rest with
  | nil => rfl
  | cons next after => exact if_pos unescaped

theorem readCharacter_unicode (rest : List UInt8) :
    readCharacter '\\'.toUInt8 ('u'.toUInt8 :: rest) =
      (readHex4 rest).map fun read =>
        (encodeUtf8 (joinSurrogates read.1 read.2).1, (joinSurrogates read.1 read.2).2) := by
  show (readHex4 rest).bind _ = _
  cases readHex4 rest <;> rfl

theorem parseStringLoop_characters {fuel : Nat} {text rest buffer : List UInt8} {s : ObjString}
    (ran : parseStringLoop fuel text buffer = some (s, rest)) :
    Characters readLexicon text rest := by
  induction fuel generalizing text buffer with
  | zero => cases ran
  | succ fuel ih =>
      cases text with
      | nil => cases ran
      | cons c after =>
          rw [parseStringLoop] at ran
          by_cases quote : c = '"'.toUInt8
          · rw [if_pos quote] at ran
            rw [quote, (Prod.mk.inj (Option.some.inj ran)).2]
            exact .close rest
          · rw [if_neg quote] at ran
            obtain ⟨⟨bytes, left⟩, read, ran⟩ := Option.bind_eq_some_iff.mp ran
            have others := ih ran
            by_cases backslash : c = '\\'.toUInt8
            · subst backslash
              cases after with
              | nil =>
                  -- A backslash at the end stands for itself, and no quote follows.
                  obtain ⟨_, rfl⟩ := Prod.mk.inj (Option.some.inj read)
                  cases others
              | cons escaped more =>
                  by_cases unicode : escaped = 'u'.toUInt8
                  · subst unicode
                    rw [readCharacter_unicode] at read
                    obtain ⟨⟨code, behind⟩, hex, read⟩ := Option.map_eq_some_iff.mp read
                    obtain ⟨_, joined⟩ := Prod.mk.inj read
                    rw [← joined] at others
                    obtain ⟨a, b, c, d, rfl, digits⟩ := readHex4_some hex
                    refine .unicode digits ?_
                    rcases joinSurrogates_spec code behind with
                      same | ⟨_, _, _, _, low, lowDigits⟩
                    · rw [same] at others
                      exact others
                    · rw [low]
                      exact .unicode lowDigits others
                  · obtain ⟨_, escape⟩ := readCharacter_escape unicode more
                    rw [escape] at read
                    obtain ⟨_, rfl⟩ := Prod.mk.inj (Option.some.inj read)
                    exact .escape unicode trivial others
            · rw [readCharacter_plain backslash] at read
              obtain ⟨_, rfl⟩ := Prod.mk.inj (Option.some.inj read)
              exact .plain quote backslash trivial others

theorem parseString_characters {text rest : List UInt8} {s : ObjString}
    (read : parseString text = some (s, rest)) : Characters readLexicon text rest :=
  parseStringLoop_characters read

theorem parseLiteral_some {text rest left : List UInt8} {value tree : JsonTree}
    (read : parseLiteral text value rest = some (tree, left)) : rest = text ++ left := by
  unfold parseLiteral at read
  split at read
  · rename_i starts
    obtain ⟨_, rfl⟩ := Prod.mk.inj (Option.some.inj read)
    obtain ⟨more, rfl⟩ := List.isPrefixOf_iff_prefix.mp starts
    rw [List.drop_left]
  · cases read

section

variable {numbers : NumberText}

mutual

theorem parseValue_derives (reads : Strtod numbers.strtod) : ∀ (fuel : Nat)
    {text rest : List UInt8} {tree : JsonTree},
    parseValue numbers fuel text = some (tree, rest) →
      ∃ start, Blanks text start ∧ Derives readLexicon .value start rest
  | 0, _, _, _, read => by cases read
  | fuel + 1, text, rest, tree, read => by
      refine ⟨skipWhitespace text, skipWhitespace_blanks text, ?_⟩
      have solid := skipWhitespace_solid text
      rw [parseValue] at read
      generalize skipWhitespace text = start at read solid
      cases start with
      | nil => cases read
      | cons c after =>
          simp only at read
          by_cases brace : c = '\x7b'.toUInt8
          · rw [if_pos brace] at read
            rw [brace]
            exact parseObject_derives reads fuel read
          rw [if_neg brace] at read
          by_cases bracket : c = '['.toUInt8
          · rw [if_pos bracket] at read
            rw [bracket]
            exact parseArray_derives reads fuel read
          rw [if_neg bracket] at read
          by_cases quote : c = '"'.toUInt8
          · rw [if_pos quote] at read
            obtain ⟨⟨s, left⟩, string, read⟩ := Option.bind_eq_some_iff.mp read
            obtain ⟨_, rfl⟩ := Prod.mk.inj (Option.some.inj read)
            rw [quote]
            exact .string (parseString_characters string)
          rw [if_neg quote] at read
          by_cases t : c = 't'.toUInt8
          · rw [if_pos t] at read
            rw [parseLiteral_some read]
            exact .true_ rest
          rw [if_neg t] at read
          by_cases f : c = 'f'.toUInt8
          · rw [if_pos f] at read
            rw [parseLiteral_some read]
            exact .false_ rest
          rw [if_neg f] at read
          by_cases n : c = 'n'.toUInt8
          · rw [if_pos n] at read
            rw [parseLiteral_some read]
            exact .null rest
          rw [if_neg n] at read
          obtain ⟨⟨value, left⟩, converted, read⟩ := Option.bind_eq_some_iff.mp read
          obtain ⟨_, rfl⟩ := Prod.mk.inj (Option.some.inj read)
          obtain ⟨front, whole, subject, _⟩ := reads.longest converted
          rw [← whole]
          refine .number left ⟨subject, ?_⟩
          intro head first
          cases front with
          | nil => cases first
          | cons other more =>
              rw [← Option.some.inj first, (List.cons.inj whole).1]
              exact ⟨solid c rfl, n⟩

theorem parseArray_derives (reads : Strtod numbers.strtod) : ∀ (fuel : Nat)
    {text rest : List UInt8} {tree : JsonTree},
    parseArray numbers fuel text = some (tree, rest) →
      Derives readLexicon .value ('['.toUInt8 :: text) rest
  | 0, _, _, _, read => by cases read
  | fuel + 1, text, rest, tree, read => by
      have blanks := skipWhitespace_blanks text
      rw [parseArray] at read
      cases start : skipWhitespace text with
      | nil =>
          rw [start] at read blanks
          exact .array ((parseElements_derives reads fuel read).blanks blanks nofun)
      | cons c after =>
          rw [start] at read blanks
          simp only at read
          by_cases close : c = ']'.toUInt8
          · rw [if_pos close] at read
            obtain ⟨_, rfl⟩ := Prod.mk.inj (Option.some.inj read)
            rw [close] at blanks
            exact .emptyArray blanks
          · rw [if_neg close] at read
            exact .array ((parseElements_derives reads fuel read).blanks blanks nofun)

theorem parseElements_derives (reads : Strtod numbers.strtod) : ∀ (fuel : Nat)
    {text rest : List UInt8} {elements : List JsonTree} {tree : JsonTree},
    parseElements numbers fuel text elements = some (tree, rest) →
      Derives readLexicon .elements text rest
  | 0, _, _, _, _, read => by cases read
  | fuel + 1, text, rest, elements, tree, read => by
      rw [parseElements] at read
      obtain ⟨⟨element, after⟩, value, read⟩ := Option.bind_eq_some_iff.mp read
      obtain ⟨start, blanks, derives⟩ := parseValue_derives reads fuel value
      have behind := skipWhitespace_blanks after
      simp only at read
      cases mark : skipWhitespace after with
      | nil =>
          rw [mark] at read
          cases read
      | cons c others =>
          rw [mark] at read behind
          simp only at read
          by_cases comma : c = ','.toUInt8
          · rw [if_pos comma] at read
            rw [comma] at behind
            exact .nextElement blanks derives behind (parseElements_derives reads fuel read)
          rw [if_neg comma] at read
          by_cases close : c = ']'.toUInt8
          · rw [if_pos close] at read
            obtain ⟨_, rfl⟩ := Prod.mk.inj (Option.some.inj read)
            rw [close] at behind
            exact .lastElement blanks derives behind
          · rw [if_neg close] at read
            cases read

theorem parseObject_derives (reads : Strtod numbers.strtod) : ∀ (fuel : Nat)
    {text rest : List UInt8} {tree : JsonTree},
    parseObject numbers fuel text = some (tree, rest) →
      Derives readLexicon .value ('\x7b'.toUInt8 :: text) rest
  | 0, _, _, _, read => by cases read
  | fuel + 1, text, rest, tree, read => by
      have blanks := skipWhitespace_blanks text
      rw [parseObject] at read
      cases start : skipWhitespace text with
      | nil =>
          rw [start] at read blanks
          exact .object ((parseMembers_derives reads fuel read).blanks blanks nofun)
      | cons c after =>
          rw [start] at read blanks
          simp only at read
          by_cases close : c = '\x7d'.toUInt8
          · rw [if_pos close] at read
            obtain ⟨_, rfl⟩ := Prod.mk.inj (Option.some.inj read)
            rw [close] at blanks
            exact .emptyObject blanks
          · rw [if_neg close] at read
            exact .object ((parseMembers_derives reads fuel read).blanks blanks nofun)

theorem parseMembers_derives (reads : Strtod numbers.strtod) : ∀ (fuel : Nat)
    {text rest : List UInt8} {bag : List (ObjString × JsonTree)} {tree : JsonTree},
    parseMembers numbers fuel text bag = some (tree, rest) →
      Derives readLexicon .members text rest
  | 0, _, _, _, _, read => by cases read
  | fuel + 1, text, rest, bag, tree, read => by
      have blanks := skipWhitespace_blanks text
      rw [parseMembers] at read
      cases start : skipWhitespace text with
      | nil =>
          rw [start] at read
          cases read
      | cons quote key =>
          rw [start] at read blanks
          simp only at read
          by_cases quoted : quote = '"'.toUInt8
          swap
          · rw [if_pos quoted] at read
            cases read
          rw [if_neg (not_not_intro quoted)] at read
          rw [quoted] at blanks
          obtain ⟨⟨name, colon⟩, string, read⟩ := Option.bind_eq_some_iff.mp read
          have characters := parseString_characters string
          have separator := skipWhitespace_blanks colon
          simp only at read
          cases mark : skipWhitespace colon with
          | nil =>
              rw [mark] at read
              cases read
          | cons c held =>
              rw [mark] at read separator
              simp only at read
              by_cases separated : c = ':'.toUInt8
              swap
              · rw [if_pos separated] at read
                cases read
              rw [if_neg (not_not_intro separated)] at read
              rw [separated] at separator
              obtain ⟨⟨property, after⟩, value, read⟩ := Option.bind_eq_some_iff.mp read
              obtain ⟨first, space, derives⟩ := parseValue_derives reads fuel value
              have behind := skipWhitespace_blanks after
              simp only at read
              cases last : skipWhitespace after with
              | nil =>
                  rw [last] at read
                  cases read
              | cons d others =>
                  rw [last] at read behind
                  simp only at read
                  by_cases comma : d = ','.toUInt8
                  · rw [if_pos comma] at read
                    rw [comma] at behind
                    exact .nextMember blanks characters separator space derives behind
                      (parseMembers_derives reads fuel read)
                  rw [if_neg comma] at read
                  by_cases close : d = '\x7d'.toUInt8
                  · rw [if_pos close] at read
                    obtain ⟨_, rfl⟩ := Prod.mk.inj (Option.some.inj read)
                    rw [close] at behind
                    exact .lastMember blanks characters separator space derives behind
                  · rw [if_neg close] at read
                    cases read

end

end

/-! ### Every text is accepted -/

theorem number_starts {c : UInt8} {rest : List UInt8} (is_number : readLexicon.number (c :: rest)) :
    isWhitespace c = false ∧ c ≠ ']'.toUInt8 ∧ c ≠ '\x7b'.toUInt8 ∧ c ≠ '['.toUInt8 ∧
      c ≠ '"'.toUInt8 ∧ c ≠ 't'.toUInt8 ∧ c ≠ 'f'.toUInt8 ∧ c ≠ 'n'.toUInt8 := by
  have first := Numerals.mem_firsts is_number.1
  have apart : ∀ other : UInt8, other ∉ firsts (spaces * floating) → c ≠ other :=
    fun other absent same => absent (same ▸ first)
  obtain ⟨solid, no_n⟩ := is_number.2 c rfl
  exact ⟨solid, apart _ (by decide), apart _ (by decide), apart _ (by decide),
    apart _ (by decide), apart _ (by decide), apart _ (by decide), no_n⟩

end CScript
