/-
The grammar of a JSON text.

A rule relates a text to what is left behind the part it derives.  Which numbers
there are, and which bytes a string may hold plain or behind a backslash, is left
to a lexicon; `rfc8259` is the one of the standard, over the bytes of a text.
-/

import CScript.Foundation.Numerals

namespace Foundation.JsonGrammar

/-! ### Rules -/

def isBlank (c : UInt8) : Bool :=
  c = 32 || c = 9 || c = 10 || c = 13

def isHex (c : UInt8) : Bool :=
  (48 ≤ c && c ≤ 57) || (65 ≤ c && c ≤ 70) || (97 ≤ c && c ≤ 102)

structure Lexicon where
  number : List UInt8 → Prop
  plain : UInt8 → Prop
  escape : UInt8 → Prop

inductive Blanks : List UInt8 → List UInt8 → Prop where
  | none (text : List UInt8) : Blanks text text
  | blank {c : UInt8} {text rest : List UInt8} (is_blank : isBlank c = true)
      (more : Blanks text rest) : Blanks (c :: text) rest

inductive Characters (lexicon : Lexicon) : List UInt8 → List UInt8 → Prop where
  | close (rest : List UInt8) : Characters lexicon ('"'.toUInt8 :: rest) rest
  | plain {c : UInt8} {text rest : List UInt8} (unquoted : c ≠ '"'.toUInt8)
      (unescaped : c ≠ '\\'.toUInt8) (allowed : lexicon.plain c)
      (more : Characters lexicon text rest) : Characters lexicon (c :: text) rest
  | escape {c : UInt8} {text rest : List UInt8} (other : c ≠ 'u'.toUInt8)
      (allowed : lexicon.escape c) (more : Characters lexicon text rest) :
      Characters lexicon ('\\'.toUInt8 :: c :: text) rest
  | unicode {a b c d : UInt8} {text rest : List UInt8}
      (hex : isHex a = true ∧ isHex b = true ∧ isHex c = true ∧ isHex d = true)
      (more : Characters lexicon text rest) :
      Characters lexicon ('\\'.toUInt8 :: 'u'.toUInt8 :: a :: b :: c :: d :: text) rest

inductive Part where
  | value
  | elements
  | members
  deriving DecidableEq, Repr

def word (text : String) : List UInt8 :=
  text.toList.map Char.toUInt8

inductive Derives (lexicon : Lexicon) : Part → List UInt8 → List UInt8 → Prop where
  | true_ (rest : List UInt8) : Derives lexicon .value (word "true" ++ rest) rest
  | false_ (rest : List UInt8) : Derives lexicon .value (word "false" ++ rest) rest
  | null (rest : List UInt8) : Derives lexicon .value (word "null" ++ rest) rest
  | number {digits : List UInt8} (rest : List UInt8) (is_number : lexicon.number digits) :
      Derives lexicon .value (digits ++ rest) rest
  | string {text rest : List UInt8} (characters : Characters lexicon text rest) :
      Derives lexicon .value ('"'.toUInt8 :: text) rest
  | emptyArray {text rest : List UInt8} (blanks : Blanks text (']'.toUInt8 :: rest)) :
      Derives lexicon .value ('['.toUInt8 :: text) rest
  | array {text rest : List UInt8} (elements : Derives lexicon .elements text rest) :
      Derives lexicon .value ('['.toUInt8 :: text) rest
  | emptyObject {text rest : List UInt8} (blanks : Blanks text ('\x7d'.toUInt8 :: rest)) :
      Derives lexicon .value ('\x7b'.toUInt8 :: text) rest
  | object {text rest : List UInt8} (members : Derives lexicon .members text rest) :
      Derives lexicon .value ('\x7b'.toUInt8 :: text) rest
  | lastElement {text start after rest : List UInt8} (blanks : Blanks text start)
      (element : Derives lexicon .value start after) (close : Blanks after (']'.toUInt8 :: rest)) :
      Derives lexicon .elements text rest
  | nextElement {text start after others rest : List UInt8} (blanks : Blanks text start)
      (element : Derives lexicon .value start after) (comma : Blanks after (','.toUInt8 :: others))
      (more : Derives lexicon .elements others rest) : Derives lexicon .elements text rest
  | lastMember {text key colon held start after rest : List UInt8}
      (blanks : Blanks text ('"'.toUInt8 :: key)) (name : Characters lexicon key colon)
      (separator : Blanks colon (':'.toUInt8 :: held)) (space : Blanks held start)
      (member : Derives lexicon .value start after)
      (close : Blanks after ('\x7d'.toUInt8 :: rest)) : Derives lexicon .members text rest
  | nextMember {text key colon held start after others rest : List UInt8}
      (blanks : Blanks text ('"'.toUInt8 :: key)) (name : Characters lexicon key colon)
      (separator : Blanks colon (':'.toUInt8 :: held)) (space : Blanks held start)
      (member : Derives lexicon .value start after)
      (comma : Blanks after (','.toUInt8 :: others))
      (more : Derives lexicon .members others rest) : Derives lexicon .members text rest

def Text (lexicon : Lexicon) (text : List UInt8) : Prop :=
  ∃ start after, Blanks text start ∧ Derives lexicon .value start after ∧ Blanks after []

def rfc8259 : Lexicon where
  number digits := digits ∈ Numerals.number.matches'
  plain c := 32 ≤ c
  escape c := c ∈ word "\"\\/bfnrt"

/-! ### Lexicons -/

structure Lexicon.Within (lexicon larger : Lexicon) : Prop where
  number : ∀ digits, lexicon.number digits → larger.number digits
  plain : ∀ c, lexicon.plain c → larger.plain c
  escape : ∀ c, lexicon.escape c → larger.escape c

theorem Characters.within {lexicon larger : Lexicon} (within : lexicon.Within larger)
    {text rest : List UInt8} (characters : Characters lexicon text rest) :
    Characters larger text rest := by
  induction characters with
  | close rest => exact .close rest
  | plain unquoted unescaped allowed _ ih =>
      exact .plain unquoted unescaped (within.plain _ allowed) ih
  | escape other allowed _ ih => exact .escape other (within.escape _ allowed) ih
  | unicode hex _ ih => exact .unicode hex ih

theorem Derives.within {lexicon larger : Lexicon} (within : lexicon.Within larger) {part : Part}
    {text rest : List UInt8} (derives : Derives lexicon part text rest) :
    Derives larger part text rest := by
  induction derives with
  | true_ rest => exact .true_ rest
  | false_ rest => exact .false_ rest
  | null rest => exact .null rest
  | number rest is_number => exact .number rest (within.number _ is_number)
  | string characters => exact .string (characters.within within)
  | emptyArray blanks => exact .emptyArray blanks
  | array _ ih => exact .array ih
  | emptyObject blanks => exact .emptyObject blanks
  | object _ ih => exact .object ih
  | lastElement blanks _ close ih => exact .lastElement blanks ih close
  | nextElement blanks _ comma _ ih others => exact .nextElement blanks ih comma others
  | lastMember blanks name separator space _ close ih =>
      exact .lastMember blanks (name.within within) separator space ih close
  | nextMember blanks name separator space _ comma _ ih others =>
      exact .nextMember blanks (name.within within) separator space ih comma others

theorem Text.within {lexicon larger : Lexicon} (within : lexicon.Within larger)
    {text : List UInt8} (is_text : Text lexicon text) : Text larger text := by
  obtain ⟨start, after, before, derives, behind⟩ := is_text
  exact ⟨start, after, before, derives.within within, behind⟩

/-! ### What is left -/

theorem Blanks.trans {text middle rest : List UInt8} (front : Blanks text middle)
    (back : Blanks middle rest) : Blanks text rest := by
  induction front with
  | none => exact back
  | blank is_blank _ ih => exact .blank is_blank (ih back)

theorem Derives.blanks {lexicon : Lexicon} {part : Part} {text start rest : List UInt8}
    (derives : Derives lexicon part start rest) (blanks : Blanks text start)
    (many : part ≠ .value) : Derives lexicon part text rest := by
  cases derives with
  | lastElement front element close => exact .lastElement (blanks.trans front) element close
  | nextElement front element comma more =>
      exact .nextElement (blanks.trans front) element comma more
  | lastMember front name separator space member close =>
      exact .lastMember (blanks.trans front) name separator space member close
  | nextMember front name separator space member comma more =>
      exact .nextMember (blanks.trans front) name separator space member comma more
  | _ => exact absurd rfl many

theorem Blanks.length_le {text rest : List UInt8} (blanks : Blanks text rest) :
    rest.length ≤ text.length := by
  induction blanks with
  | none => exact Nat.le_refl _
  | blank _ _ ih => exact Nat.le_succ_of_le ih

theorem Characters.length_lt {lexicon : Lexicon} {text rest : List UInt8}
    (characters : Characters lexicon text rest) : rest.length < text.length := by
  induction characters with
  | close rest => exact Nat.lt_succ_self _
  | plain _ _ _ _ ih => exact Nat.lt_succ_of_lt ih
  | escape _ _ _ ih => exact Nat.lt_succ_of_lt (Nat.lt_succ_of_lt ih)
  | unicode _ _ ih =>
      simp only [List.length_cons]
      omega

theorem Derives.length_le {lexicon : Lexicon} {part : Part} {text rest : List UInt8}
    (derives : Derives lexicon part text rest) : rest.length ≤ text.length := by
  induction derives with
  | true_ rest | false_ rest | null rest | number rest _ =>
      rw [List.length_append]
      omega
  | string characters => exact Nat.le_succ_of_le (Nat.le_of_lt characters.length_lt)
  | emptyArray blanks | emptyObject blanks =>
      have shorter := blanks.length_le
      simp only [List.length_cons] at shorter ⊢
      omega
  | array _ ih | object _ ih => exact Nat.le_succ_of_le ih
  | lastElement blanks _ close ih =>
      have first := blanks.length_le
      have last := close.length_le
      simp only [List.length_cons] at last
      omega
  | nextElement blanks _ comma _ ih others =>
      have first := blanks.length_le
      have next := comma.length_le
      simp only [List.length_cons] at next
      omega
  | lastMember blanks name separator space _ close ih =>
      have first := blanks.length_le
      have key := name.length_lt
      have colon := separator.length_le
      have held := space.length_le
      have last := close.length_le
      simp only [List.length_cons] at first colon last
      omega
  | nextMember blanks name separator space _ comma _ ih others =>
      have first := blanks.length_le
      have key := name.length_lt
      have colon := separator.length_le
      have held := space.length_le
      have next := comma.length_le
      simp only [List.length_cons] at first colon next
      omega

def Ends (rest : List UInt8) : Prop :=
  ∀ c, rest.head? = some c →
    isBlank c = true ∨ c = ','.toUInt8 ∨ c = ']'.toUInt8 ∨ c = '\x7d'.toUInt8

theorem Blanks.ends {text rest : List UInt8} (blanks : Blanks text rest) (ends : Ends rest) :
    Ends text := by
  cases blanks with
  | none => exact ends
  | blank is_blank _ =>
      intro c same
      rw [← Option.some.inj same]
      exact Or.inl is_blank

end Foundation.JsonGrammar
