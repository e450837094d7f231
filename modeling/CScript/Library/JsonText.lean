/-
The text of a plain value, and what the reader makes of it.

The writer appends exactly the text below.  The reader takes it off the front of
what follows, but the bytes 8 and 12 of its strings come back as the letters of
their escapes.
-/

import CScript.Library.Json

namespace CScript.StdJson

open Foundation

/-! ### Plain values -/

def IsDigits (digits : List UInt8) : Prop :=
  digits ≠ [] ∧ ∀ c ∈ digits, isDigit c = true

inductive JsonNumber : List UInt8 → Prop where
  | mk (sign whole fraction exponent : List UInt8) (signed : sign = [] ∨ sign = ascii "-")
      (wholeDigits : IsDigits whole)
      (fractional : fraction = [] ∨
        ∃ digits, IsDigits digits ∧ fraction = '.'.toUInt8 :: digits)
      (scaled : exponent = [] ∨ ∃ mark power digits,
        (mark = 'e'.toUInt8 ∨ mark = 'E'.toUInt8) ∧
          (power = [] ∨ power = ascii "+" ∨ power = ascii "-") ∧ IsDigits digits ∧
            exponent = mark :: (power ++ digits)) :
      JsonNumber (sign ++ whole ++ fraction ++ exponent)

structure NumberText.ReadsBack (numbers : NumberText) (number : Double) : Prop where
  form : JsonNumber (numbers.print number)
  inverse : numbers.read (numbers.print number) = number

section

variable (numbers : NumberText)

mutual

def Plain : JsonValue → Prop
  | .null => True
  | .boolean _ => True
  | .number n => n.isNaN = false ∧ n.isInf = false ∧ numbers.ReadsBack n
  | .string _ => True
  | .array elements => PlainElements elements
  | .object members => (members.map Prod.fst).Nodup ∧ PlainMembers members
  | _ => False

def PlainElements : List JsonValue → Prop
  | [] => True
  | element :: rest => Plain element ∧ PlainElements rest

def PlainMembers : List (List UInt8 × JsonValue) → Prop
  | [] => True
  | (_, held) :: rest => Plain held ∧ PlainMembers rest

end

end

/-! ### The text -/

def Layout.pad (layout : Layout) (depth : Nat) : List UInt8 :=
  layout.newline ++ layout.spaces depth

section

variable (numbers : NumberText) (layout : Layout)

mutual

def textOf (depth : Nat) : JsonValue → List UInt8
  | .null => ascii "null"
  | .boolean b => if b then ascii "true" else ascii "false"
  | .number n => numbers.print n
  | .string chars => quote chars
  | .array [] => ascii "[]"
  | .array (element :: rest) =>
      '['.toUInt8 :: (layout.pad (depth + 1) ++ textOf (depth + 1) element ++
        elementsText depth rest)
  | .object [] => ascii "\x7b\x7d"
  | .object ((key, held) :: rest) =>
      '\x7b'.toUInt8 :: (layout.pad (depth + 1) ++ quote key ++ layout.separator ++
        textOf (depth + 1) held ++ membersText depth rest)
  | _ => []

def elementsText (depth : Nat) : List JsonValue → List UInt8
  | [] => layout.pad depth ++ ascii "]"
  | element :: rest =>
      ','.toUInt8 :: (layout.pad (depth + 1) ++ textOf (depth + 1) element ++
        elementsText depth rest)

def membersText (depth : Nat) : List (List UInt8 × JsonValue) → List UInt8
  | [] => layout.pad depth ++ ascii "\x7d"
  | (key, held) :: rest =>
      ','.toUInt8 :: (layout.pad (depth + 1) ++ quote key ++ layout.separator ++
        textOf (depth + 1) held ++ membersText depth rest)

end

end

/-! ### What is read -/

def readByte (c : UInt8) : UInt8 :=
  if c = 8 then 'b'.toUInt8 else if c = 12 then 'f'.toUInt8 else c

def assignAll (out members : List (List UInt8 × JsonValue)) : List (List UInt8 × JsonValue) :=
  members.foldl (fun out member => OrderedMap.put OrderedMap.equal out member.1 member.2) out

mutual

def readBack : JsonValue → JsonValue
  | .string chars => .string (chars.map readByte)
  | .array elements => .array (readElements elements)
  | .object members => .object (assignAll [] (readMembers members))
  | value => value

def readElements : List JsonValue → List JsonValue
  | [] => []
  | element :: rest => readBack element :: readElements rest

def readMembers : List (List UInt8 × JsonValue) → List (List UInt8 × JsonValue)
  | [] => []
  | (key, held) :: rest => (key.map readByte, readBack held) :: readMembers rest

end

/-! ### The writer -/

theorem intercalate_cons {α : Type} (between first : List α) (rest : List (List α)) :
    List.intercalate between (first :: rest) =
      first ++ rest.flatMap (fun part => between ++ part) := by
  induction rest generalizing first with
  | nil => simp [List.intercalate]
  | cons second rest ih =>
      have step : List.intercalate between (first :: second :: rest) =
          first ++ between ++ List.intercalate between (second :: rest) := by
        simp [List.intercalate, List.intersperse]
      rw [step, ih, List.flatMap_cons]
      simp only [List.append_assoc]

theorem lines_cons (layout : Layout) (depth : Nat) (opening closing : UInt8)
    (first : List UInt8) (rest : List (List UInt8)) :
    layout.lines depth opening closing (first :: rest) =
      opening :: (layout.newline ++ first ++
        (rest.flatMap (fun part => ','.toUInt8 :: (layout.newline ++ part)) ++
          (layout.pad depth ++ [closing]))) := by
  unfold Layout.lines Layout.pad
  rw [if_neg nofun, intercalate_cons]
  simp only [List.append_assoc, List.cons_append]

section

variable {numbers : NumberText} {layout : Layout}

def memberWritten (numbers : NumberText) (layout : Layout) (depth : Nat)
    (member : List UInt8 × JsonValue) : Option Written :=
  match member.2 with
  | .undefined => none
  | held => some (write numbers layout (depth + 1) held)

theorem writeMembers_eq (depth : Nat) (members : List (List UInt8 × JsonValue)) :
    writeMembers numbers layout depth members =
      members.map (fun member => (member.1, memberWritten numbers layout depth member)) := by
  induction members with
  | nil => simp [writeMembers]
  | cons member rest ih =>
      obtain ⟨key, held⟩ := member
      rw [List.map_cons, ← ih]
      cases held <;> rfl

theorem memberWritten_plain {depth : Nat} {key : List UInt8} {held : JsonValue}
    (plain : Plain numbers held) :
    memberWritten numbers layout depth (key, held) =
      some (write numbers layout (depth + 1) held) := by
  cases held <;> first | rfl | exact plain.elim

theorem memberParts_cons {depth : Nat} (key text : List UInt8)
    {rest : List (List UInt8 × Option Written)} {parts : List (List UInt8)}
    (others : memberParts layout depth rest = .ok parts) :
    memberParts layout depth ((key, some (.ok text)) :: rest) =
      .ok ((layout.spaces (depth + 1) ++ quote key ++ layout.separator ++ text) :: parts) := by
  rw [memberParts, others]
  rfl

theorem writeElements_cons {depth : Nat} {element : JsonValue} {rest : List JsonValue}
    {text : List UInt8} {parts : List (List UInt8)}
    (first : write numbers layout (depth + 1) element = .ok text)
    (others : writeElements numbers layout depth rest = .ok parts) :
    writeElements numbers layout depth (element :: rest) =
      .ok ((layout.spaces (depth + 1) ++ text) :: parts) := by
  rw [writeElements, first, others]
  rfl

theorem write_array {depth : Nat} {elements : List JsonValue} {parts : List (List UInt8)}
    (written : writeElements numbers layout depth elements = .ok parts) :
    write numbers layout depth (.array elements) =
      .ok (layout.lines depth '['.toUInt8 ']'.toUInt8 parts) := by
  rw [write, written]
  rfl

theorem write_object (inOrder : layout.stable = false) {depth : Nat}
    {members : List (List UInt8 × JsonValue)} {parts : List (List UInt8)}
    (written : memberParts layout depth (writeMembers numbers layout depth members) =
      .ok parts) :
    write numbers layout depth (.object members) =
      .ok (layout.lines depth '\x7b'.toUInt8 '\x7d'.toUInt8 parts) := by
  simp only [write, inOrder, Bool.false_eq_true, if_false, written]
  rfl

theorem writeMembers_cons {depth : Nat} {key : List UInt8} {held : JsonValue}
    {rest : List (List UInt8 × JsonValue)} (plain : Plain numbers held) :
    writeMembers numbers layout depth ((key, held) :: rest) =
      (key, some (write numbers layout (depth + 1) held)) ::
        writeMembers numbers layout depth rest := by
  rw [writeMembers_eq, writeMembers_eq, List.map_cons, memberWritten_plain plain]

mutual

theorem write_plain (inOrder : layout.stable = false) :
    ∀ (value : JsonValue) (depth : Nat), Plain numbers value →
      write numbers layout depth value = .ok (textOf numbers layout depth value)
  | .null, _, _ => by simp only [write, textOf]
  | .boolean b, _, _ => by simp only [write, textOf]
  | .number n, _, plain => by
      simp [write, textOf, plain.1, plain.2.1]
  | .string chars, _, _ => by simp only [write, textOf]
  | .array [], depth, _ => by
      have none : writeElements numbers layout depth [] = .ok [] := by rw [writeElements]
      rw [write_array none, textOf]
      rfl
  | .array (element :: rest), depth, plain => by
      have first := write_plain inOrder element (depth + 1) plain.1
      obtain ⟨parts, others, text⟩ := writeElements_plain inOrder rest depth plain.2
      rw [write_array (writeElements_cons first others), lines_cons, textOf, text]
      simp only [Layout.pad, List.append_assoc]
      rfl
  | .object [], depth, _ => by
      have none : memberParts layout depth (writeMembers numbers layout depth []) = .ok [] := by
        rw [writeMembers, memberParts]
      rw [write_object inOrder none, textOf]
      rfl
  | .object ((key, held) :: rest), depth, plain => by
      have first := write_plain inOrder held (depth + 1) plain.2.1
      obtain ⟨parts, others, text⟩ := writeMembers_plain inOrder rest depth plain.2.2
      have written := memberParts_cons key (textOf numbers layout (depth + 1) held) others
      rw [← first, ← writeMembers_cons plain.2.1] at written
      rw [write_object inOrder written, lines_cons, textOf, text]
      simp only [Layout.pad, List.append_assoc]
      rfl

theorem writeElements_plain (inOrder : layout.stable = false) :
    ∀ (elements : List JsonValue) (depth : Nat), PlainElements numbers elements →
      ∃ parts, writeElements numbers layout depth elements = .ok parts ∧
        elementsText numbers layout depth elements =
          parts.flatMap (fun part => ','.toUInt8 :: (layout.newline ++ part)) ++
            (layout.pad depth ++ ascii "]")
  | [], depth, _ => ⟨[], by rw [writeElements], by rw [elementsText]; rfl⟩
  | element :: rest, depth, plain => by
      have first := write_plain inOrder element (depth + 1) plain.1
      obtain ⟨parts, others, text⟩ := writeElements_plain inOrder rest depth plain.2
      refine ⟨_, writeElements_cons first others, ?_⟩
      rw [elementsText, text, List.flatMap_cons]
      simp only [Layout.pad, List.append_assoc, List.cons_append]

theorem writeMembers_plain (inOrder : layout.stable = false) :
    ∀ (members : List (List UInt8 × JsonValue)) (depth : Nat), PlainMembers numbers members →
      ∃ parts, memberParts layout depth (writeMembers numbers layout depth members) = .ok parts ∧
        membersText numbers layout depth members =
          parts.flatMap (fun part => ','.toUInt8 :: (layout.newline ++ part)) ++
            (layout.pad depth ++ ascii "\x7d")
  | [], depth, _ => ⟨[], by rw [writeMembers, memberParts], by rw [membersText]; rfl⟩
  | (key, held) :: rest, depth, plain => by
      have first := write_plain inOrder held (depth + 1) plain.1
      obtain ⟨parts, others, text⟩ := writeMembers_plain inOrder rest depth plain.2
      have written := memberParts_cons key (textOf numbers layout (depth + 1) held) others
      rw [← first, ← writeMembers_cons plain.1] at written
      refine ⟨_, written, ?_⟩
      rw [membersText, text, List.flatMap_cons]
      simp only [Layout.pad, List.append_assoc, List.cons_append]

end

end

end CScript.StdJson
