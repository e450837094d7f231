/-
What a quantifier in braces means.

The digits denote numbers of any size, and the compiler reads them into an `int`.
A bound over the limit is meant to be rejected; read into an `int` it may look
like one under the limit.
-/

import CScript.Regex.Parsing

namespace CScript

/-! ### Quantifiers as they are written -/

/-- `{m}`, `{m,}` and `{m,n}`, each bound a string of digits. -/
inductive Quantifier where
  | exactly (least : List UInt8)
  | atLeast (least : List UInt8)
  | between (least most : List UInt8)

namespace Quantifier

def text : Quantifier → List UInt8
  | exactly least => '\x7b'.toUInt8 :: (least ++ ['\x7d'.toUInt8])
  | atLeast least => '\x7b'.toUInt8 :: (least ++ [','.toUInt8, '\x7d'.toUInt8])
  | between least most =>
      '\x7b'.toUInt8 :: (least ++ ','.toUInt8 :: (most ++ ['\x7d'.toUInt8]))

def least : Quantifier → List UInt8
  | exactly least => least
  | atLeast least => least
  | between least _ => least

def most : Quantifier → Option (List UInt8)
  | exactly least => some least
  | atLeast _ => none
  | between _ most => some most

def IsNumber (digits : List UInt8) : Prop :=
  digits ≠ [] ∧ ∀ digit ∈ digits, isDigit digit = true

theorem isNumber_of_all {digits : List UInt8} (some_ : digits ≠ [])
    (digital : digits.all isDigit = true) : IsNumber digits :=
  ⟨some_, List.all_eq_true.mp digital⟩

def WellWritten (quantifier : Quantifier) : Prop :=
  IsNumber quantifier.least ∧ ∀ most, quantifier.most = some most → IsNumber most

def Refused (quantifier : Quantifier) : Prop :=
  1000 < readNat quantifier.least ∨
    ∃ most, quantifier.most = some most ∧
      (1000 < readNat most ∨ readNat most < readNat quantifier.least)

def Small (quantifier : Quantifier) : Prop :=
  readNat quantifier.least ≤ 1000 ∧
    ∀ most, quantifier.most = some most → readNat most ≤ 1000

end Quantifier

/-- So many mandatory copies of an atom, and then the optional ones or a loop. -/
def quantifiedCode (atom : List ReInst) (base least : Nat) (most : Option Nat) (lazy : Bool) :
    List ReInst :=
  let offset := least * atom.length
  copiesCode atom 0 least ++
    match most with
    | none => loopCode atom base offset lazy
    | some most =>
        optionalCode atom base lazy (base + offset + (most - least) * (atom.length + 1)) offset
          (most - least)

def Rejects {α : Type} (result : ReResult α) : Prop :=
  ∃ message, result = .error (.failed message)

def ReadAsWritten (quantifier : Quantifier) (start : Nat) (atom : ReParser)
    (rest : List UInt8) (result : ReResult ReParser) : Prop :=
  (Rejects result ↔ quantifier.Refused) ∧
    (¬quantifier.Refused → result = .ok
      { regex :=
          { atom.regex with
            code := atom.regex.code.take start ++
              quantifiedCode (atom.regex.code.drop start) start (readNat quantifier.least)
                (quantifier.most.map readNat) (readLazy rest).1 }
        rest := (readLazy rest).2 })

namespace Quantifier

def asInt (quantifier : Quantifier) : Bounds :=
  { least := readInt quantifier.least
    most := (quantifier.most.map readInt).getD (-1) }

/-- Read into an `int`, the bounds are refused all the same. -/
def RefusedAsInt (quantifier : Quantifier) : Prop :=
  quantifier.asInt.most ≠ -1 ∧ quantifier.asInt.most < quantifier.asInt.least ∨
    1000 < quantifier.asInt.most ∨ 1000 < quantifier.asInt.least

end Quantifier

/-! ### Reading the braces -/

section Reading

open Quantifier (IsNumber)

variable {digits rest : List UInt8}

theorem takeWhile_digits (number : IsNumber digits) {c : UInt8}
    (other : isDigit c = false) : (digits ++ c :: rest).takeWhile isDigit = digits := by
  rw [List.takeWhile_append_of_pos number.2, List.takeWhile_cons_of_neg (by simp [other]),
    List.append_nil]

theorem dropWhile_digits (number : IsNumber digits) {c : UInt8}
    (other : isDigit c = false) : (digits ++ c :: rest).dropWhile isDigit = c :: rest := by
  rw [List.dropWhile_append_of_pos number.2, List.dropWhile_cons_of_neg (by simp [other])]

theorem head_not_brace (number : IsNumber digits) :
    (digits ++ rest).head? ≠ some '\x7d'.toUInt8 := by
  cases digits with
  | nil => exact absurd rfl number.1
  | cons digit digits =>
      intro head
      injection head with same
      have isDigit_ := number.2 digit List.mem_cons_self
      rw [same] at isDigit_
      exact absurd isDigit_ (by decide)

theorem readBraces_text {quantifier : Quantifier} (written : quantifier.WellWritten)
    (rest : List UInt8) :
    ∃ inner, quantifier.text ++ rest = '\x7b'.toUInt8 :: inner ∧
      readBraces inner =
        some ({ least := quantifier.least, most := quantifier.most }, rest) := by
  have closing : isDigit '\x7d'.toUInt8 = false := by decide
  have comma : isDigit ','.toUInt8 = false := by decide
  obtain ⟨leastWritten, mostWritten⟩ := written
  cases quantifier with
  | exactly least =>
      have number : IsNumber least := leastWritten
      refine ⟨least ++ '\x7d'.toUInt8 :: rest, by simp [Quantifier.text], ?_⟩
      unfold readBraces
      simp only [takeWhile_digits number closing, dropWhile_digits number closing,
        if_neg number.1]
      rfl
  | atLeast least =>
      have number : IsNumber least := leastWritten
      refine ⟨least ++ ','.toUInt8 :: '\x7d'.toUInt8 :: rest, by simp [Quantifier.text], ?_⟩
      unfold readBraces
      simp only [takeWhile_digits number comma, dropWhile_digits number comma, if_neg number.1]
      rfl
  | between least most =>
      have number : IsNumber least := leastWritten
      have mostNumber : IsNumber most := mostWritten most rfl
      refine ⟨least ++ ','.toUInt8 :: (most ++ '\x7d'.toUInt8 :: rest),
        by simp [Quantifier.text], ?_⟩
      unfold readBraces
      simp only [takeWhile_digits number comma, dropWhile_digits number comma, if_neg number.1,
        if_neg (head_not_brace mostNumber), takeWhile_digits mostNumber closing,
        dropWhile_digits mostNumber closing]
      rfl

end Reading

/-! ### What the bounds become -/

section

open Quantifier (IsNumber)

variable {quantifier : Quantifier}

theorem checkBounds_refused (refused : quantifier.RefusedAsInt) :
    Rejects (checkBounds quantifier.asInt) := by
  unfold checkBounds
  by_cases backwards : quantifier.asInt.most ≠ -1 ∧
      quantifier.asInt.most < quantifier.asInt.least
  · rw [if_pos backwards]
    exact ⟨_, rfl⟩
  · rw [if_neg backwards, if_pos (refused.resolve_left backwards)]
    exact ⟨_, rfl⟩

theorem checkBounds_read (read : ¬quantifier.RefusedAsInt) :
    checkBounds quantifier.asInt = .ok quantifier.asInt := by
  obtain ⟨forwards, within⟩ := not_or.mp read
  unfold checkBounds
  rw [if_neg forwards, if_neg within]

theorem readBounds_text (written : quantifier.WellWritten) (rest : List UInt8) :
    readBounds (quantifier.text ++ rest) =
      (checkBounds quantifier.asInt).bind (fun bounds => .ok (some (bounds, rest))) := by
  obtain ⟨inner, text, read⟩ := readBraces_text written rest
  have star : '\x7b'.toUInt8 ≠ '*'.toUInt8 := by decide
  have plus : '\x7b'.toUInt8 ≠ '+'.toUInt8 := by decide
  have mark : '\x7b'.toUInt8 ≠ '?'.toUInt8 := by decide
  rw [text]
  unfold readBounds
  simp only [if_neg star, if_neg plus, if_neg mark, if_true, read]
  rfl

theorem readInt_small {digits : List UInt8} (number : IsNumber digits)
    (small : readNat digits ≤ 1000) : readInt digits = readNat digits := by
  rw [readInt_eq number.2]
  exact cInt_small (by omega) (by omega)

theorem asInt_small (written : quantifier.WellWritten) (small : quantifier.Small) :
    quantifier.asInt =
      { least := readNat quantifier.least
        most := (quantifier.most.map (fun most => (readNat most : Int))).getD (-1) } := by
  unfold Quantifier.asInt
  rw [readInt_small written.1 small.1]
  cases given : quantifier.most with
  | none => rfl
  | some most =>
      simp only [Option.map_some, Option.getD_some,
        readInt_small (written.2 most given) (small.2 most given)]

theorem refusedAsInt_small (written : quantifier.WellWritten) (small : quantifier.Small) :
    quantifier.RefusedAsInt ↔ quantifier.Refused := by
  have least := small.1
  unfold Quantifier.RefusedAsInt Quantifier.Refused
  rw [asInt_small written small]
  cases given : quantifier.most with
  | none =>
      simp only [Option.map_none, Option.getD_none, reduceCtorEq, false_and, exists_false, or_false]
      omega
  | some most =>
      have mostSmall := small.2 most given
      simp only [Option.map_some, Option.getD_some, Option.some.injEq, exists_eq_left']
      omega

theorem refused_of_large (large : ¬quantifier.Small) : quantifier.Refused := by
  unfold Quantifier.Small at large
  by_cases least : readNat quantifier.least ≤ 1000
  · have most : ¬∀ most, quantifier.most = some most → readNat most ≤ 1000 :=
      fun most => large ⟨least, most⟩
    push Not at most
    obtain ⟨most, given, above⟩ := most
    exact .inr ⟨most, given, .inl (by omega)⟩
  · exact .inl (Nat.lt_of_not_le least)

theorem repeatedCode_small (written : quantifier.WellWritten) (small : quantifier.Small)
    (accepted : ¬quantifier.Refused) (atom : List ReInst) (base : Nat) (lazy : Bool) :
    repeatedCode atom base quantifier.asInt lazy =
      quantifiedCode atom base (readNat quantifier.least) (quantifier.most.map readNat) lazy := by
  unfold repeatedCode quantifiedCode Bounds.copies Bounds.optional
  rw [asInt_small written small]
  cases given : quantifier.most with
  | none =>
      simp only [Option.map_none, Option.getD_none, Int.toNat_natCast, if_true]
  | some most =>
      have mostSmall := small.2 most given
      have forwards : readNat quantifier.least ≤ readNat most :=
        Nat.le_of_not_lt (fun backwards => accepted (.inr ⟨most, given, .inr backwards⟩))
      have bounded : (readNat most : Int) ≠ -1 := by omega
      have optional : (cInt ((readNat most : Int) - readNat quantifier.least)).toNat =
          readNat most - readNat quantifier.least := by
        rw [cInt_small (by omega) (by omega)]
        omega
      simp only [Option.map_some, Option.getD_some, Int.toNat_natCast, if_neg bounded, optional]

end

/-! ### The repetition -/

section

variable {quantifier : Quantifier} {parser atom : ReParser} {rest : List UInt8} {fuel : Nat}

theorem parseRepetition_refused (parsed : parseAtom (parseAlternation fuel) parser = .ok atom)
    (follows : atom.rest = quantifier.text ++ rest) (written : quantifier.WellWritten)
    (refused : quantifier.RefusedAsInt) :
    Rejects (parseRepetition (parseAlternation fuel) parser) := by
  obtain ⟨message, checked⟩ := checkBounds_refused refused
  refine ⟨message, ?_⟩
  unfold parseRepetition
  rw [parsed]
  simp only [bind, Except.bind]
  rw [follows, readBounds_text written, checked]
  rfl

theorem parseRepetition_read (parsed : parseAtom (parseAlternation fuel) parser = .ok atom)
    (follows : atom.rest = quantifier.text ++ rest) (written : quantifier.WellWritten)
    (read : ¬quantifier.RefusedAsInt) :
    parseRepetition (parseAlternation fuel) parser = .ok
      { regex :=
          { atom.regex with
            code := atom.regex.code.take parser.regex.count ++
              repeatedCode (atom.regex.code.drop parser.regex.count) parser.regex.count
                quantifier.asInt (readLazy rest).1 }
        rest := (readLazy rest).2 } := by
  obtain ⟨node, _, emitted⟩ := parseAtom_agrees
    (parseAlternation_agrees parser.regex.ignoreCase fuel) parser atom rfl parsed
  obtain ⟨block, code, _⟩ := emitted.code
  have place : parser.regex.count = parser.regex.code.length := rfl
  have repeated := repeatAtom_eq block parser.regex.code code quantifier.asInt (readLazy rest).1
  unfold parseRepetition
  rw [parsed]
  simp only [bind, Except.bind]
  rw [follows, readBounds_text written, checkBounds_read read]
  rw [place, code, List.take_left, List.drop_left, ← repeated]
  rfl

/-- The quantifier after an atom is read as it is written exactly when its bounds
are small, or are refused as `int`s too. -/
theorem parseRepetition_readAsWritten
    (parsed : parseAtom (parseAlternation fuel) parser = .ok atom)
    (follows : atom.rest = quantifier.text ++ rest) (written : quantifier.WellWritten) :
    ReadAsWritten quantifier parser.regex.count atom rest
        (parseRepetition (parseAlternation fuel) parser) ↔
      quantifier.Small ∨ quantifier.RefusedAsInt := by
  have rejects : Rejects (parseRepetition (parseAlternation fuel) parser) ↔
      quantifier.RefusedAsInt := by
    constructor
    · rintro ⟨message, failed⟩
      by_contra read
      rw [parseRepetition_read parsed follows written read] at failed
      cases failed
    · exact parseRepetition_refused parsed follows written
  constructor
  · rintro ⟨refusals, _⟩
    by_cases small : quantifier.Small
    · exact .inl small
    · exact .inr (rejects.mp (refusals.mpr (refused_of_large small)))
  · intro condition
    by_cases small : quantifier.Small
    · have same := refusedAsInt_small written small
      refine ⟨rejects.trans same, fun accepted => ?_⟩
      rw [parseRepetition_read parsed follows written (mt same.mp accepted),
        repeatedCode_small written small accepted]
    · have refused := refused_of_large small
      have refusedAsInt := condition.resolve_left small
      exact ⟨⟨fun _ => refused, fun _ => rejects.mpr refusedAsInt⟩,
        fun accepted => absurd refused accepted⟩

def freshParser (pattern : List UInt8) : ReParser :=
  { regex :=
      { code := []
        classes := []
        groupCount := 1
        names := []
        ignoreCase := false
        multiline := false
        dotAll := false }
    rest := pattern }

theorem parseRepetition_readAsWritten_small :
    ReadAsWritten (.between (ascii "2") (ascii "3")) 0
        (emitByte { freshParser [] with rest := ascii "\x7b2,3\x7d?" } 'a'.toUInt8) (ascii "?")
        (parseRepetition (parseAlternation 0) (freshParser (ascii "a\x7b2,3\x7d?"))) ↔
      (Quantifier.between (ascii "2") (ascii "3")).Small ∨
        (Quantifier.between (ascii "2") (ascii "3")).RefusedAsInt :=
  parseRepetition_readAsWritten rfl rfl
    ⟨Quantifier.isNumber_of_all (by decide) (by decide),
      fun _ same => by cases same; exact Quantifier.isNumber_of_all (by decide) (by decide)⟩

/-- A bound of 2^32 + 1 is read as 1. -/
theorem bound_looks_small :
    ¬∀ (fuel : Nat) (quantifier : Quantifier) (parser atom : ReParser) (rest : List UInt8),
      parseAtom (parseAlternation fuel) parser = .ok atom →
      atom.rest = quantifier.text ++ rest → quantifier.WellWritten →
      ReadAsWritten quantifier parser.regex.count atom rest
        (parseRepetition (parseAlternation fuel) parser) := by
  intro claim
  have written : (Quantifier.exactly (ascii "4294967297")).WellWritten :=
    ⟨Quantifier.isNumber_of_all (by decide) (by decide),
      fun _ same => by cases same; exact Quantifier.isNumber_of_all (by decide) (by decide)⟩
  obtain ⟨refusals, _⟩ := claim 0 (.exactly (ascii "4294967297"))
    (freshParser (ascii "a\x7b4294967297\x7d")) _ [] rfl rfl written
  obtain ⟨message, rejected⟩ := refusals.mpr (.inl (by decide))
  have accepted : (parseRepetition (parseAlternation 0)
      (freshParser (ascii "a\x7b4294967297\x7d"))).isOk = true := by decide +kernel
  rw [rejected] at accepted
  cases accepted

end

end CScript
