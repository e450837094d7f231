/-
Numeric literals and the doubles they become.

The lexer accepts a literal of any length.  The parser copies its first 63 characters
without their separators and hands these to `strtod`, or to `strtoull` if they are
hexadecimal, which stops at 2^64 - 1.  So a literal becomes the nearest double of the
number it is cut to.
-/

import CScript.Runtime.NumberConversion
import Mathlib.Data.Int.Log

namespace CScript.NumberLiteral

/-! ### The C library -/

/-- The nearest double to a number that is not negative, and halfway the one whose last
bit is even; from halfway beyond the greatest double on, infinity. -/
def nearest (number : ℚ) : Double :=
  let power := max (Int.log 2 number - 52) (-1074)
  let kept := ⌊number / 2 ^ power⌋.toNat
  let left := number / 2 ^ power - kept
  let rounded := if 1 / 2 < left ∨ 1 / 2 = left ∧ kept % 2 = 1 then kept + 1 else kept
  if 2 ^ 1024 ≤ (rounded : ℚ) * 2 ^ power then ⟨0x7ff0000000000000⟩
  else if rounded = 2 ^ 53 then Double.scaled false (2 ^ 52) (power + 1)
  else Double.scaled false rounded power

def isDigit (c : UInt8) : Bool :=
  decide ('0'.toUInt8 ≤ c ∧ c ≤ '9'.toUInt8)

def isHexDigit (c : UInt8) : Bool :=
  isDigit c || decide ('a'.toUInt8 ≤ c ∧ c ≤ 'f'.toUInt8) ||
    decide ('A'.toUInt8 ≤ c ∧ c ≤ 'F'.toUInt8)

def digitValue (c : UInt8) : Nat :=
  if isDigit c then c.toNat - 48
  else if decide ('a'.toUInt8 ≤ c) then c.toNat - 97 + 10
  else c.toNat - 65 + 10

def digitsValue (base : Nat) (digits : List UInt8) : Nat :=
  digits.foldl (fun value c => value * base + digitValue c) 0

/-- `whole.fraction` times ten to the power of the exponent. -/
def decimalValue (whole fraction : List UInt8) (exponent : Int) : ℚ :=
  digitsValue 10 (whole ++ fraction) * 10 ^ (exponent - fraction.length)

def isSign (c : UInt8) : Bool :=
  decide (c = '+'.toUInt8 ∨ c = '-'.toUInt8)

def isExponentMark (c : UInt8) : Bool :=
  decide (c = 'e'.toUInt8 ∨ c = 'E'.toUInt8)

def signedExponent (sign digits : List UInt8) : Int :=
  if sign = ['-'.toUInt8] then -digitsValue 10 digits else digitsValue 10 digits

/-- What `strtod` reads behind the digits: an exponent, if there is a whole one. -/
def strtodExponent : List UInt8 → Int
  | [] => 0
  | mark :: behind =>
      if isExponentMark mark then
        let sign := (behind.take 1).filter isSign
        signedExponent sign ((behind.drop sign.length).takeWhile isDigit)
      else 0

/-- `strtod` on a text that begins with a decimal number without a sign. -/
def strtod (text : List UInt8) : Double :=
  let whole := text.takeWhile isDigit
  match text.dropWhile isDigit with
  | [] => nearest (decimalValue whole [] 0)
  | c :: behind =>
      if c = '.'.toUInt8 then
        nearest (decimalValue whole (behind.takeWhile isDigit)
          (strtodExponent (behind.dropWhile isDigit)))
      else nearest (decimalValue whole [] (strtodExponent (c :: behind)))

/-- `strtoull` in base 16 on a text that begins with a digit. -/
def strtoull (text : List UInt8) : Nat :=
  min (digitsValue 16 (text.takeWhile isHexDigit)) (2 ^ 64 - 1)

/-! ### The source -/

def isDigitPart (c : UInt8) : Bool :=
  isDigit c || decide (c = '_'.toUInt8)

def isHexPart (c : UInt8) : Bool :=
  isHexDigit c || decide (c = '_'.toUInt8)

inductive TokenType where
  | number
  | bigint
  deriving DecidableEq, Repr

inductive Scanned where
  | token (type : TokenType) (text rest : List UInt8)
  | errorToken (message : List UInt8)
  deriving DecidableEq, Repr

def peek (source : List UInt8) : UInt8 :=
  source.headD 0

def isHexMark (c : UInt8) : Bool :=
  decide (c = 'x'.toUInt8 ∨ c = 'X'.toUInt8)

def scanExponent (source : List UInt8) : List UInt8 × List UInt8 :=
  if isExponentMark (peek source) then
    let behind := source.tail
    let sign := (behind.take 1).filter isSign
    let digits := behind.drop sign.length
    if isDigit (peek digits) then
      (source.take 1 ++ sign ++ digits.takeWhile isDigitPart, digits.dropWhile isDigitPart)
    else ([], source)
  else ([], source)

def scanFraction (source : List UInt8) : List UInt8 × List UInt8 :=
  if peek source = '.'.toUInt8 ∧ isDigit (peek source.tail) = true then
    (source.take 1 ++ source.tail.takeWhile isDigitPart, source.tail.dropWhile isDigitPart)
  else ([], source)

/-- `number`, with the lexer behind the first digit. -/
def number (first : UInt8) (source : List UInt8) : Scanned :=
  if first = '0'.toUInt8 ∧ isHexMark (peek source) = true then
    let behind := source.tail
    if isHexDigit (peek behind) then
      let text := first :: peek source :: behind.takeWhile isHexPart
      let rest := behind.dropWhile isHexPart
      if peek rest = 'n'.toUInt8 then .token .bigint (text ++ ['n'.toUInt8]) rest.tail
      else .token .number text rest
    else .errorToken (ascii "expected hex digits after '0x'")
  else
    let whole := first :: source.takeWhile isDigitPart
    let rest := source.dropWhile isDigitPart
    if peek rest = 'n'.toUInt8 then .token .bigint (whole ++ ['n'.toUInt8]) rest.tail
    else
      let fraction := scanFraction rest
      let exponent := scanExponent fraction.2
      .token .number (whole ++ fraction.1 ++ exponent.1) exponent.2

def withoutSeparators (text : List UInt8) : List UInt8 :=
  text.filter (fun c => decide (c ≠ '_'.toUInt8))

def parseNumberLiteral (text : List UInt8) : Double :=
  let limit := if text.length < 63 then text.length else 63
  let buffer := withoutSeparators (text.take limit)
  if 2 < buffer.length ∧ buffer.getD 0 0 = '0'.toUInt8 ∧ isHexMark (buffer.getD 1 0) = true then
    nearest (strtoull (buffer.drop 2))
  else strtod buffer

/-! ### The literals -/

structure DigitRun (digit : UInt8 → Bool) where
  text : List UInt8
  starts : digit (peek text) = true
  parts : ∀ c ∈ text, digit c = true ∨ c = '_'.toUInt8

structure Exponent where
  mark : UInt8
  isMark : isExponentMark mark = true
  sign : List UInt8
  signs : sign = [] ∨ sign = ['+'.toUInt8] ∨ sign = ['-'.toUInt8]
  run : DigitRun isDigit

structure Decimal where
  whole : DigitRun isDigit
  fraction : Option (DigitRun isDigit)
  exponent : Option Exponent

inductive Literal where
  | decimal (decimal : Decimal)
  | hexadecimal (mark : UInt8) (isMark : isHexMark mark = true) (run : DigitRun isHexDigit)

def DigitRun.digits {digit : UInt8 → Bool} (run : DigitRun digit) : List UInt8 :=
  withoutSeparators run.text

def Exponent.text (exponent : Exponent) : List UInt8 :=
  exponent.mark :: exponent.sign ++ exponent.run.text

def Exponent.value (exponent : Exponent) : Int :=
  signedExponent exponent.sign exponent.run.digits

def Decimal.fractionText (decimal : Decimal) : List UInt8 :=
  decimal.fraction.elim [] (fun run => '.'.toUInt8 :: run.text)

def Decimal.exponentText (decimal : Decimal) : List UInt8 :=
  decimal.exponent.elim [] Exponent.text

def Literal.text : Literal → List UInt8
  | .decimal written => written.whole.text ++ written.fractionText ++ written.exponentText
  | .hexadecimal mark _ run => '0'.toUInt8 :: mark :: run.text

def Decimal.value (decimal : Decimal) : ℚ :=
  decimalValue decimal.whole.digits (decimal.fraction.elim [] DigitRun.digits)
    (decimal.exponent.elim 0 Exponent.value)

def Literal.value : Literal → ℚ
  | .decimal written => written.value
  | .hexadecimal _ _ run => digitsValue 16 run.digits

theorem peek_take {source : List UInt8} (n : Nat) : peek (source.take (n + 1)) = peek source := by
  cases source <;> rfl

/-- The first `n + 1` characters of a run. -/
def DigitRun.cut {digit : UInt8 → Bool} (n : Nat) (run : DigitRun digit) : DigitRun digit where
  text := run.text.take (n + 1)
  starts := by rw [peek_take]; exact run.starts
  parts := fun c member => run.parts c (List.mem_of_mem_take member)

/-- What the first `n` characters of an exponent leave of it. -/
def Exponent.cut (n : Nat) (exponent : Exponent) : Option Exponent :=
  if exponent.sign.length + 2 ≤ n then
    some { exponent with run := exponent.run.cut (n - exponent.sign.length - 2) }
  else none

/-- The number that the first `n + 1` characters write. -/
def Decimal.cut (n : Nat) (decimal : Decimal) : Decimal where
  whole := decimal.whole.cut n
  fraction := decimal.fraction.bind (fun run =>
    if decimal.whole.text.length + 1 ≤ n then some (run.cut (n - decimal.whole.text.length - 1))
    else none)
  exponent := decimal.exponent.bind
    (Exponent.cut (n + 1 - decimal.whole.text.length - decimal.fractionText.length))

def Literal.readValue : Literal → ℚ
  | .decimal written => (written.cut 62).value
  | .hexadecimal _ _ run => (min (digitsValue 16 (run.cut 60).digits) (2 ^ 64 - 1) : Nat)

/-! ### The lexer accepts literals -/

theorem nil_or_peek (source : List UInt8) :
    source = [] ∨ ∃ rest, source = peek source :: rest := by
  cases source with
  | nil => exact .inl rfl
  | cons c rest => exact .inr ⟨rest, rfl⟩

theorem run_of_takeWhile {digit part : UInt8 → Bool}
    (isPart : ∀ c, part c = true → digit c = true ∨ c = '_'.toUInt8)
    (within : ∀ c, digit c = true → part c = true) (zero : digit 0 = false) {source : List UInt8}
    (starts : digit (peek source) = true) :
    ∃ run : DigitRun digit, run.text = source.takeWhile part := by
  cases source with
  | nil =>
      change digit 0 = true at starts
      rw [zero] at starts
      cases starts
  | cons c rest =>
      have taken : (c :: rest).takeWhile part = c :: rest.takeWhile part := by
        rw [List.takeWhile_cons, if_pos (within c starts)]
      have all := List.all_eq_true.mp (List.all_takeWhile (p := part) (l := c :: rest))
      have first : digit (peek ((c :: rest).takeWhile part)) = true := by
        rw [taken]
        exact starts
      exact ⟨⟨_, first, fun other member => isPart other (all other member)⟩, rfl⟩

theorem isDigitPart_iff (c : UInt8) :
    isDigitPart c = true ↔ isDigit c = true ∨ c = '_'.toUInt8 := by
  unfold isDigitPart
  rw [Bool.or_eq_true, decide_eq_true_iff]

theorem isHexPart_iff (c : UInt8) :
    isHexPart c = true ↔ isHexDigit c = true ∨ c = '_'.toUInt8 := by
  unfold isHexPart
  rw [Bool.or_eq_true, decide_eq_true_iff]

theorem decimal_run {source : List UInt8} (starts : isDigit (peek source) = true) :
    ∃ run : DigitRun isDigit, run.text = source.takeWhile isDigitPart :=
  run_of_takeWhile (fun c => (isDigitPart_iff c).mp)
    (fun c digit => (isDigitPart_iff c).mpr (.inl digit)) rfl starts

theorem scanFraction_run (source : List UInt8) :
    ∃ fraction : Option (DigitRun isDigit),
      (scanFraction source).1 = fraction.elim [] (fun run => '.'.toUInt8 :: run.text) := by
  unfold scanFraction
  by_cases point : peek source = '.'.toUInt8 ∧ isDigit (peek source.tail) = true
  · rw [if_pos point]
    obtain ⟨run, same⟩ := decimal_run point.2
    refine ⟨some run, ?_⟩
    rcases nil_or_peek source with rfl | ⟨rest, split⟩
    · cases point.1
    · rw [Option.elim_some, same, split, point.1]
      rfl
  · rw [if_neg point]
    exact ⟨none, rfl⟩

theorem sign_cases (behind : List UInt8) :
    (behind.take 1).filter isSign = [] ∨ (behind.take 1).filter isSign = ['+'.toUInt8] ∨
      (behind.take 1).filter isSign = ['-'.toUInt8] := by
  cases behind with
  | nil => exact .inl rfl
  | cons c rest =>
      rw [List.take_succ_cons, List.take_zero]
      by_cases sign : isSign c = true
      · rw [List.filter_cons_of_pos sign]
        rcases of_decide_eq_true sign with rfl | rfl
        · exact .inr (.inl rfl)
        · exact .inr (.inr rfl)
      · rw [List.filter_cons_of_neg sign]
        exact .inl rfl

theorem scanExponent_run (source : List UInt8) :
    ∃ exponent : Option Exponent, (scanExponent source).1 = exponent.elim [] Exponent.text := by
  unfold scanExponent
  by_cases mark : isExponentMark (peek source) = true
  · rw [if_pos mark]
    simp only
    by_cases digits : isDigit (peek (source.tail.drop
        ((source.tail.take 1).filter isSign).length)) = true
    · rw [if_pos digits]
      obtain ⟨run, same⟩ := decimal_run digits
      refine ⟨some ⟨peek source, mark, _, sign_cases source.tail, run⟩, ?_⟩
      rcases nil_or_peek source with rfl | ⟨rest, split⟩
      · cases mark
      · have head : source.take 1 = [peek source] := by rw [split]; rfl
        simp only [Option.elim_some, Exponent.text, same, head]
        rfl
    · rw [if_neg digits]
      exact ⟨none, rfl⟩
  · rw [if_neg mark]
    exact ⟨none, rfl⟩

theorem number_literal {first : UInt8} {source text rest : List UInt8}
    (starts : isDigit first = true) (scanned : number first source = .token .number text rest) :
    ∃ literal : Literal, literal.text = text := by
  unfold number at scanned
  by_cases hex : first = '0'.toUInt8 ∧ isHexMark (peek source) = true
  · rw [if_pos hex] at scanned
    simp only at scanned
    by_cases digits : isHexDigit (peek source.tail) = true
    · rw [if_pos digits] at scanned
      obtain ⟨run, same⟩ := run_of_takeWhile (fun c => (isHexPart_iff c).mp)
        (fun c digit => (isHexPart_iff c).mpr (.inl digit)) rfl digits
      split at scanned
      · cases scanned
      · refine ⟨.hexadecimal (peek source) hex.2 run, ?_⟩
        rw [Literal.text, same, ← hex.1]
        exact (Scanned.token.inj scanned).2.1
    · rw [if_neg digits] at scanned
      cases scanned
  · rw [if_neg hex] at scanned
    simp only at scanned
    split at scanned
    · cases scanned
    · have whole : isDigit (peek (first :: source)) = true := starts
      obtain ⟨run, same⟩ := decimal_run whole
      rw [List.takeWhile_cons, if_pos ((isDigitPart_iff first).mpr (.inl starts))] at same
      obtain ⟨fraction, fractionEq⟩ := scanFraction_run (source.dropWhile isDigitPart)
      obtain ⟨exponent, exponentEq⟩ :=
        scanExponent_run (scanFraction (source.dropWhile isDigitPart)).2
      refine ⟨.decimal ⟨run, fraction, exponent⟩, ?_⟩
      have text := (Scanned.token.inj scanned).2.1
      rw [fractionEq, exponentEq, ← same] at text
      exact text

/-! ### What the library reads of a literal -/

theorem withoutSeparators_cons {c : UInt8} (other : c ≠ '_'.toUInt8) (text : List UInt8) :
    withoutSeparators (c :: text) = c :: withoutSeparators text :=
  List.filter_cons_of_pos (decide_eq_true other)

theorem withoutSeparators_append (front back : List UInt8) :
    withoutSeparators (front ++ back) = withoutSeparators front ++ withoutSeparators back :=
  List.filter_append front back

theorem DigitRun.digits_all {digit : UInt8 → Bool} (run : DigitRun digit) :
    ∀ c ∈ run.digits, digit c = true := by
  intro c member
  have ⟨inside, apart⟩ := List.mem_filter.mp member
  exact (run.parts c inside).resolve_right (of_decide_eq_true apart)

theorem DigitRun.digits_cons {digit : UInt8 → Bool} (zero : digit 0 = false)
    (separator : digit '_'.toUInt8 = false) (run : DigitRun digit) :
    ∃ c more, run.digits = c :: more ∧ digit c = true := by
  obtain ⟨text, starts, parts⟩ := run
  cases text with
  | nil =>
      change digit 0 = true at starts
      rw [zero] at starts
      cases starts
  | cons c rest =>
      have other : c ≠ '_'.toUInt8 := by
        rintro rfl
        change digit '_'.toUInt8 = true at starts
        rw [separator] at starts
        cases starts
      exact ⟨c, _, withoutSeparators_cons other rest, starts⟩

theorem takeWhile_digits {digit : UInt8 → Bool} {digits rest : List UInt8}
    (all : ∀ c ∈ digits, digit c = true)
    (ends : ∀ c, rest.head? = some c → digit c = false) :
    (digits ++ rest).takeWhile digit = digits ∧ (digits ++ rest).dropWhile digit = rest := by
  induction digits with
  | nil =>
      cases rest with
      | nil => exact ⟨rfl, rfl⟩
      | cons c rest =>
          have stops : ¬digit c = true := by simp [ends c rfl]
          rw [List.nil_append]
          exact ⟨List.takeWhile_cons_of_neg stops, List.dropWhile_cons_of_neg stops⟩
  | cons c digits ih =>
      have first := all c List.mem_cons_self
      obtain ⟨taken, dropped⟩ := ih (fun other member => all other (List.mem_cons_of_mem c member))
      rw [List.cons_append, List.takeWhile_cons_of_pos first, List.dropWhile_cons_of_pos first,
        taken, dropped]
      exact ⟨rfl, rfl⟩

def MarkAhead (rest : List UInt8) : Prop :=
  ∀ c, rest.head? = some c → isExponentMark c = true

theorem mark_cases {c : UInt8} (mark : isExponentMark c = true) :
    isDigit c = false ∧ c ≠ '.'.toUInt8 ∧ c ≠ '_'.toUInt8 ∧ isHexMark c = false := by
  rcases of_decide_eq_true mark with rfl | rfl <;> decide

theorem strtod_plain {whole rest : List UInt8} (digits : ∀ c ∈ whole, isDigit c = true)
    (ahead : MarkAhead rest) :
    strtod (whole ++ rest) = nearest (decimalValue whole [] (strtodExponent rest)) := by
  obtain ⟨taken, dropped⟩ := takeWhile_digits digits (fun c next => (mark_cases (ahead c next)).1)
  unfold strtod
  rw [taken, dropped]
  cases rest with
  | nil => rfl
  | cons c rest => exact if_neg (mark_cases (ahead c rfl)).2.1

theorem strtod_point {whole fraction rest : List UInt8} (digits : ∀ c ∈ whole, isDigit c = true)
    (more : ∀ c ∈ fraction, isDigit c = true) (ahead : MarkAhead rest) :
    strtod (whole ++ '.'.toUInt8 :: (fraction ++ rest)) =
      nearest (decimalValue whole fraction (strtodExponent rest)) := by
  have point : ∀ c, ('.'.toUInt8 :: (fraction ++ rest)).head? = some c → isDigit c = false := by
    rintro c next
    obtain rfl := Option.some.inj next
    rfl
  obtain ⟨taken, dropped⟩ := takeWhile_digits digits point
  obtain ⟨fractionTaken, fractionDropped⟩ :=
    takeWhile_digits more (fun c next => (mark_cases (ahead c next)).1)
  unfold strtod
  rw [taken, dropped]
  simp only [if_pos, fractionTaken, fractionDropped]

theorem digits_takeWhile {digits : List UInt8} (all : ∀ c ∈ digits, isDigit c = true) :
    digits.takeWhile isDigit = digits := by
  have taken := (@takeWhile_digits isDigit digits [] all nofun).1
  rw [List.append_nil] at taken
  exact taken

theorem strtodExponent_unsigned {mark : UInt8} {digits : List UInt8}
    (isMark : isExponentMark mark = true) (all : ∀ c ∈ digits, isDigit c = true) :
    strtodExponent (mark :: digits) = signedExponent [] digits := by
  have noSign : (digits.take 1).filter isSign = [] := by
    rw [List.filter_eq_nil_iff]
    intro c member sign
    have digit := all c (List.mem_of_mem_take member)
    rcases of_decide_eq_true sign with rfl | rfl <;> cases digit
  rw [strtodExponent, if_pos isMark, noSign]
  simp only [List.length_nil, List.drop_zero, digits_takeWhile all]

theorem strtodExponent_signed {mark sign : UInt8} {digits : List UInt8}
    (isMark : isExponentMark mark = true) (signed : isSign sign = true)
    (all : ∀ c ∈ digits, isDigit c = true) :
    strtodExponent (mark :: sign :: digits) = signedExponent [sign] digits := by
  rw [strtodExponent, if_pos isMark, List.take_succ_cons, List.take_zero,
    List.filter_cons_of_pos signed]
  simp only [List.filter_nil, List.length_singleton, List.drop_succ_cons, List.drop_zero,
    digits_takeWhile all]

theorem DigitRun.cut_digits {digit : UInt8 → Bool} (run : DigitRun digit) (n : Nat) :
    withoutSeparators (run.text.take (n + 1)) = (run.cut n).digits :=
  rfl

theorem strtodExponent_cut (exponent : Exponent) (n : Nat) :
    strtodExponent (withoutSeparators (exponent.text.take n)) =
      (exponent.cut n).elim 0 Exponent.value := by
  obtain ⟨mark, isMark, sign, signs, run⟩ := exponent
  have kept := (mark_cases isMark).2.2.1
  have behindSign : ∀ n sign, isSign sign = true → sign ≠ '_'.toUInt8 →
      (signs : [sign] = [] ∨ [sign] = ['+'.toUInt8] ∨ [sign] = ['-'.toUInt8]) →
      strtodExponent (mark :: withoutSeparators ((sign :: run.text).take n)) =
        (Exponent.cut (n + 1) ⟨mark, isMark, [sign], signs, run⟩).elim 0 Exponent.value := by
    intro n sign isSign notSeparator signs
    match n with
    | 0 => exact strtodExponent_unsigned isMark nofun
    | 1 =>
        have noDigits : signedExponent [sign] [] = 0 := by
          unfold signedExponent
          split <;> rfl
        rw [List.take_succ_cons, withoutSeparators_cons notSeparator]
        exact (@strtodExponent_signed mark sign [] isMark isSign nofun).trans noDigits
    | n + 2 =>
        rw [List.take_succ_cons, withoutSeparators_cons notSeparator, run.cut_digits,
          strtodExponent_signed isMark isSign (run.cut n).digits_all]
        rfl
  cases n with
  | zero => rfl
  | succ n =>
      rw [Exponent.text, List.cons_append, List.take_succ_cons, withoutSeparators_cons kept]
      rcases signs with rfl | rfl | rfl
      · cases n with
        | zero => exact strtodExponent_unsigned isMark nofun
        | succ n =>
            rw [List.nil_append, run.cut_digits,
              strtodExponent_unsigned isMark (run.cut n).digits_all]
            rfl
      · exact behindSign n _ rfl (by decide) _
      · exact behindSign n _ rfl (by decide) _

theorem markAhead_exponent (exponent : Exponent) (n : Nat) :
    MarkAhead (withoutSeparators (exponent.text.take n)) := by
  intro c next
  cases n with
  | zero => cases next
  | succ n =>
      rw [Exponent.text, List.cons_append, List.take_succ_cons,
        withoutSeparators_cons (mark_cases exponent.isMark).2.2.1] at next
      rw [← Option.some.inj next]
      exact exponent.isMark

theorem exponentText_cut (written : Decimal) (n : Nat) :
    MarkAhead (withoutSeparators (written.exponentText.take n)) ∧
      strtodExponent (withoutSeparators (written.exponentText.take n)) =
        (written.exponent.bind (Exponent.cut n)).elim 0 Exponent.value := by
  unfold Decimal.exponentText
  cases written.exponent with
  | none =>
      rw [Option.elim_none, List.take_nil]
      exact ⟨nofun, rfl⟩
  | some exponent => exact ⟨markAhead_exponent exponent n, strtodExponent_cut exponent n⟩

theorem strtod_cut (written : Decimal) (n : Nat) :
    strtod (withoutSeparators ((Literal.decimal written).text.take (n + 1))) =
      nearest (written.cut n).value := by
  have whole := (written.whole.cut n).digits_all
  rw [Literal.text, List.append_assoc, List.take_append, withoutSeparators_append,
    written.whole.cut_digits]
  unfold Decimal.value Decimal.cut
  generalize leftEq : n + 1 - written.whole.text.length = left
  cases fractionEq : written.fraction with
  | none =>
      have noText : written.fractionText = [] := by
        rw [Decimal.fractionText, fractionEq]
        rfl
      obtain ⟨ahead, exponent⟩ := exponentText_cut written left
      rw [noText, List.nil_append, strtod_plain whole ahead, exponent]
      rfl
  | some run =>
      have text : written.fractionText = '.'.toUInt8 :: run.text := by
        rw [Decimal.fractionText, fractionEq]
        rfl
      rw [text, List.length_cons]
      cases left with
      | zero =>
          have short : ¬written.whole.text.length + 1 ≤ n := by omega
          have none_ : written.exponent.bind (Exponent.cut (0 - (run.text.length + 1))) = none := by
            rw [Nat.zero_sub]
            cases written.exponent <;> rfl
          have ends := @strtod_plain _ [] whole nofun
          rw [Option.bind_some, if_neg short, none_]
          exact ends
      | succ left =>
          obtain ⟨ahead, exponent⟩ := exponentText_cut written (left - run.text.length)
          have places : left + 1 - (run.text.length + 1) = left - run.text.length := by omega
          rw [List.cons_append, List.take_succ_cons, List.take_append,
            withoutSeparators_cons (by decide), withoutSeparators_append, places, Option.bind_some,
            ← exponent]
          cases left with
          | zero =>
              have short : ¬written.whole.text.length + 1 ≤ n := by omega
              rw [if_neg short]
              exact @strtod_point _ [] _ whole nofun ahead
          | succ left =>
              have long : written.whole.text.length + 1 ≤ n := by omega
              have more : n - written.whole.text.length - 1 = left := by omega
              rw [if_pos long, more, run.cut_digits]
              exact strtod_point whole (run.cut left).digits_all ahead

/-! ### What the parser reads -/

theorem take_limit (text : List UInt8) :
    text.take (if text.length < 63 then text.length else 63) = text.take 63 := by
  by_cases short : text.length < 63
  · rw [if_pos short, List.take_length, List.take_of_length_le (by omega)]
  · rw [if_neg short]

theorem digit_not_hexMark {c : UInt8} (digit : isDigit c = true) : isHexMark c = false := by
  by_contra mark
  rcases of_decide_eq_true (Bool.of_not_eq_false mark) with rfl | rfl <;> cases digit

theorem run_not_hexMark (run : DigitRun isDigit) {c : UInt8} (member : c ∈ run.text) :
    isHexMark c = false := by
  rcases run.parts c member with digit | rfl
  · exact digit_not_hexMark digit
  · rfl

theorem decimal_not_hexMark (written : Decimal) {c : UInt8}
    (member : c ∈ (Literal.decimal written).text) : isHexMark c = false := by
  rw [Literal.text, List.mem_append, List.mem_append] at member
  rcases member with (member | member) | member
  · exact run_not_hexMark written.whole member
  · unfold Decimal.fractionText at member
    cases fractionEq : written.fraction with
    | none =>
        rw [fractionEq] at member
        cases member
    | some run =>
        rw [fractionEq] at member
        rcases List.mem_cons.mp member with rfl | member
        · rfl
        · exact run_not_hexMark run member
  · unfold Decimal.exponentText at member
    cases exponentEq : written.exponent with
    | none =>
        rw [exponentEq] at member
        cases member
    | some exponent =>
        rw [exponentEq, Option.elim_some, Exponent.text, List.mem_append] at member
        rcases member with member | member
        · rcases List.mem_cons.mp member with rfl | member
          · exact (mark_cases exponent.isMark).2.2.2
          · rcases exponent.signs with signs | signs | signs <;> rw [signs] at member
            · cases member
            · rw [List.mem_singleton.mp member]
              rfl
            · rw [List.mem_singleton.mp member]
              rfl
        · exact run_not_hexMark exponent.run member

theorem parseNumberLiteral_text (literal : Literal) :
    parseNumberLiteral literal.text = nearest literal.readValue := by
  unfold parseNumberLiteral
  simp only [take_limit]
  cases literal with
  | decimal written =>
      have plain : isHexMark ((withoutSeparators
          ((Literal.decimal written).text.take 63)).getD 1 0) = false := by
        rw [List.getD_eq_getElem?_getD]
        cases there : (withoutSeparators ((Literal.decimal written).text.take 63))[1]? with
        | none => rfl
        | some c =>
            have member := List.mem_of_getElem? there
            exact decimal_not_hexMark written
              (List.mem_of_mem_take (List.mem_filter.mp member).1)
      simp only [plain, Bool.false_eq_true, and_false, if_false]
      exact strtod_cut written 62
  | hexadecimal mark isMark run =>
      have kept : mark ≠ '_'.toUInt8 := by
        rintro rfl
        cases isMark
      obtain ⟨c, more, digits, isDigit⟩ := (run.cut 60).digits_cons rfl rfl
      have buffer : withoutSeparators ((Literal.hexadecimal mark isMark run).text.take 63) =
          '0'.toUInt8 :: mark :: (run.cut 60).digits := by
        rw [Literal.text, List.take_succ_cons, List.take_succ_cons,
          withoutSeparators_cons (by decide), withoutSeparators_cons kept]
        rfl
      have taken := (@takeWhile_digits isHexDigit _ [] (run.cut 60).digits_all nofun).1
      rw [List.append_nil] at taken
      have long : 2 < ('0'.toUInt8 :: mark :: (run.cut 60).digits).length := by
        rw [digits]
        simp
      simp only [buffer]
      rw [if_pos ⟨long, rfl, isMark⟩, List.drop_succ_cons, List.drop_succ_cons, List.drop_zero,
        strtoull, taken]
      rfl

/-! ### Literals that are read whole -/

def Literal.FitsWord : Literal → Prop
  | .decimal _ => True
  | .hexadecimal _ _ run => digitsValue 16 run.digits < 2 ^ 64

theorem DigitRun.cut_of_length {digit : UInt8 → Bool} {run : DigitRun digit} {n : Nat}
    (short : run.text.length ≤ n + 1) : run.cut n = run := by
  obtain ⟨text, starts, parts⟩ := run
  have whole : text.take (n + 1) = text := List.take_of_length_le short
  simp only [DigitRun.cut, whole]

theorem DigitRun.length_pos (run : DigitRun isDigit) : 0 < run.text.length := by
  obtain ⟨text, starts, parts⟩ := run
  cases text with
  | nil => cases starts
  | cons c text => exact Nat.succ_pos _

theorem Exponent.cut_of_length {exponent : Exponent} {n : Nat}
    (short : exponent.text.length ≤ n) : exponent.cut n = some exponent := by
  have digits := exponent.run.length_pos
  simp only [Exponent.text, List.length_append, List.length_cons] at short
  have all : exponent.run.cut (n - exponent.sign.length - 2) = exponent.run :=
    DigitRun.cut_of_length (by omega)
  unfold Exponent.cut
  rw [if_pos (by omega), all]

theorem Decimal.cut_of_length {written : Decimal} {n : Nat}
    (short : (Literal.decimal written).text.length ≤ n + 1) : written.cut n = written := by
  obtain ⟨whole, fraction, exponent⟩ := written
  simp only [Literal.text, List.length_append] at short
  have wholeAll : whole.cut n = whole := DigitRun.cut_of_length (by omega)
  have exponentAll : exponent.bind (Exponent.cut (n + 1 - whole.text.length -
      (Decimal.mk whole fraction exponent).fractionText.length)) = exponent := by
    cases exponent with
    | none => rfl
    | some exponent =>
        simp only [Decimal.exponentText, Option.elim_some] at short
        exact Exponent.cut_of_length (by omega)
  have fractionAll : fraction.bind (fun run =>
      if whole.text.length + 1 ≤ n then some (run.cut (n - whole.text.length - 1)) else none) =
        fraction := by
    cases fraction with
    | none => rfl
    | some run =>
        have digits := run.length_pos
        simp only [Decimal.fractionText, Option.elim_some, List.length_cons] at short
        rw [Option.bind_some, if_pos (by omega), DigitRun.cut_of_length (by omega)]
  unfold Decimal.cut
  simp only [wholeAll, fractionAll, exponentAll]

theorem readValue_of_length {literal : Literal} (short : literal.text.length ≤ 63)
    (fits : literal.FitsWord) : literal.readValue = literal.value := by
  cases literal with
  | decimal written => rw [Literal.readValue, Literal.value, Decimal.cut_of_length short]
  | hexadecimal mark isMark run =>
      have all : run.cut 60 = run := by
        apply DigitRun.cut_of_length
        simp only [Literal.text, List.length_cons] at short
        omega
      have below : digitsValue 16 run.digits ≤ 2 ^ 64 - 1 := by
        have less : digitsValue 16 run.digits < 2 ^ 64 := fits
        omega
      rw [Literal.readValue, Literal.value, all, Nat.min_eq_left below]

/-- A numeric literal becomes the nearest double of the number written exactly if the
number it is cut to has the same one; a short literal is not cut. -/
theorem parseNumberLiteral_nearest_iff {first : UInt8} {source text rest : List UInt8}
    (starts : isDigit first = true) (scanned : number first source = .token .number text rest) :
    (∃ literal : Literal, literal.text = text) ∧
      ∀ literal : Literal, literal.text = text →
        (parseNumberLiteral text = nearest literal.value ↔
          nearest literal.readValue = nearest literal.value) ∧
        (text.length ≤ 63 → literal.FitsWord →
          parseNumberLiteral text = nearest literal.value) := by
  refine ⟨number_literal starts scanned, ?_⟩
  rintro literal rfl
  constructor
  · rw [parseNumberLiteral_text]
  · intro short fits
    rw [parseNumberLiteral_text, readValue_of_length short fits]

def fiveZeros : Literal :=
  .decimal
    { whole := ⟨['1'.toUInt8], rfl,
        fun c member => .inl (by rw [List.mem_singleton.mp member]; rfl)⟩
      fraction := none
      exponent := some
        { mark := 'e'.toUInt8
          isMark := rfl
          sign := []
          signs := .inl rfl
          run := ⟨['5'.toUInt8], rfl,
            fun c member => .inl (by rw [List.mem_singleton.mp member]; rfl)⟩ } }

theorem parseNumberLiteral_fiveZeros :
    parseNumberLiteral (ascii "1e5") = nearest fiveZeros.value :=
  ((parseNumberLiteral_nearest_iff (show isDigit '1'.toUInt8 = true by decide)
    (show number '1'.toUInt8 (ascii "e5;") = .token .number (ascii "1e5") (ascii ";") by
      decide +kernel)).2 fiveZeros rfl).2 (by decide) trivial

def longFiveZeros : Literal :=
  .decimal
    { whole := ⟨['1'.toUInt8], rfl,
        fun c member => .inl (by rw [List.mem_singleton.mp member]; rfl)⟩
      fraction := some ⟨List.replicate 60 '0'.toUInt8, rfl,
        fun c member => .inl (by rw [List.eq_of_mem_replicate member]; rfl)⟩
      exponent := some
        { mark := 'e'.toUInt8
          isMark := rfl
          sign := []
          signs := .inl rfl
          run := ⟨['5'.toUInt8], rfl,
            fun c member => .inl (by rw [List.mem_singleton.mp member]; rfl)⟩ } }

/-- The exponent of a literal is lost behind its sixty-third character. -/
theorem parseNumberLiteral_longFiveZeros :
    number '1'.toUInt8 longFiveZeros.text.tail = .token .number longFiveZeros.text [] ∧
      parseNumberLiteral longFiveZeros.text = nearest 1 ∧
      nearest longFiveZeros.value = nearest 100000 ∧
      parseNumberLiteral longFiveZeros.text ≠ nearest longFiveZeros.value := by
  decide +kernel

end CScript.NumberLiteral
