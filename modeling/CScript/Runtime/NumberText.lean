/-
Numbers written as text.

The shortest digits that read back as the number are asked of the C library; where
the point goes is decided here.  There are at most 17 digits, so the buffer of 32
bytes holds every text.
-/

import CScript.Foundation.Formatted
import CScript.Foundation.Numerals
import CScript.Runtime.Value

namespace CScript

open Foundation
open Foundation.Formatted (isdigit decimalDigits)

/-! ### The source -/

/-- The number is `0.digits` times ten to the power of the point. -/
structure Digits where
  digits : List UInt8
  point : Int
  deriving DecidableEq, Repr

def Double.isNegative (number : Double) : Bool :=
  decide (2 ^ 63 ≤ number.bits.toNat)

def Double.abs (number : Double) : Double :=
  ⟨UInt64.ofNat number.magnitude⟩

theorem Double.abs_magnitude (number : Double) : number.abs.magnitude = number.magnitude := by
  unfold abs magnitude
  rw [UInt64.toNat_ofNat']
  omega

theorem Double.abs_isNaN (number : Double) : number.abs.isNaN = number.isNaN := by
  unfold isNaN
  rw [abs_magnitude]

theorem Double.abs_isInf (number : Double) : number.abs.isInf = number.isInf := by
  unfold isInf
  rw [abs_magnitude]

theorem Double.abs_isZero (number : Double) : number.abs.isZero = number.isZero := by
  unfold isZero
  rw [abs_magnitude]

/-- `%+d`. -/
def signedText (n : Int) : List UInt8 :=
  (if n < 0 then ascii "-" else ascii "+") ++ decimalDigits n.natAbs

section

variable (shortestDigits : Double → Digits)

def csValueFormatNumberEx (value : Double) (signedZero : Bool) : List UInt8 :=
  if value.isNaN then ascii "NaN"
  else if value.isInf then if value.isNegative then ascii "-Infinity" else ascii "Infinity"
  else if value.isZero then if signedZero && value.isNegative then ascii "-0" else ascii "0"
  else
    let sign := if value.isNegative then ascii "-" else []
    let digits := (shortestDigits value.abs).digits
    let point := (shortestDigits value.abs).point
    if digits.length ≤ point ∧ point ≤ 21 then
      sign ++ (digits ++ List.replicate (point.toNat - digits.length) '0'.toUInt8)
    else if 0 < point ∧ point ≤ 21 then
      sign ++ (digits.take point.toNat ++ ('.'.toUInt8 :: digits.drop point.toNat))
    else if -6 < point ∧ point ≤ 0 then
      sign ++ ('0'.toUInt8 :: '.'.toUInt8 ::
        (List.replicate (-point).toNat '0'.toUInt8 ++ digits))
    else if digits.length = 1 then sign ++ (digits ++ 'e'.toUInt8 :: signedText (point - 1))
    else
      sign ++ (digits.take 1 ++ ('.'.toUInt8 :: (digits.drop 1 ++
        'e'.toUInt8 :: signedText (point - 1))))

def csValueFormatNumber (value : Double) : List UInt8 :=
  csValueFormatNumberEx shortestDigits value false

end

/-! ### Finite numbers are JSON numbers -/

def Significant (shortestDigits : Double → Digits) : Prop :=
  ∀ value : Double, value.isNaN = false → value.isInf = false → value.isZero = false →
    ∃ first rest, (shortestDigits value).digits = first :: rest ∧ first ≠ '0'.toUInt8 ∧
      ∀ c ∈ first :: rest, isdigit c = true

theorem mem_digit {c : UInt8} (is_digit : isdigit c = true) :
    [c] ∈ Numerals.digit.matches' := by
  have range := (Formatted.isdigit_iff c).mp is_digit
  refine Numerals.mem_oneOf.mpr ⟨c, ?_, rfl⟩
  have all : ∀ n < 58, 48 ≤ n →
      UInt8.ofNat n ∈ ([48, 49, 50, 51, 52, 53, 54, 55, 56, 57] : List UInt8) := by
    decide
  have named : UInt8.ofNat c.toNat = c := UInt8.ofNat_toNat
  exact named ▸ all c.toNat (by omega) range.1

theorem digits_star {digits : List UInt8} (are : ∀ c ∈ digits, isdigit c = true) :
    digits ∈ Numerals.digit.star.matches' := by
  refine Language.mem_kstar.mpr ⟨digits.map fun c => [c], ?_, ?_⟩
  · induction digits with
    | nil => rfl
    | cons c rest ih =>
        rw [List.map_cons, List.flatten_cons,
          ← ih fun each member => are each (List.mem_cons_of_mem c member)]
        rfl
  · intro one member
    obtain ⟨c, inside, rfl⟩ := List.mem_map.mp member
    exact mem_digit (are c inside)

theorem digits_atLeastOne {digits : List UInt8} (some_ : digits ≠ [])
    (are : ∀ c ∈ digits, isdigit c = true) :
    digits ∈ (Numerals.atLeastOne Numerals.digit).matches' := by
  obtain ⟨c, rest, rfl⟩ := List.exists_cons_of_ne_nil some_
  exact Language.append_mem_mul (mem_digit (are c List.mem_cons_self))
    (digits_star fun each member => are each (List.mem_cons_of_mem c member))

theorem mem_nonzeroDigit {c : UInt8} (is_digit : isdigit c = true) (not_zero : c ≠ '0'.toUInt8) :
    [c] ∈ Numerals.nonzeroDigit.matches' := by
  obtain ⟨other, inside, same⟩ := Numerals.mem_oneOf.mp (mem_digit is_digit)
  rw [← (List.cons.inj same).1] at inside
  rcases List.mem_cons.mp inside with zero | later
  · exact absurd zero not_zero
  · exact Numerals.mem_oneOf.mpr ⟨c, later, rfl⟩

def IsWhole (digits : List UInt8) : Prop :=
  digits = ['0'.toUInt8] ∨
    ∃ first rest, digits = first :: rest ∧ first ≠ '0'.toUInt8 ∧
      ∀ c ∈ first :: rest, isdigit c = true

theorem number_mk (negative : Bool) (whole fraction power : List UInt8)
    (is_whole : IsWhole whole)
    (fractional : fraction = [] ∨ ∃ digits, digits ≠ [] ∧ (∀ c ∈ digits, isdigit c = true) ∧
      fraction = '.'.toUInt8 :: digits)
    (scaled : power = [] ∨ ∃ n, power = 'e'.toUInt8 :: signedText n) :
    (if negative then ascii "-" else []) ++ (whole ++ (fraction ++ power)) ∈
      Numerals.number.matches' := by
  refine Language.append_mem_mul ?_ (Language.append_mem_mul ?_ (Language.append_mem_mul ?_ ?_))
  · cases negative
    · exact Or.inl rfl
    · exact Or.inr rfl
  · rcases is_whole with rfl | ⟨first, rest, rfl, not_zero, are⟩
    · exact Or.inl rfl
    · exact Or.inr (Language.append_mem_mul
        (mem_nonzeroDigit (are first List.mem_cons_self) not_zero)
        (digits_star fun each member => are each (List.mem_cons_of_mem first member)))
  · rcases fractional with rfl | ⟨digits, some_, are, rfl⟩
    · exact Or.inl rfl
    · exact Or.inr (Language.append_mem_mul (a := ['.'.toUInt8]) rfl
        (digits_atLeastOne some_ are))
  · rcases scaled with rfl | ⟨n, rfl⟩
    · exact Or.inl rfl
    · have numeral := Formatted.decimalDigits_numeral n.natAbs
      have mark : ['e'.toUInt8] ∈ (Numerals.oneOf ['e'.toUInt8, 'E'.toUInt8]).matches' :=
        Numerals.mem_oneOf.mpr ⟨_, List.mem_cons_self, rfl⟩
      refine Or.inr (Language.append_mem_mul mark (Language.append_mem_mul (Or.inr ?_)
        (digits_atLeastOne numeral.nonempty numeral.are)))
      by_cases below : n < 0
      · rw [if_pos below]
        exact Numerals.mem_oneOf.mpr ⟨'-'.toUInt8, by decide, rfl⟩
      · rw [if_neg below]
        exact Numerals.mem_oneOf.mpr ⟨'+'.toUInt8, by decide, rfl⟩

theorem zeros_digits (count : Nat) : ∀ c ∈ List.replicate count '0'.toUInt8, isdigit c = true := by
  intro c member
  rw [List.eq_of_mem_replicate member]
  decide

theorem csValueFormatNumber_number {shortestDigits : Double → Digits}
    (significant : Significant shortestDigits) {value : Double} (real : value.isNaN = false)
    (finite : value.isInf = false) :
    csValueFormatNumber shortestDigits value ∈ Numerals.number.matches' := by
  unfold csValueFormatNumber csValueFormatNumberEx
  rw [real, finite]
  simp only [Bool.false_eq_true, if_false, Bool.false_and]
  cases zero : value.isZero with
  | true => exact number_mk false _ [] [] (Or.inl rfl) (Or.inl rfl) (Or.inl rfl)
  | false =>
      simp only [Bool.false_eq_true, if_false]
      obtain ⟨first, rest, shown, not_zero, are⟩ :=
        significant value.abs (value.abs_isNaN.trans real) (value.abs_isInf.trans finite)
          (value.abs_isZero.trans zero)
      generalize (shortestDigits value.abs).point = point
      rw [shown]
      have restAre : ∀ c ∈ rest, isdigit c = true := fun c member =>
        are c (List.mem_cons_of_mem first member)
      by_cases whole : ((first :: rest).length : Int) ≤ point ∧ point ≤ 21
      · rw [if_pos whole]
        have text := number_mk value.isNegative
          (first :: rest ++ List.replicate (point.toNat - (first :: rest).length) '0'.toUInt8) [] []
          (Or.inr ⟨first, _, rfl, not_zero, List.forall_mem_append.mpr ⟨are, zeros_digits _⟩⟩)
          (Or.inl rfl) (Or.inl rfl)
        rw [List.append_nil, List.append_nil] at text
        exact text
      rw [if_neg whole]
      by_cases inside : 0 < point ∧ point ≤ 21
      · rw [if_pos inside]
        obtain ⟨count, size⟩ : ∃ count, point.toNat = count + 1 := ⟨point.toNat - 1, by omega⟩
        rw [List.length_cons] at whole
        rw [size, List.take_succ_cons, List.drop_succ_cons]
        have text := number_mk value.isNegative (first :: rest.take count)
          ('.'.toUInt8 :: rest.drop count) []
          (Or.inr ⟨first, _, rfl, not_zero, fun c member =>
            are c (List.cons_subset_cons first (List.take_subset count rest) member)⟩)
          (Or.inr ⟨_, fun none_ => by
              have short := List.drop_eq_nil_iff.mp none_
              omega,
            fun c member => restAre c (List.mem_of_mem_drop member), rfl⟩)
          (Or.inl rfl)
        rw [List.append_nil] at text
        exact text
      rw [if_neg inside]
      by_cases small : -6 < point ∧ point ≤ 0
      · rw [if_pos small]
        have text := number_mk value.isNegative ['0'.toUInt8]
          ('.'.toUInt8 :: (List.replicate (-point).toNat '0'.toUInt8 ++ first :: rest)) []
          (Or.inl rfl)
          (Or.inr ⟨_, fun none_ => List.cons_ne_nil first rest (List.append_eq_nil_iff.mp none_).2,
            List.forall_mem_append.mpr ⟨zeros_digits _, are⟩, rfl⟩)
          (Or.inl rfl)
        rw [List.append_nil] at text
        exact text
      rw [if_neg small]
      by_cases single : (first :: rest).length = 1
      · rw [if_pos single]
        exact number_mk value.isNegative (first :: rest) [] ('e'.toUInt8 :: signedText (point - 1))
          (Or.inr ⟨first, rest, rfl, not_zero, are⟩) (Or.inl rfl) (Or.inr ⟨_, rfl⟩)
      · rw [if_neg single]
        rw [List.length_cons] at single
        exact number_mk value.isNegative [first] ('.'.toUInt8 :: rest)
          ('e'.toUInt8 :: signedText (point - 1))
          (Or.inr ⟨first, [], rfl, not_zero, fun c member =>
            are c (List.mem_cons.mpr (Or.inl (List.mem_singleton.mp member)))⟩)
          (Or.inr ⟨rest, fun none_ => single (by rw [none_]; rfl), restAre, rfl⟩)
          (Or.inr ⟨_, rfl⟩)

end CScript
