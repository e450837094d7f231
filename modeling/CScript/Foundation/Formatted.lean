/-
Integers in formatted text.

`scan` reads by a format of integers, fixed bytes and the count of what is read,
as C99 has it; an integer that does not fit has no meaning.  `padded` writes an
integer with zeros in front of it.
-/

import Mathlib.Data.Nat.Digits.Lemmas
import Mathlib.Tactic.Ring

namespace Foundation.Formatted

/-! ### Numerals -/

def isspace (c : UInt8) : Bool :=
  c = 32 || (9 ≤ c && c ≤ 13)

def isdigit (c : UInt8) : Bool :=
  48 ≤ c && c ≤ 57

def numeralValue (digits : List UInt8) : Nat :=
  digits.foldl (fun n c => n * 10 + (c.toNat - 48)) 0

structure IsNumeral (digits : List UInt8) (n : Nat) : Prop where
  nonempty : digits ≠ []
  are : ∀ c ∈ digits, isdigit c = true
  value : numeralValue digits = n

theorem isdigit_iff (c : UInt8) : isdigit c = true ↔ 48 ≤ c.toNat ∧ c.toNat ≤ 57 := by
  unfold isdigit
  rw [Bool.and_eq_true, decide_eq_true_eq, decide_eq_true_eq]
  exact Iff.rfl

theorem isspace_digit {c : UInt8} (digit : isdigit c = true) : isspace c = false := by
  have range := (isdigit_iff c).mp digit
  unfold isspace
  simp only [Bool.or_eq_false_iff, Bool.and_eq_false_iff, decide_eq_false_iff_not]
  refine ⟨?_, Or.inr ?_⟩
  · rintro rfl
    exact absurd range.1 (by decide)
  · show ¬c.toNat ≤ 13
    omega

theorem digit_ne {c other : UInt8} (digit : isdigit c = true) (not_digit : isdigit other = false) :
    c ≠ other := by
  rintro rfl
  rw [digit] at not_digit
  cases not_digit

theorem foldl_numeral (digits : List UInt8) (start : Nat) :
    digits.foldl (fun n c => n * 10 + (c.toNat - 48)) start =
      start * 10 ^ digits.length + numeralValue digits := by
  induction digits generalizing start with
  | nil => simp [numeralValue]
  | cons c rest ih =>
      unfold numeralValue
      rw [List.foldl_cons, List.foldl_cons, ih, ih (0 * 10 + (c.toNat - 48)), List.length_cons]
      ring

theorem numeralValue_append (digits more : List UInt8) :
    numeralValue (digits ++ more) =
      numeralValue digits * 10 ^ more.length + numeralValue more := by
  rw [numeralValue, List.foldl_append, foldl_numeral]
  rfl

theorem numeralValue_zeros (count : Nat) : numeralValue (List.replicate count 48) = 0 := by
  induction count with
  | zero => rfl
  | succ count ih => exact ih

theorem numeralValue_eq_zero {digits : List UInt8} (are : ∀ c ∈ digits, isdigit c = true) :
    numeralValue digits = 0 ↔ ∀ c ∈ digits, c = 48 := by
  induction digits with
  | nil => simp [numeralValue]
  | cons c rest ih =>
      have range := (isdigit_iff c).mp (are c List.mem_cons_self)
      have inner := ih (fun each member => are each (List.mem_cons_of_mem c member))
      have split_ := numeralValue_append [c] rest
      have head : numeralValue [c] = c.toNat - 48 := Nat.zero_add _
      have power : 0 < 10 ^ rest.length := Nat.pow_pos (by decide)
      rw [List.singleton_append, head] at split_
      rw [split_, List.forall_mem_cons, ← inner, Nat.add_eq_zero_iff, Nat.mul_eq_zero]
      have zero : c = 48 ↔ c.toNat = 48 := UInt8.toNat_inj.symm
      rw [zero]
      omega

theorem numeralValue_lt {digits : List UInt8} (are : ∀ c ∈ digits, isdigit c = true) :
    numeralValue digits < 10 ^ digits.length := by
  induction digits with
  | nil => decide
  | cons c rest ih =>
      have range := (isdigit_iff c).mp (are c List.mem_cons_self)
      have below := ih fun each member => are each (List.mem_cons_of_mem c member)
      have split_ := numeralValue_append [c] rest
      have head : numeralValue [c] = c.toNat - 48 := Nat.zero_add _
      rw [List.singleton_append, head] at split_
      have first : (c.toNat - 48) * 10 ^ rest.length ≤ 9 * 10 ^ rest.length :=
        Nat.mul_le_mul_right _ (by omega)
      rw [split_, List.length_cons, Nat.pow_succ]
      omega

/-! ### Writing -/

def decimalDigits (n : Nat) : List UInt8 :=
  if n = 0 then [48] else (Nat.digits 10 n).reverse.map fun digit => UInt8.ofNat (48 + digit)

/-- `%0*d`. -/
def padded (width : Nat) (n : Int) : List UInt8 :=
  let sign := if n < 0 then [45] else []
  let digits := decimalDigits n.natAbs
  sign ++ List.replicate (width - (sign.length + digits.length)) 48 ++ digits

theorem digit_byte {digit : Nat} (small : digit < 10) :
    (UInt8.ofNat (48 + digit)).toNat = 48 + digit := by
  rw [UInt8.toNat_ofNat']
  omega

theorem decimalDigits_numeral (n : Nat) : IsNumeral (decimalDigits n) n := by
  unfold decimalDigits
  by_cases zero : n = 0
  · rw [if_pos zero, zero]
    have isDigit : ∀ c ∈ [(48 : UInt8)], isdigit c = true := by
      intro c member
      rw [List.mem_singleton.mp member]
      decide
    exact ⟨by decide, isDigit, rfl⟩
  · rw [if_neg zero]
    have small : ∀ digit ∈ Nat.digits 10 n, digit < 10 := fun digit member =>
      Nat.digits_lt_base (by decide) member
    refine ⟨?_, ?_, ?_⟩
    · intro empty
      exact zero (Nat.digits_eq_nil_iff_eq_zero.mp
        (List.reverse_eq_nil_iff.mp (List.map_eq_nil_iff.mp empty)))
    · intro c member
      obtain ⟨digit, inside, rfl⟩ := List.mem_map.mp member
      have below := small digit (List.mem_reverse.mp inside)
      rw [isdigit_iff, digit_byte below]
      omega
    · have value := Nat.ofDigits_digits 10 n
      rw [Nat.ofDigits_eq_foldr] at value
      unfold numeralValue
      rw [List.foldl_map, List.foldl_reverse]
      refine Eq.trans ?_ value
      refine List.foldr_ext _ _ _ fun digit member rest => ?_
      rw [digit_byte (small digit member), Nat.cast_id]
      omega

theorem decimalDigits_length {n width : Nat} (positive : 0 < width) (below : n < 10 ^ width) :
    (decimalDigits n).length ≤ width := by
  unfold decimalDigits
  split
  · exact positive
  · rw [List.length_map, List.length_reverse]
    exact (Nat.digits_length_le_iff (by decide) n).mpr below

theorem padded_nonneg (width n : Nat) :
    padded width n = List.replicate (width - (decimalDigits n).length) 48 ++ decimalDigits n := by
  unfold padded
  rw [if_neg (by omega), Int.natAbs_natCast]
  simp only [List.nil_append, List.length_nil, Nat.zero_add]

theorem padded_numeral (width n : Nat) : IsNumeral (padded width n) n := by
  have written := decimalDigits_numeral n
  rw [padded_nonneg]
  refine ⟨?_, ?_, ?_⟩
  · exact fun empty => written.nonempty (List.append_eq_nil_iff.mp empty).2
  · intro c member
    rcases List.mem_append.mp member with zero | digit
    · rw [List.eq_of_mem_replicate zero]
      decide
    · exact written.are c digit
  · rw [numeralValue_append, numeralValue_zeros, Nat.zero_mul, Nat.zero_add, written.value]

theorem padded_length {width n : Nat} (positive : 0 < width) (below : n < 10 ^ width) :
    (padded width n).length = width := by
  have fits := decimalDigits_length positive below
  rw [padded_nonneg, List.length_append, List.length_replicate]
  omega

/-! ### Reading -/

inductive Directive where
  | int
  | byte (c : UInt8)
  | count
  deriving DecidableEq, Repr

inductive Conversion where
  | failed
  | undefined
  | read (value : Int) (rest : List UInt8)
  deriving DecidableEq, Repr

structure Scan where
  values : List Int
  rest : Option (List UInt8)
  deriving DecidableEq, Repr

section

variable (Fits : Int → Prop) [DecidablePred Fits]

/-- `%d`. -/
def scanInt (text : List UInt8) : Conversion :=
  let text := text.dropWhile isspace
  let negative := text.head? = some 45
  let unsigned := if negative ∨ text.head? = some 43 then text.tail else text
  let digits := unsigned.takeWhile isdigit
  if digits = [] then .failed
  else
    let value : Int := if negative then -numeralValue digits else numeralValue digits
    if Fits value then .read value (unsigned.dropWhile isdigit) else .undefined

def scan : List Directive → List UInt8 → Option Scan
  | [], _ => some ⟨[], none⟩
  | .int :: format, text =>
      match scanInt Fits text with
      | .failed => some ⟨[], none⟩
      | .undefined => none
      | .read value rest => (scan format rest).map fun read =>
          { read with values := value :: read.values }
  | .byte c :: format, text =>
      if text.head? = some c then scan format text.tail else some ⟨[], none⟩
  | .count :: format, text => (scan format text).map fun read =>
      { read with rest := read.rest.getD text }

def Stops (rest : List UInt8) : Prop :=
  ∀ c, rest.head? = some c → isdigit c = false

theorem takeWhile_stops {digits rest : List UInt8} (are : ∀ c ∈ digits, isdigit c = true)
    (stops : Stops rest) :
    (digits ++ rest).takeWhile isdigit = digits ∧ (digits ++ rest).dropWhile isdigit = rest := by
  rw [List.takeWhile_append_of_pos are, List.dropWhile_append_of_pos are]
  cases rest with
  | nil => simp
  | cons c rest =>
      have stop := stops c rfl
      rw [List.takeWhile_cons_of_neg (by rw [stop]; decide),
        List.dropWhile_cons_of_neg (by rw [stop]; decide)]
      exact ⟨List.append_nil digits, rfl⟩

theorem scanInt_numeral {digits rest : List UInt8} {n : Nat} (numeral : IsNumeral digits n)
    (stops : Stops rest) :
    scanInt Fits (digits ++ rest) = if Fits n then .read n rest else .undefined := by
  obtain ⟨taken, dropped⟩ := takeWhile_stops numeral.are stops
  obtain ⟨c, more, rfl⟩ := List.exists_cons_of_ne_nil numeral.nonempty
  have digit := numeral.are c List.mem_cons_self
  have plain : ((c :: more) ++ rest).dropWhile isspace = (c :: more) ++ rest :=
    List.dropWhile_cons_of_neg (by rw [isspace_digit digit]; decide)
  have minus : ((c :: more) ++ rest).head? ≠ some 45 := fun same =>
    digit_ne digit (by decide) (Option.some.inj same)
  have plus : ((c :: more) ++ rest).head? ≠ some 43 := fun same =>
    digit_ne digit (by decide) (Option.some.inj same)
  unfold scanInt
  simp only [plain, minus, plus, or_self, if_false, taken, dropped, numeral.value]
  rw [if_neg (List.cons_ne_nil c more)]

theorem scan_numeral {digits rest : List UInt8} {n : Nat} (format : List Directive)
    (numeral : IsNumeral digits n) (stops : Stops rest) (fits : Fits n) :
    scan Fits (.int :: format) (digits ++ rest) =
      (scan Fits format rest).map fun read => { read with values := n :: read.values } := by
  rw [scan, scanInt_numeral Fits numeral stops, if_pos fits]

theorem scan_numeral_undefined {digits rest : List UInt8} {n : Nat} (format : List Directive)
    (numeral : IsNumeral digits n) (stops : Stops rest) (large : ¬Fits n) :
    scan Fits (.int :: format) (digits ++ rest) = none := by
  rw [scan, scanInt_numeral Fits numeral stops, if_neg large]

theorem scan_byte (format : List Directive) (c : UInt8) (rest : List UInt8) :
    scan Fits (.byte c :: format) (c :: rest) = scan Fits format rest :=
  if_pos rfl

end

end Foundation.Formatted
