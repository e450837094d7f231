/-
The text of a Decimal.

The digits are those of the units, with zeros in front until there is one before
the point; reading them back goes through the same numbers, none past the units.
-/

import CScript.Library.DecimalExact

namespace CScript

namespace Decimal

/-! ### Digits -/

def digitText (digits : List ℕ) : List UInt8 :=
  digits.map (fun digit => UInt8.ofNat (48 + digit))

def digitsValue (digits : List ℕ) (start : ℕ) : ℕ :=
  digits.foldl (fun n digit => n * 10 + digit) start

def AreDigits (digits : List ℕ) : Prop :=
  ∀ digit ∈ digits, digit < 10

def natDigits (n : ℕ) : List ℕ :=
  if n = 0 then [0] else (Nat.digits 10 n).reverse

theorem natText_eq (n : ℕ) : natText n = digitText (natDigits n) := by
  unfold natText natDigits digitText
  by_cases zero : n = 0
  · rw [if_pos zero, if_pos zero]
    rfl
  · rw [if_neg zero, if_neg zero]

theorem natDigits_areDigits (n : ℕ) : AreDigits (natDigits n) := by
  intro digit member
  unfold natDigits at member
  split at member
  · rw [List.mem_singleton.mp member]
    decide
  · exact Nat.digits_lt_base (by decide) (List.mem_reverse.mp member)

theorem natDigits_ne_nil (n : ℕ) : natDigits n ≠ [] := by
  unfold natDigits
  split
  · nofun
  · rename_i some_
    exact fun empty => some_ (Nat.digits_eq_nil_iff_eq_zero.mp (List.reverse_eq_nil_iff.mp empty))

theorem natDigits_value (n : ℕ) : digitsValue (natDigits n) 0 = n := by
  unfold digitsValue natDigits
  split
  · rename_i zero
    rw [zero]
    rfl
  · rw [List.foldl_reverse]
    have folded := Nat.ofDigits_eq_foldr 10 (Nat.digits 10 n)
    rw [Nat.ofDigits_digits] at folded
    simpa only [Nat.cast_id, Nat.add_comm, Nat.mul_comm] using folded.symm

theorem digitsValue_le (digits : List ℕ) (start : ℕ) : start ≤ digitsValue digits start := by
  induction digits generalizing start with
  | nil => exact Nat.le_refl start
  | cons digit digits ih =>
      have next := ih (start * 10 + digit)
      show start ≤ digitsValue digits (start * 10 + digit)
      omega

theorem digitsValue_zeros (count : ℕ) (digits : List ℕ) :
    digitsValue (List.replicate count 0 ++ digits) 0 = digitsValue digits 0 := by
  induction count with
  | zero => rfl
  | succ count ih => exact ih

theorem digit_byte {digit : ℕ} (small : digit < 10) :
    (UInt8.ofNat (48 + digit)).toNat = 48 + digit := by
  rw [UInt8.toNat_ofNat']
  omega

theorem readUnits_digits {digits : List ℕ} (areDigits : AreDigits digits) {start : ℕ}
    (safe : (digitsValue digits start : ℤ) ≤ SAFE) :
    readUnits (digitText digits) start = .ok (digitsValue digits start : ℚ) := by
  induction digits generalizing start with
  | nil => rfl
  | cons digit digits ih =>
      have small := areDigits digit List.mem_cons_self
      have rest : AreDigits digits := fun each member =>
        areDigits each (List.mem_cons_of_mem _ member)
      have next : (start : ℚ) * 10 + (((UInt8.ofNat (48 + digit)).toNat : ℚ) - 48) =
          ((start * 10 + digit : ℕ) : ℚ) := by
        rw [digit_byte small]
        push_cast
        ring
      have below := digitsValue_le digits (start * 10 + digit)
      have within : |((start * 10 + digit : ℕ) : ℚ)| ≤ SAFE := by
        rw [abs_of_nonneg (Nat.cast_nonneg _)]
        have whole : ((start * 10 + digit : ℕ) : ℤ) ≤ SAFE :=
          le_trans (by exact_mod_cast below) safe
        exact_mod_cast whole
      show (guard _ >>= fun _ => readUnits (digitText digits) _) = _
      rw [next, guard_passes within]
      exact ih rest safe

/-! ### Reading the text back -/

theorem digitText_plain {digits : List ℕ} (areDigits : AreDigits digits) :
    ∀ c ∈ digitText digits, 48 ≤ c.toNat ∧ c.toNat ≤ 57 := by
  intro c member
  obtain ⟨digit, inside, same⟩ := List.mem_map.mp member
  have small := areDigits digit inside
  rw [← same, digit_byte small]
  omega

theorem isDigits_digitText {digits : List ℕ} (areDigits : AreDigits digits) (some_ : digits ≠ []) :
    isDigits (digitText digits) = true := by
  have text : digitText digits ≠ [] := fun empty => some_ (List.map_eq_nil_iff.mp empty)
  unfold isDigits
  rw [Bool.and_eq_true, decide_eq_true_eq, List.all_eq_true]
  refine ⟨text, fun c member => ?_⟩
  obtain ⟨low, high⟩ := digitText_plain areDigits c member
  rw [Bool.and_eq_true, decide_eq_true_eq, decide_eq_true_eq]
  exact ⟨UInt8.le_iff_toNat_le.mpr low, UInt8.le_iff_toNat_le.mpr high⟩

theorem trim_plain {text : List UInt8} (plain : ∀ c ∈ text, isSpace c = false) :
    trim text = text := by
  have keep : ∀ bytes : List UInt8, (∀ c ∈ bytes, isSpace c = false) →
      bytes.dropWhile isSpace = bytes := by
    intro bytes all
    cases bytes with
    | nil => rfl
    | cons c rest => exact List.dropWhile_cons_of_neg (by simp [all c List.mem_cons_self])
  unfold trim
  rw [keep text plain, keep text.reverse (fun c member => plain c (List.mem_reverse.mp member)),
    List.reverse_reverse]

theorem isSpace_digit {c : UInt8} (digit : 48 ≤ c.toNat ∧ c.toNat ≤ 57) : isSpace c = false := by
  have other : ∀ space : UInt8, space.toNat < 48 → c ≠ space := by
    intro space low same
    rw [same] at digit
    omega
  unfold isSpace
  simp [other]

def written (negative : Bool) (whole fraction : List ℕ) : List UInt8 :=
  (if negative then ascii "-" else []) ++ digitText whole ++
    (if fraction = [] then [] else ascii "." ++ digitText fraction)

section

variable {negative : Bool} {whole fraction : List ℕ}

theorem written_plain (wholeDigits : AreDigits whole) (fractionDigits : AreDigits fraction) :
    ∀ c ∈ written negative whole fraction, isSpace c = false := by
  intro c member
  unfold written at member
  rcases List.mem_append.mp member with front | back
  · rcases List.mem_append.mp front with sign | digit
    · split at sign
      · rw [List.mem_singleton.mp sign]
        decide
      · cases sign
    · exact isSpace_digit (digitText_plain wholeDigits c digit)
  · split at back
    · cases back
    · rcases List.mem_append.mp back with point | digit
      · rw [List.mem_singleton.mp point]
        decide
      · exact isSpace_digit (digitText_plain fractionDigits c digit)

def unsigned (whole fraction : List ℕ) : List UInt8 :=
  digitText whole ++ if fraction = [] then [] else '.'.toUInt8 :: digitText fraction

theorem written_eq : written negative whole fraction =
    (if negative then ['-'.toUInt8] else []) ++ unsigned whole fraction := by
  unfold written unsigned
  rw [List.append_assoc]
  rfl

theorem unsigned_head (wholeDigits : AreDigits whole) (some_ : whole ≠ []) :
    ∃ c rest, unsigned whole fraction = c :: rest ∧ 48 ≤ c.toNat := by
  cases whole with
  | nil => exact absurd rfl some_
  | cons digit digits =>
      refine ⟨UInt8.ofNat (48 + digit), _, rfl, ?_⟩
      rw [digit_byte (wholeDigits digit List.mem_cons_self)]
      omega

theorem unsigned_split (wholeDigits : AreDigits whole) :
    (unsigned whole fraction).takeWhile (fun c => c ≠ '.'.toUInt8) = digitText whole ∧
      ((unsigned whole fraction).dropWhile (fun c => c ≠ '.'.toUInt8)).tail =
        digitText fraction := by
  have noPoint : ∀ c ∈ digitText whole, decide (c ≠ '.'.toUInt8) = true := by
    intro c member
    have digit := (digitText_plain wholeDigits c member).1
    rw [decide_eq_true_eq]
    intro same
    rw [same] at digit
    exact absurd digit (by decide)
  unfold unsigned
  rw [List.takeWhile_append_of_pos noPoint, List.dropWhile_append_of_pos noPoint]
  by_cases flat : fraction = []
  · rw [if_pos flat, flat]
    exact ⟨List.append_nil _, rfl⟩
  · rw [if_neg flat, List.takeWhile_cons_of_neg (by simp), List.dropWhile_cons_of_neg (by simp)]
    exact ⟨List.append_nil _, rfl⟩

theorem sign_off (wholeDigits : AreDigits whole) (some_ : whole ≠ []) :
    ((written negative whole fraction).head? = some '-'.toUInt8 ↔ negative = true) ∧
      (if (written negative whole fraction).head? = some '-'.toUInt8 ∨
          (written negative whole fraction).head? = some '+'.toUInt8 then
        (written negative whole fraction).tail
      else written negative whole fraction) = unsigned whole fraction := by
  obtain ⟨c, rest, head, low⟩ := @unsigned_head whole fraction wholeDigits some_
  rw [written_eq]
  cases negative with
  | true => simp
  | false =>
      have notMinus : c ≠ '-'.toUInt8 := by
        intro same
        rw [same] at low
        exact absurd low (by decide)
      have notPlus : c ≠ '+'.toUInt8 := by
        intro same
        rw [same] at low
        exact absurd low (by decide)
      simp only [Bool.false_eq_true, if_false, List.nil_append, head, List.head?_cons,
        Option.some.injEq, notMinus, notPlus, or_self, and_self]

theorem parse_written (wholeDigits : AreDigits whole) (fractionDigits : AreDigits fraction)
    (some_ : whole ≠ []) (safe : (digitsValue (whole ++ fraction) 0 : ℤ) ≤ SAFE) :
    parse (written negative whole fraction) =
      new (if negative then -(digitsValue (whole ++ fraction) 0 : ℚ)
        else digitsValue (whole ++ fraction) 0) fraction.length := by
  obtain ⟨minus, body⟩ := @sign_off negative whole fraction wholeDigits some_
  obtain ⟨front, back⟩ := @unsigned_split whole fraction wholeDigits
  obtain ⟨c, rest, head, _⟩ := @unsigned_head whole fraction wholeDigits some_
  have text : unsigned whole fraction ≠ [] := by rw [head]; nofun
  have wholeText : digitText whole ≠ [] := fun empty => some_ (List.map_eq_nil_iff.mp empty)
  have fractionOk : ¬(digitText fraction ≠ [] ∧ isDigits (digitText fraction) = false) := by
    rintro ⟨someText, wrong⟩
    rw [isDigits_digitText fractionDigits (fun empty => someText (by rw [empty]; rfl))] at wrong
    cases wrong
  have together : digitText whole ++ digitText fraction = digitText (whole ++ fraction) :=
    (List.map_append ..).symm
  have allDigits : AreDigits (whole ++ fraction) := by
    intro digit member
    exact (List.mem_append.mp member).elim (wholeDigits digit) (fractionDigits digit)
  unfold parse
  simp only [trim_plain (written_plain wholeDigits fractionDigits), body, if_neg text, front, back,
    isDigits_digitText wholeDigits some_, Bool.true_eq_false, false_and, if_false,
    if_neg fractionOk, if_neg wholeText, together]
  have read := readUnits_digits allDigits safe
  rw [Nat.cast_zero] at read
  rw [read]
  have length : (digitText fraction).length = fraction.length := List.length_map _
  simp only [minus, length]
  rfl

end

theorem toString_eq (decimal : Decimal) :
    ∃ whole fraction, decimal.toString = written (decimal.units < 0) whole fraction ∧
      AreDigits whole ∧ AreDigits fraction ∧ whole ≠ [] ∧ fraction.length = decimal.scale ∧
      digitsValue (whole ++ fraction) 0 = decimal.units.natAbs := by
  have digits := natDigits_areDigits decimal.units.natAbs
  have value := natDigits_value decimal.units.natAbs
  unfold toString
  rw [natText_eq]
  by_cases flat : decimal.scale = 0
  · refine ⟨natDigits decimal.units.natAbs, [], ?_, digits, nofun, natDigits_ne_nil _,
      flat.symm, ?_⟩
    · rw [if_pos flat]
      unfold written
      simp
    · rw [List.append_nil, value]
  · let padding := decimal.scale + 1 - (digitText (natDigits decimal.units.natAbs)).length
    let padded := List.replicate padding 0 ++ natDigits decimal.units.natAbs
    have length : decimal.scale + 1 ≤ padded.length := by
      simp only [padded, padding, List.length_append, List.length_replicate, digitText,
        List.length_map]
      omega
    have text : List.replicate padding '0'.toUInt8 ++
        digitText (natDigits decimal.units.natAbs) = digitText padded := by
      simp only [padded, digitText, List.map_append, List.map_replicate]
      rfl
    have areDigits : AreDigits padded := by
      intro digit member
      cases List.mem_append.mp member with
      | inl zero =>
          rw [List.eq_of_mem_replicate zero]
          decide
      | inr inside => exact digits digit inside
    refine ⟨padded.take (padded.length - decimal.scale),
      padded.drop (padded.length - decimal.scale), ?_, fun digit member => areDigits digit (List.mem_of_mem_take member),
      fun digit member => areDigits digit (List.mem_of_mem_drop member), ?_, ?_, ?_⟩
    · rw [if_neg flat]
      simp only [padding] at text
      have places : (digitText padded).length = padded.length := List.length_map _
      have some_ : padded.drop (padded.length - decimal.scale) ≠ [] := by
        intro empty
        have short := List.drop_eq_nil_iff.mp empty
        omega
      simp only [text, places]
      unfold written
      rw [if_neg some_]
      simp only [digitText, List.map_take, List.map_drop, List.append_assoc, decide_eq_true_eq]
    · intro empty
      have short := congrArg List.length empty
      rw [List.length_take, List.length_nil] at short
      omega
    · rw [List.length_drop]
      omega
    · rw [List.take_append_drop]
      exact (digitsValue_zeros _ _).trans value

theorem parse_toString (decimal : Decimal) : parse decimal.toString = .ok decimal := by
  obtain ⟨whole, fraction, text, wholeDigits, fractionDigits, some_, length, value⟩ :=
    toString_eq decimal
  have size : ((decimal.units.natAbs : ℕ) : ℤ) = |decimal.units| := Int.natCast_natAbs _
  have safe : (digitsValue (whole ++ fraction) 0 : ℤ) ≤ SAFE := by
    rw [value, size]
    exact decimal.safe
  have units : (if decide (decimal.units < 0) then -(digitsValue (whole ++ fraction) 0 : ℚ)
      else digitsValue (whole ++ fraction) 0) = decimal.units := by
    rw [value]
    by_cases negative : decimal.units < 0
    · rw [if_pos (decide_eq_true negative), Nat.cast_natAbs, abs_of_neg negative]
      push_cast
      ring
    · rw [if_neg (by simpa using negative), Nat.cast_natAbs, abs_of_nonneg (not_lt.mp negative)]
  rw [text, parse_written wholeDigits fractionDigits some_ safe, units, length]
  exact new_of decimal.units decimal.scale decimal.safe

end Decimal

end CScript
