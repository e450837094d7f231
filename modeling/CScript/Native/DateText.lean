/-
Timestamps written down and read back.

Three formats are tried in turn.  What a failed scan leaves in the variables is
written again by the scan that succeeds, so each is read off its own scan; an
`int` that the digits overflow has no answer.
-/

import Mathlib.Data.List.TakeWhile
import CScript.Foundation.Formatted
import CScript.Native.Date

namespace CScript.Dates

open Foundation.Formatted
open Foundation.Gregorian

/-! ### The source -/

section

variable (localOffsetMs : Int → Int)

/-- `snprintf` leaves room for the last zero byte. -/
def csDateToISO (ms : Int) (size : Nat) : Option (List UInt8) := do
  let parts ← breakDown localOffsetMs ms true
  let text :=
    padded 4 parts.year ++ '-'.toUInt8 :: (padded 2 (parts.month + 1) ++
    '-'.toUInt8 :: (padded 2 parts.day ++ 'T'.toUInt8 :: (padded 2 parts.hour ++
    ':'.toUInt8 :: (padded 2 parts.minute ++ ':'.toUInt8 :: (padded 2 parts.second ++
    '.'.toUInt8 :: (padded 3 parts.millisecond ++ ['Z'.toUInt8]))))))
  return text.take (size - 1)

end

structure ISO where
  year : Int
  month : Int
  day : Int
  hour : Int
  minute : Int
  second : Int
  milli : Int
  tail : List UInt8
  deriving DecidableEq, Repr

def dateFormat : List Directive :=
  [.int, .byte '-'.toUInt8, .int, .byte '-'.toUInt8, .int]

def timeFormat : List Directive :=
  [.byte 'T'.toUInt8, .int, .byte ':'.toUInt8, .int, .byte ':'.toUInt8, .int]

def milliFormat : List Directive :=
  [.byte '.'.toUInt8, .int]

def scanISO (buffer : List UInt8) : Option (Option ISO) := do
  let longest ← scan FitsInt (dateFormat ++ (timeFormat ++ (milliFormat ++ [.count]))) buffer
  match longest with
  | ⟨[year, month, day, hour, minute, second, milli], some tail⟩ =>
      return some ⟨year, month, day, hour, minute, second, milli, tail⟩
  | _ =>
      let shorter ← scan FitsInt (dateFormat ++ (timeFormat ++ [.count])) buffer
      match shorter with
      | ⟨[year, month, day, hour, minute, second], some tail⟩ =>
          return some ⟨year, month, day, hour, minute, second, 0, tail⟩
      | _ =>
          let shortest ← scan FitsInt (dateFormat ++ [.count]) buffer
          match shortest with
          | ⟨[year, month, day], some tail⟩ => return some ⟨year, month, day, 0, 0, 0, 0, tail⟩
          | _ => return none

/-- The inner `none` is NaN. -/
def parseISO (text : List UInt8) : Option (Option Int) :=
  if text.length = 0 ∨ 64 ≤ text.length then some none
  else do
    let read ← scanISO (text.takeWhile (· ≠ 0))
    match read with
    | none => return none
    | some iso =>
        if iso.month < 1 ∨ 12 < iso.month ∨ iso.day < 1 ∨ 31 < iso.day then return none
        else if 24 < iso.hour ∨ 59 < iso.minute ∨ 60 < iso.second then return none
        else
          let days ← daysFromCivil iso.year (iso.month - 1) iso.day
          let ms := days * 86400000 + iso.hour * 3600000 + iso.minute * 60000 +
            iso.second * 1000 + iso.milli
          let tail := iso.tail.dropWhile (· = ' '.toUInt8)
          return if tail.head? = some 'Z'.toUInt8 ∨ tail = [] then some ms else none

/-! ### Timestamps -/

structure Time where
  hour : Nat
  minute : Nat
  second : Nat
  hourInside : hour < 24
  minuteInside : minute < 60
  secondInside : second < 60

def Time.ms (time : Time) : Int :=
  time.hour * 3600000 + time.minute * 60000 + time.second * 1000

/-- `YYYY-MM-DDTHH:MM:SS.fZ`. -/
def timestamp (date : Date) (time : Time) (fraction : List UInt8) : List UInt8 :=
  padded 4 date.year ++ '-'.toUInt8 :: (padded 2 (date.month + 1) ++
    '-'.toUInt8 :: (padded 2 date.day ++ 'T'.toUInt8 :: (padded 2 time.hour ++
    ':'.toUInt8 :: (padded 2 time.minute ++ ':'.toUInt8 :: (padded 2 time.second ++
    '.'.toUInt8 :: (fraction ++ ['Z'.toUInt8]))))))

theorem stops_byte {c : UInt8} (other : isdigit c = false) (rest : List UInt8) :
    Stops (c :: rest) := by
  intro head same
  rw [← Option.some.inj same]
  exact other

theorem small_fits {n : Nat} (small : n < 10000) : FitsInt n := by
  unfold FitsInt
  omega

section

variable {date : Date} {time : Time}

theorem day_small (date : Date) : date.day.toNat < 100 := by
  have last := date.dayLast
  have long := monthLength_high date.year date.month
  omega

theorem parts_nat (first : 0 ≤ date.year) :
    padded 4 date.year = padded 4 date.year.toNat ∧
      padded 2 (date.month + 1) = padded 2 (date.month + 1 : Nat) ∧
      padded 2 date.day = padded 2 date.day.toNat := by
  have dayFirst := date.dayFirst
  rw [Int.toNat_of_nonneg first, Int.toNat_of_nonneg (by omega)]
  exact ⟨rfl, rfl, rfl⟩

theorem timestamp_length (date : Date) (time : Time) (first : 0 ≤ date.year)
    (last : date.year ≤ 9999) (fraction : List UInt8) :
    (timestamp date time fraction).length = fraction.length + 21 := by
  have hour := time.hourInside
  have minute := time.minuteInside
  have second := time.secondInside
  have month := date.monthInside
  have day := day_small date
  unfold timestamp
  rw [(parts_nat first).1, (parts_nat first).2.1, (parts_nat first).2.2]
  simp only [List.length_append, List.length_cons, List.length_nil]
  rw [padded_length (by decide) (show date.year.toNat < 10 ^ 4 by omega),
    padded_length (by decide) (show date.month + 1 < 10 ^ 2 by omega),
    padded_length (by decide) (show date.day.toNat < 10 ^ 2 from day),
    padded_length (by decide) (show time.hour < 10 ^ 2 by omega),
    padded_length (by decide) (show time.minute < 10 ^ 2 by omega),
    padded_length (by decide) (show time.second < 10 ^ 2 by omega)]
  omega

theorem timestamp_plain (first : 0 ≤ date.year) {fraction : List UInt8}
    (are : ∀ c ∈ fraction, isdigit c = true) :
    (timestamp date time fraction).takeWhile (· ≠ 0) = timestamp date time fraction := by
  have plain : ∀ c : UInt8, isdigit c = true → c ≠ 0 := fun c digit =>
    digit_ne digit (by decide)
  have number : ∀ width n : Nat, ∀ c ∈ padded width n, c ≠ 0 := fun width n c member =>
    plain c ((padded_numeral width n).are c member)
  have whole : ∀ c ∈ timestamp date time fraction, c ≠ 0 := by
    unfold timestamp
    rw [(parts_nat first).1, (parts_nat first).2.1, (parts_nat first).2.2]
    simp only [List.forall_mem_append, List.forall_mem_cons]
    exact ⟨number _ _, by decide, number _ _, by decide, number _ _, by decide, number _ _,
      by decide, number _ _, by decide, number _ _, by decide,
      fun c member => plain c (are c member), by decide, by simp⟩
  exact List.takeWhile_eq_self_iff.mpr fun c member => decide_eq_true (whole c member)

theorem scanISO_timestamp (first : 0 ≤ date.year) (last : date.year ≤ 9999)
    {fraction : List UInt8} {n : Nat} (numeral : IsNumeral fraction n) :
    scanISO (timestamp date time fraction) =
      if FitsInt n then
        some (some ⟨date.year.toNat, (date.month + 1 : Nat), date.day.toNat, time.hour,
          time.minute, time.second, n, ['Z'.toUInt8]⟩)
      else none := by
  have hour := time.hourInside
  have minute := time.minuteInside
  have second := time.secondInside
  have month := date.monthInside
  have day := day_small date
  have minus : isdigit '-'.toUInt8 = false := by decide
  have colon : isdigit ':'.toUInt8 = false := by decide
  unfold scanISO timestamp dateFormat timeFormat milliFormat
  simp only [List.cons_append, List.nil_append]
  rw [(parts_nat first).1, (parts_nat first).2.1, (parts_nat first).2.2,
    scan_numeral FitsInt _ (padded_numeral 4 _) (stops_byte minus _) (small_fits (by omega)),
    scan_byte,
    scan_numeral FitsInt _ (padded_numeral 2 _) (stops_byte minus _) (small_fits (by omega)),
    scan_byte,
    scan_numeral FitsInt _ (padded_numeral 2 _) (stops_byte (by decide) _)
      (small_fits (by omega)),
    scan_byte,
    scan_numeral FitsInt _ (padded_numeral 2 _) (stops_byte colon _) (small_fits (by omega)),
    scan_byte,
    scan_numeral FitsInt _ (padded_numeral 2 _) (stops_byte colon _) (small_fits (by omega)),
    scan_byte,
    scan_numeral FitsInt _ (padded_numeral 2 _) (stops_byte (by decide) _)
      (small_fits (by omega)),
    scan_byte]
  by_cases fits : FitsInt n
  · rw [scan_numeral FitsInt _ numeral (stops_byte (by decide) _) fits, if_pos fits]
    rfl
  · rw [scan_numeral_undefined FitsInt _ numeral (stops_byte (by decide) _) fits, if_neg fits]
    rfl

def instant (date : Date) (time : Time) : Int :=
  (date.number - epoch) * 86400000 + time.ms

theorem daysFromCivil_positive (first : 1 ≤ date.year) (last : date.year ≤ 9999) :
    daysFromCivil date.year date.month date.day = some (date.number - epoch) := by
  rw [daysFromCivil_date, if_pos (by unfold FitsInt; omega),
    if_neg (fun miscounted => absurd miscounted.1 (by omega)), Int.add_zero]

theorem parseISO_timestamp (first : 1 ≤ date.year) (last : date.year ≤ 9999)
    {fraction : List UInt8} {n : Nat} (numeral : IsNumeral fraction n) :
    parseISO (timestamp date time fraction) =
      if 42 < fraction.length then some none
      else if FitsInt n then some (some (instant date time + n)) else none := by
  have length := timestamp_length date time (by omega) last fraction
  have month := date.monthInside
  have dayFirst := date.dayFirst
  have dayLast := date.dayLast
  have long := monthLength_high date.year date.month
  have hour := time.hourInside
  have minute := time.minuteInside
  have second := time.secondInside
  unfold parseISO
  by_cases large : 42 < fraction.length
  · rw [if_pos (Or.inr (by omega)), if_pos large]
  · rw [if_neg (by omega), if_neg large, timestamp_plain (by omega) numeral.are,
      scanISO_timestamp (by omega) last numeral]
    by_cases fits : FitsInt n
    · have days := daysFromCivil_positive first last
      rw [if_pos fits, if_pos fits]
      show (if _ then _ else _) = _
      rw [if_neg (by simp only; omega), if_neg (by simp only; omega)]
      have sameMonth : ((date.month + 1 : Nat) : Int) - 1 = date.month := by omega
      simp only [sameMonth, Int.toNat_of_nonneg (show 0 ≤ date.year by omega),
        Int.toNat_of_nonneg (show 0 ≤ date.day by omega), days]
      unfold instant Time.ms
      have zone : ['Z'.toUInt8].dropWhile (· = ' '.toUInt8) = ['Z'.toUInt8] := by decide
      simp only [zone, List.head?_cons, true_or, if_true, Option.bind_eq_bind, Option.bind_some,
        Option.pure_def, Option.some.injEq]
      omega
    · rw [if_neg fits, if_neg fits]
      rfl

def milliseconds (fraction : List UInt8) : Nat :=
  numeralValue fraction * 1000 / 10 ^ fraction.length

theorem shifted_eq_iff (n places : Nat) : n * 1000 / 10 ^ places = n ↔ n = 0 ∨ places = 3 := by
  match places with
  | 0 | 1 | 2 | 3 => omega
  | places + 4 =>
      refine ⟨fun same => Or.inl ?_, ?_⟩
      · have power : 10000 ≤ 10 ^ (places + 4) := by
          rw [Nat.pow_add]
          exact Nat.le_mul_of_pos_left _ (Nat.pow_pos (by decide))
        have less := Nat.div_le_div_left (a := n * 1000) power (by decide)
        omega
      · rintro (zero | three)
        · rw [zero, Nat.zero_mul, Nat.zero_div]
        · omega

theorem parseISO_reads_iff (first : 1 ≤ date.year) (last : date.year ≤ 9999)
    {fraction : List UInt8} (nonempty : fraction ≠ [])
    (are : ∀ c ∈ fraction, isdigit c = true) :
    parseISO (timestamp date time fraction) =
        some (some (instant date time + milliseconds fraction)) ↔
      fraction.length = 3 ∨ ((∀ c ∈ fraction, c = 48) ∧ fraction.length ≤ 42) := by
  rw [parseISO_timestamp first last ⟨nonempty, are, rfl⟩, ← numeralValue_eq_zero are]
  by_cases large : 42 < fraction.length
  · rw [if_pos large]
    refine ⟨nofun, ?_⟩
    rintro (three | ⟨_, short⟩) <;> omega
  · rw [if_neg large]
    by_cases fits : FitsInt (numeralValue fraction)
    · rw [if_pos fits, Option.some.injEq, Option.some.injEq, Int.add_right_inj, Int.natCast_inj,
        eq_comm, milliseconds, shifted_eq_iff]
      constructor
      · rintro (zero | three)
        · exact Or.inr ⟨zero, by omega⟩
        · exact Or.inl three
      · rintro (three | ⟨zero, _⟩)
        · exact Or.inr three
        · exact Or.inl zero
    · rw [if_neg fits]
      refine ⟨nofun, ?_⟩
      have below := numeralValue_lt are
      unfold FitsInt at fits
      rintro (three | ⟨zero, _⟩)
      · rw [three] at below
        omega
      · omega

end

/-! ### There and back -/

def FourDigits (ms : Int) : Prop :=
  -62135596800000 ≤ ms ∧ ms < 253402300800000

theorem fourDigits_year {ms : Int} (inside : FourDigits ms) {date : Date}
    (number : date.number = ms / 86400000 + epoch) : 1 ≤ date.year ∧ date.year ≤ 9999 := by
  have bounds := date.number_inside
  have origin : daysBefore 1 = 0 ∧ daysBefore 10000 = 3652059 := ⟨by decide, by decide⟩
  unfold FourDigits at inside
  unfold epoch at number
  constructor
  · by_contra early
    have order := daysBefore_le (show date.year + 1 ≤ 1 by omega)
    omega
  · by_contra late
    have order := daysBefore_le (show 10000 ≤ date.year by omega)
    omega

theorem csDateToISO_timestamp (localOffsetMs : Int → Int) {ms : Int} (inside : FourDigits ms)
    {size : Nat} (room : 25 ≤ size) :
    ∃ (date : Date) (time : Time) (milli : Nat), 1 ≤ date.year ∧ date.year ≤ 9999 ∧ milli < 1000 ∧
      instant date time + milli = ms ∧
      csDateToISO localOffsetMs ms size = some (timestamp date time (padded 3 milli)) := by
  obtain ⟨date, number, taken⟩ := breakDown_date localOffsetMs ms
  obtain ⟨first, last⟩ := fourDigits_year inside number
  rw [if_pos (by unfold FitsInt; omega)] at taken
  obtain ⟨parts, ran, shows_⟩ := taken
  have hour := shows_.hour
  have minute := shows_.minute
  have second := shows_.second
  have millisecond := shows_.millisecond
  have clock := shows_.time
  let time : Time :=
    { hour := parts.hour.toNat
      minute := parts.minute.toNat
      second := parts.second.toNat
      hourInside := by omega
      minuteInside := by omega
      secondInside := by omega }
  refine ⟨date, time, parts.millisecond.toNat, first, last, by omega, ?_, ?_⟩
  · show (date.number - epoch) * 86400000 + (((parts.hour.toNat : Nat) : Int) * 3600000 +
      (parts.minute.toNat : Nat) * 60000 + (parts.second.toNat : Nat) * 1000) +
      (parts.millisecond.toNat : Nat) = ms
    omega
  · have length := timestamp_length date time (by omega) last
      (padded 3 (parts.millisecond.toNat : Nat))
    rw [padded_length (by decide) (show parts.millisecond.toNat < 10 ^ 3 by omega)] at length
    have text : timestamp date time (padded 3 (parts.millisecond.toNat : Nat)) =
        padded 4 parts.year ++ '-'.toUInt8 :: (padded 2 (parts.month + 1) ++
          '-'.toUInt8 :: (padded 2 parts.day ++ 'T'.toUInt8 :: (padded 2 parts.hour ++
          ':'.toUInt8 :: (padded 2 parts.minute ++ ':'.toUInt8 :: (padded 2 parts.second ++
          '.'.toUInt8 :: (padded 3 parts.millisecond ++ ['Z'.toUInt8])))))) := by
      show padded 4 date.year ++ '-'.toUInt8 :: (padded 2 (date.month + 1) ++
        '-'.toUInt8 :: (padded 2 date.day ++ 'T'.toUInt8 ::
        (padded 2 ((parts.hour.toNat : Nat) : Int) ++
        ':'.toUInt8 :: (padded 2 ((parts.minute.toNat : Nat) : Int) ++
        ':'.toUInt8 :: (padded 2 ((parts.second.toNat : Nat) : Int) ++ '.'.toUInt8 ::
        (padded 3 ((parts.millisecond.toNat : Nat) : Int) ++ ['Z'.toUInt8])))))) = _
      rw [Int.toNat_of_nonneg hour.1, Int.toNat_of_nonneg minute.1, Int.toNat_of_nonneg second.1,
        Int.toNat_of_nonneg millisecond.1, shows_.year, shows_.month, shows_.day]
    unfold csDateToISO
    rw [ran]
    show some (List.take (size - 1) _) = _
    rw [← text, List.take_of_length_le (by omega)]

theorem csDateToISO_returns (localOffsetMs : Int → Int) {ms : Int} (inside : FourDigits ms)
    {size : Nat} (room : 25 ≤ size) :
    ∃ text, csDateToISO localOffsetMs ms size = some text ∧ parseISO text = some (some ms) := by
  obtain ⟨date, time, milli, first, last, small, whole, written⟩ :=
    csDateToISO_timestamp localOffsetMs inside room
  have numeral := padded_numeral 3 milli
  refine ⟨_, written, ?_⟩
  rw [parseISO_timestamp first last numeral,
    padded_length (by decide) (show milli < 10 ^ 3 by omega), if_neg (by decide),
    if_pos (small_fits (by omega)), whole]

/-- A fraction is read right if it has three digits, or is zero and is short
enough for the buffer; what is written down has three. -/
theorem parseISO_fractions_iff (localOffsetMs : Int → Int) :
    (∀ (date : Date) (time : Time) (fraction : List UInt8), 1 ≤ date.year → date.year ≤ 9999 →
      fraction ≠ [] → (∀ c ∈ fraction, isdigit c = true) →
      (parseISO (timestamp date time fraction) =
          some (some (instant date time + milliseconds fraction)) ↔
        fraction.length = 3 ∨ ((∀ c ∈ fraction, c = 48) ∧ fraction.length ≤ 42))) ∧
    ∀ ms size, FourDigits ms → 25 ≤ size →
      ∃ text, csDateToISO localOffsetMs ms size = some text ∧ parseISO text = some (some ms) :=
  ⟨fun _ _ _ first last nonempty are => parseISO_reads_iff first last nonempty are,
    fun _ _ inside room => csDateToISO_returns localOffsetMs inside room⟩

theorem parseISO_fractions_iff_noon :
    (∃ (date : Date) (time : Time), date.year = 2024 ∧ time.hour = 12 ∧
      parseISO (timestamp date time (ascii "500")) = some (some (instant date time + 500))) ∧
      ∃ text, csDateToISO (fun _ => 0) (-1) 64 = some text ∧ parseISO text = some (some (-1)) := by
  have reads := parseISO_fractions_iff fun _ => 0
  refine ⟨⟨⟨2024, 0, 31, by decide, by decide, by decide⟩,
    ⟨12, 0, 0, by decide, by decide, by decide⟩, rfl, rfl, ?_⟩, ?_⟩
  · have are : ∀ c ∈ ascii "500", isdigit c = true := List.all_eq_true.mp (by decide)
    exact (reads.1 _ _ (ascii "500") (by decide) (by decide) (by decide) are).mpr
      (Or.inl (by decide))
  · exact reads.2 (-1) 64 ⟨by decide, by decide⟩ (by decide)

/-- Half a second is read as five milliseconds. -/
theorem half_second_misread : ¬∀ (date : Date) (time : Time) (fraction : List UInt8),
    1 ≤ date.year → date.year ≤ 9999 → fraction ≠ [] → (∀ c ∈ fraction, isdigit c = true) →
    parseISO (timestamp date time fraction) =
      some (some (instant date time + milliseconds fraction)) := by
  intro claim
  have are : ∀ c ∈ ascii "5", isdigit c = true := List.all_eq_true.mp (by decide)
  have half := claim ⟨2024, 0, 31, by decide, by decide, by decide⟩
    ⟨12, 0, 0, by decide, by decide, by decide⟩ (ascii "5") (by decide) (by decide) (by decide)
    are
  rw [parseISO_reads_iff (by decide) (by decide) (by decide) are] at half
  exact absurd half (by decide)

end CScript.Dates
