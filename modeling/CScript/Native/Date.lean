/-
Instants and their calendar.

An instant is a whole number of milliseconds since 1970, for which the arithmetic
on doubles is exact.  Years, months and days are `int`s; a read outside the table
of months, and a year that is no `int`, have no answer.
-/

import CScript.Foundation.Gregorian
import CScript.Runtime.Value

namespace CScript.Dates

open Foundation.Gregorian

/-! ### The source -/

structure Parts where
  year : Int
  month : Int
  day : Int
  weekday : Int
  hour : Int
  minute : Int
  second : Int
  millisecond : Int
  deriving DecidableEq, Repr

def isLeap (year : Int) : Bool :=
  (year.tmod 4 = 0 && year.tmod 100 ≠ 0) || year.tmod 400 = 0

def MONTH_DAYS : List Int :=
  [31, 28, 31, 30, 31, 30, 31, 31, 30, 31, 30, 31]

def daysInMonth (year month : Int) : Option Int :=
  if month = 1 ∧ isLeap year then some 29
  else if month < 0 then none
  else MONTH_DAYS[month.toNat]?

/-- The divisions of C round towards zero. -/
def daysBeforeYear (year : Int) : Option Int :=
  if FitsInt (year - 1) then
    let y := year - 1
    let leaps := y.tdiv 4 - y.tdiv 100 + y.tdiv 400
    let before := y * 365 + leaps
    some (before - (1969 * 365 + 1969 / 4 - 1969 / 100 + 1969 / 400))
  else none

/-- `for (int m = 0; m < month; m++) days += daysInMonth(year, m)`. -/
def daysOfMonths (year : Int) : Nat → Option Int
  | 0 => some 0
  | month + 1 => do
      let days ← daysOfMonths year month
      let length ← daysInMonth year month
      return days + length

/-- A month below 0 makes no turn of the loop. -/
def daysFromCivil (year month day : Int) : Option Int := do
  let before ← daysBeforeYear year
  let months ← daysOfMonths year month.toNat
  return before + months + day - 1

def yearDays (year : Int) : Int :=
  if isLeap year then 366 else 365

theorem yearDays_pos (year : Int) : 0 < yearDays year := by
  unfold yearDays
  split <;> omega

/-- `while (days < 0)`. -/
def rewind (year days : Int) : Int × Int :=
  if days < 0 then rewind (year - 1) (days + yearDays (year - 1)) else (year, days)
  termination_by (-days).toNat
  decreasing_by
    have positive := yearDays_pos (year - 1)
    omega

/-- `for (;;)`: on to the year the days end in. -/
def advance (year days : Int) : Int × Int :=
  if days < yearDays year then (year, days) else advance (year + 1) (days - yearDays year)
  termination_by days.toNat
  decreasing_by
    have positive := yearDays_pos year
    omega

theorem daysInMonth_inside {year length : Int} {month : Nat}
    (inside : daysInMonth year month = some length) : month < 12 := by
  unfold daysInMonth at inside
  split at inside
  · omega
  · split at inside
    · cases inside
    · exact (List.getElem?_eq_some_iff.mp inside).1

/-- `while (days >= daysInMonth(year, month))`. -/
def findMonth (year : Int) (month : Nat) (days : Int) : Option (Nat × Int) :=
  match _inside : daysInMonth year month with
  | none => none
  | some length =>
      if length ≤ days then findMonth year (month + 1) (days - length) else some (month, days)
  termination_by 12 - month
  decreasing_by
    have below := daysInMonth_inside _inside
    omega

section

-- What local time is ahead of UTC at an instant; the C library is asked.
variable (localOffsetMs : Int → Int)

/-- A year that is no `int` is overstepped on the way to it. -/
def breakDown (ms : Int) (utc : Bool) : Option Parts := do
  let ms := if utc then ms else ms + localOffsetMs ms
  let days := ms / 86400000
  let rest := ms - days * 86400000
  let (year, days') := rewind 1970 days
  let (year, days') := advance year days'
  if ¬FitsInt year then none
  else
    let (month, days') ← findMonth year 0 days'
    let hour := rest / 3600000
    let rest := rest - hour * 3600000
    let minute := rest / 60000
    let rest := rest - minute * 60000
    let second := rest / 1000
    return {
      year := year
      month := month
      day := days' + 1
      weekday := (days.tmod 7 + 11).tmod 7
      hour := hour
      minute := minute
      second := second
      millisecond := rest - second * 1000 }

def buildMs (parts : Parts) (utc : Bool) : Option Int := do
  let days ← daysFromCivil parts.year parts.month parts.day
  let result := days * 86400000 + parts.hour * 3600000 + parts.minute * 60000 +
    parts.second * 1000 + parts.millisecond
  return if utc then result else result - localOffsetMs result

end

/-! ### The calendar -/

def epoch : Int :=
  719162

theorem isLeap_iff (year : Int) : isLeap year = true ↔ Leap year := by
  unfold isLeap Leap
  simp only [Bool.or_eq_true, Bool.and_eq_true, decide_eq_true_eq, ne_eq,
    ← Int.dvd_iff_tmod_eq_zero]

theorem yearDays_eq (year : Int) : yearDays year = yearLength year := by
  unfold yearDays yearLength
  simp only [isLeap_iff]

theorem daysInMonth_eq (year : Int) {month : Nat} (inside : month < 12) :
    daysInMonth year month = some (monthLength year month) := by
  unfold daysInMonth
  simp only [isLeap_iff]
  by_cases february : month = 1
  · rw [february]
    unfold monthLength
    by_cases leap : Leap year
    · rw [if_pos ⟨rfl, leap⟩]
      exact congrArg some (if_pos leap).symm
    · rw [if_neg (fun both => leap both.2)]
      exact congrArg some (if_neg leap).symm
  · rw [if_neg (fun both => february (by omega)), if_neg (by omega), Int.toNat_natCast]
    match month, inside, february with
    | 0, _, _ => rfl
    | 2, _, _ => rfl
    | 3, _, _ => rfl
    | 4, _, _ => rfl
    | 5, _, _ => rfl
    | 6, _, _ => rfl
    | 7, _, _ => rfl
    | 8, _, _ => rfl
    | 9, _, _ => rfl
    | 10, _, _ => rfl
    | 11, _, _ => rfl

theorem daysInMonth_outside (year : Int) {month : Nat} (outside : 12 ≤ month) :
    daysInMonth year month = none := by
  cases read : daysInMonth year month with
  | none => rfl
  | some length =>
      have inside := daysInMonth_inside read
      omega

theorem daysOfMonths_eq (year : Int) {month : Nat} (inside : month ≤ 12) :
    daysOfMonths year month = some (daysBeforeMonth year month) := by
  induction month with
  | zero => rfl
  | succ month ih =>
      rw [daysOfMonths, ih (by omega), daysInMonth_eq year inside]
      rfl

theorem daysOfMonths_outside (year : Int) {month : Nat} (outside : 12 < month) :
    daysOfMonths year month = none := by
  induction month with
  | zero => omega
  | succ month ih =>
      rw [daysOfMonths]
      by_cases last : month = 12
      · rw [last, daysOfMonths_eq year (Nat.le_refl 12), daysInMonth_outside year (Nat.le_refl 12)]
        rfl
      · rw [ih (by omega)]
        rfl

/-- A year whose days before it are counted one too many: below the year 1 the
quotients are not rounded down. -/
def Miscounted (year : Int) : Prop :=
  year ≤ 0 ∧ ¬Leap (year - 1)

instance (year : Int) : Decidable (Miscounted year) :=
  inferInstanceAs (Decidable (year ≤ 0 ∧ ¬Leap (year - 1)))

theorem leaps_above {years : Int} (low : 0 ≤ years) :
    years.tdiv 4 - years.tdiv 100 + years.tdiv 400 = years / 4 - years / 100 + years / 400 := by
  rw [Int.tdiv_eq_ediv_of_nonneg low, Int.tdiv_eq_ediv_of_nonneg low,
    Int.tdiv_eq_ediv_of_nonneg low]

theorem leaps_below {years : Int} (below : years < 0) :
    years.tdiv 4 - years.tdiv 100 + years.tdiv 400 =
      years / 4 - years / 100 + years / 400 + if Leap years then 0 else 1 := by
  have signs : Int.sign 4 = 1 ∧ Int.sign 100 = 1 ∧ Int.sign 400 = 1 := ⟨rfl, rfl, rfl⟩
  rw [Int.tdiv_eq_ediv, Int.tdiv_eq_ediv, Int.tdiv_eq_ediv, signs.1, signs.2.1, signs.2.2]
  by_cases leap : Leap years
  · rw [if_pos leap]
    unfold Leap at leap
    split <;> split <;> split <;> omega
  · rw [if_neg leap]
    unfold Leap at leap
    split <;> split <;> split <;> omega

theorem daysBeforeYear_eq (year : Int) :
    daysBeforeYear year =
      if FitsInt (year - 1) then
        some (daysBefore year - epoch + if Miscounted year then 1 else 0)
      else none := by
  unfold daysBeforeYear
  split
  · simp only [Option.some.injEq]
    unfold daysBefore epoch
    by_cases low : year ≤ 0
    · by_cases leap : Leap (year - 1)
      · rw [leaps_below (by omega), if_pos leap, if_neg (fun miscounted => miscounted.2 leap)]
        omega
      · rw [leaps_below (by omega), if_neg leap, if_pos ⟨low, leap⟩]
        omega
    · rw [leaps_above (by omega), if_neg (fun miscounted => low miscounted.1)]
      omega
  · rfl

theorem daysFromCivil_months (year : Int) {month : Nat} (inside : month ≤ 12) (day : Int) :
    daysFromCivil year month day =
      if FitsInt (year - 1) then
        some (daysBefore year + daysBeforeMonth year month + day - 1 - epoch +
          if Miscounted year then 1 else 0)
      else none := by
  unfold daysFromCivil
  rw [daysBeforeYear_eq]
  split
  · rw [Int.toNat_natCast, daysOfMonths_eq year inside]
    simp only [Option.bind_eq_bind, Option.bind_some, Option.pure_def, Option.some.injEq]
    omega
  · rfl

theorem daysFromCivil_date (date : Date) :
    daysFromCivil date.year date.month date.day =
      if FitsInt (date.year - 1) then
        some (date.number - epoch + if Miscounted date.year then 1 else 0)
      else none :=
  daysFromCivil_months date.year (Nat.le_of_lt date.monthInside) date.day

/-! ### Taking an instant apart -/

theorem rewind_spec (year days : Int) :
    daysBefore (rewind year days).1 + (rewind year days).2 = daysBefore year + days ∧
      0 ≤ (rewind year days).2 := by
  unfold rewind
  by_cases negative : days < 0
  · rw [if_pos negative]
    obtain ⟨kept, low⟩ := rewind_spec (year - 1) (days + yearDays (year - 1))
    have before := daysBefore_succ (year - 1)
    rw [Int.sub_add_cancel] at before
    rw [yearDays_eq] at kept
    refine ⟨?_, low⟩
    rw [← yearDays_eq] at kept before
    omega
  · rw [if_neg negative]
    exact ⟨rfl, by omega⟩
  termination_by (-days).toNat
  decreasing_by
    have positive := yearDays_pos (year - 1)
    omega

theorem advance_spec (year days : Int) (low : 0 ≤ days) :
    daysBefore (advance year days).1 + (advance year days).2 = daysBefore year + days ∧
      0 ≤ (advance year days).2 ∧ (advance year days).2 < yearLength (advance year days).1 := by
  unfold advance
  by_cases inside : days < yearDays year
  · rw [if_pos inside]
    rw [yearDays_eq] at inside
    exact ⟨rfl, low, inside⟩
  · rw [if_neg inside]
    obtain ⟨kept, bounds⟩ := advance_spec (year + 1) (days - yearDays year) (by omega)
    refine ⟨?_, bounds⟩
    rw [kept, daysBefore_succ, yearDays_eq]
    omega
  termination_by days.toNat
  decreasing_by
    have positive := yearDays_pos year
    omega

theorem findMonth_spec (year : Int) (month : Nat) (days : Int) (known : month ≤ 12) (low : 0 ≤ days)
    (inside : daysBeforeMonth year month + days < yearLength year) :
    ∃ found rest, findMonth year month days = some (found, rest) ∧ found < 12 ∧ 0 ≤ rest ∧
      rest < monthLength year found ∧
      daysBeforeMonth year found + rest = daysBeforeMonth year month + days := by
  have below : month < 12 := by
    by_contra last
    have twelve : month = 12 := by omega
    rw [twelve, daysBeforeMonth_twelve] at inside
    omega
  unfold findMonth
  split
  · rename_i outside
    rw [daysInMonth_eq year below] at outside
    cases outside
  · rename_i length read
    rw [daysInMonth_eq year below, Option.some.injEq] at read
    by_cases further : length ≤ days
    · rw [if_pos further]
      obtain ⟨found, rest, ran, months, first, last, kept⟩ := findMonth_spec year
        (month + 1) (days - length) below (by omega) (by rw [daysBeforeMonth]; omega)
      refine ⟨found, rest, ran, months, first, last, ?_⟩
      rw [kept, daysBeforeMonth]
      omega
    · rw [if_neg further]
      exact ⟨month, days, rfl, below, low, by omega, rfl⟩
  termination_by 12 - month

theorem weekday_eq (days : Int) : (days.tmod 7 + 11).tmod 7 = (days + 4) % 7 := by
  have first : days.tmod 7 = days % 7 - if 0 ≤ days ∨ 7 ∣ days then 0 else 7 := by
    rw [Int.tmod_eq_emod]
    split <;> rfl
  rw [Int.tmod_eq_emod_of_nonneg (by rw [first]; split <;> omega), first]
  split <;> omega

structure Shows (date : Date) (ms : Int) (parts : Parts) : Prop where
  year : parts.year = date.year
  month : parts.month = date.month
  day : parts.day = date.day
  weekday : parts.weekday = (ms / 86400000 + 4) % 7
  hour : 0 ≤ parts.hour ∧ parts.hour < 24
  minute : 0 ≤ parts.minute ∧ parts.minute < 60
  second : 0 ≤ parts.second ∧ parts.second < 60
  millisecond : 0 ≤ parts.millisecond ∧ parts.millisecond < 1000
  time : parts.hour * 3600000 + parts.minute * 60000 + parts.second * 1000 + parts.millisecond =
    ms % 86400000

theorem breakDown_date (localOffsetMs : Int → Int) (ms : Int) :
    ∃ date : Date, date.number = ms / 86400000 + epoch ∧
      if FitsInt date.year then ∃ parts, breakDown localOffsetMs ms true = some parts ∧
        Shows date ms parts
      else breakDown localOffsetMs ms true = none := by
  obtain ⟨rewound, low⟩ := rewind_spec 1970 (ms / 86400000)
  obtain ⟨advanced, first, last⟩ := advance_spec (rewind 1970 (ms / 86400000)).1 _ low
  unfold breakDown
  simp only [if_true]
  generalize rewind 1970 (ms / 86400000) = start at rewound advanced first last ⊢
  generalize advance start.1 start.2 = reached at advanced first last ⊢
  obtain ⟨month, rest, ran, months, dayFirst, dayLast, kept⟩ :=
    findMonth_spec reached.1 0 reached.2 (Nat.zero_le 12) first (by rw [daysBeforeMonth]; omega)
  rw [daysBeforeMonth] at kept
  have origin : daysBefore 1970 = epoch := rfl
  let date : Date :=
    { year := reached.1
      month := month
      day := rest + 1
      monthInside := months
      dayFirst := by omega
      dayLast := dayLast }
  refine ⟨date, ?_, ?_⟩
  · show daysBefore reached.1 + daysBeforeMonth reached.1 month + (rest + 1) - 1 = _
    omega
  · show if FitsInt reached.1 then _ else _
    by_cases fits : FitsInt reached.1
    · rw [if_pos fits]
      simp only [not_true, fits, if_false, ran]
      refine ⟨_, rfl, rfl, rfl, rfl, weekday_eq _, ?_, ?_, ?_, ?_, ?_⟩ <;> (simp only; omega)
    · rw [if_neg fits]
      simp only [if_pos fits]

/-! ### There and back -/

/-- Day `day` is taken apart into a real date, and that date is day `day`. -/
def DayReturns (localOffsetMs : Int → Int) (day : Int) : Prop :=
  ∃ parts, breakDown localOffsetMs (day * 86400000) true = some parts ∧
    (∃ date : Date, parts.year = date.year ∧ parts.month = date.month ∧ parts.day = date.day) ∧
    parts.weekday = (day + 4) % 7 ∧ daysFromCivil parts.year parts.month parts.day = some day

/-- The year is an `int`, as is the one before it, and its days are counted right. -/
def Counted (year : Int) : Prop :=
  FitsInt year ∧ FitsInt (year - 1) ∧ ¬Miscounted year

def Increases (earlier later : Date) : Prop :=
  ∃ first second, daysFromCivil earlier.year earlier.month earlier.day = some first ∧
    daysFromCivil later.year later.month later.day = some second ∧ first < second

theorem dayReturns_iff (localOffsetMs : Int → Int) (day : Int) :
    DayReturns localOffsetMs day ↔
      ∃ date : Date, date.number = day + epoch ∧ Counted date.year := by
  obtain ⟨date, number, taken⟩ := breakDown_date localOffsetMs (day * 86400000)
  rw [Int.mul_ediv_cancel day (by decide)] at number
  have back := daysFromCivil_date date
  constructor
  · rintro ⟨parts, ran, _, _, returned⟩
    refine ⟨date, number, ?_⟩
    by_cases fits : FitsInt date.year
    · rw [if_pos fits] at taken
      obtain ⟨others, ranAgain, shows_⟩ := taken
      rw [ran, Option.some.injEq] at ranAgain
      rw [ranAgain, shows_.year, shows_.month, shows_.day, back] at returned
      by_cases before : FitsInt (date.year - 1)
      · rw [if_pos before, Option.some.injEq] at returned
        refine ⟨fits, before, fun miscounted => ?_⟩
        rw [if_pos miscounted] at returned
        omega
      · rw [if_neg before] at returned
        cases returned
    · rw [if_neg fits, ran] at taken
      cases taken
  · rintro ⟨other, same, fits, before, counted⟩
    obtain rfl : other = date := Date.ext_number (same.trans number.symm)
    rw [if_pos fits] at taken
    obtain ⟨parts, ran, shows_⟩ := taken
    refine ⟨parts, ran, ⟨other, shows_.year, shows_.month, shows_.day⟩, ?_, ?_⟩
    · have weekday := shows_.weekday
      rw [Int.mul_ediv_cancel day (by decide)] at weekday
      exact weekday
    · rw [shows_.year, shows_.month, shows_.day, back, if_pos before, if_neg counted, number]
      congr 1
      omega

/-- A later date has a greater number, except where the last day of a year that
is counted one too many meets the first of one that is not. -/
theorem increases_iff {earlier later : Date} (before : earlier.Before later) :
    Increases earlier later ↔
      FitsInt (earlier.year - 1) ∧ FitsInt (later.year - 1) ∧
        ¬(later.number = earlier.number + 1 ∧ Miscounted earlier.year ∧
          ¬Miscounted later.year) := by
  have order := Date.number_lt before
  unfold Increases
  rw [daysFromCivil_date, daysFromCivil_date]
  constructor
  · rintro ⟨first, second, firstDay, secondDay, less⟩
    by_cases earlierFits : FitsInt (earlier.year - 1)
    · by_cases laterFits : FitsInt (later.year - 1)
      · rw [if_pos earlierFits, Option.some.injEq] at firstDay
        rw [if_pos laterFits, Option.some.injEq] at secondDay
        refine ⟨earlierFits, laterFits, ?_⟩
        rintro ⟨next, miscounted, counted⟩
        rw [if_pos miscounted] at firstDay
        rw [if_neg counted] at secondDay
        omega
      · rw [if_neg laterFits] at secondDay
        cases secondDay
    · rw [if_neg earlierFits] at firstDay
      cases firstDay
  · rintro ⟨earlierFits, laterFits, apart⟩
    rw [if_pos earlierFits, if_pos laterFits]
    refine ⟨_, _, rfl, rfl, ?_⟩
    by_cases miscounted : Miscounted earlier.year
    · rw [if_pos miscounted]
      by_cases counted : Miscounted later.year
      · rw [if_pos counted]
        omega
      · rw [if_neg counted]
        have further : later.number ≠ earlier.number + 1 := fun next =>
          apart ⟨next, miscounted, counted⟩
        omega
    · rw [if_neg miscounted]
      split <;> omega

/-- The days that are taken apart and put together again are those of the years
that are counted right, and between these the numbers of dates go up. -/
theorem calendar_bijection_iff (localOffsetMs : Int → Int) :
    (∀ day, DayReturns localOffsetMs day ↔
      ∃ date : Date, date.number = day + epoch ∧ Counted date.year) ∧
    ∀ earlier later : Date, earlier.Before later →
      (Increases earlier later ↔
        FitsInt (earlier.year - 1) ∧ FitsInt (later.year - 1) ∧
          ¬(later.number = earlier.number + 1 ∧ Miscounted earlier.year ∧
            ¬Miscounted later.year)) :=
  ⟨dayReturns_iff localOffsetMs, fun _ _ => increases_iff⟩

theorem calendar_bijection_iff_leapDay :
    DayReturns (fun _ => 0) 11016 ∧
      Increases ⟨2000, 1, 29, by decide, by decide, by decide⟩
        ⟨2000, 2, 1, by decide, by decide, by decide⟩ :=
  ⟨((calendar_bijection_iff fun _ => 0).1 11016).mpr
      ⟨⟨2000, 1, 29, by decide, by decide, by decide⟩, by decide, by decide, by decide, by decide⟩,
    ((calendar_bijection_iff fun _ => 0).2 ⟨2000, 1, 29, by decide, by decide, by decide⟩
      ⟨2000, 2, 1, by decide, by decide, by decide⟩ (Or.inr ⟨rfl, Or.inl (by decide)⟩)).mpr
      ⟨by decide, by decide, by decide⟩⟩

/-- The last day of the year 0 comes back as the first of the year 1. -/
theorem year_zero_miscounted : ¬∀ (localOffsetMs : Int → Int) (day : Int),
    DayReturns localOffsetMs day := by
  intro claim
  obtain ⟨date, number, _, _, counted⟩ :=
    (dayReturns_iff (fun _ => 0) (-719163)).mp (claim (fun _ => 0) (-719163))
  let last : Date := ⟨0, 11, 31, by decide, by decide, by decide⟩
  have same : date = last := Date.ext_number (by rw [number]; decide)
  rw [same] at counted
  exact counted (by decide)

end CScript.Dates
