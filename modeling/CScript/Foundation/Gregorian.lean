/-
The proleptic Gregorian calendar.

Days are numbered from the first day of the year 1, which is day 0; years run on
below 1 without a gap.  The number of a date goes up with the date.
-/

import Mathlib.Tactic.Common

namespace Foundation.Gregorian

/-! ### Years -/

def Leap (year : Int) : Prop :=
  (4 ∣ year ∧ ¬100 ∣ year) ∨ 400 ∣ year

instance (year : Int) : Decidable (Leap year) :=
  inferInstanceAs (Decidable ((4 ∣ year ∧ ¬100 ∣ year) ∨ 400 ∣ year))

def yearLength (year : Int) : Int :=
  if Leap year then 366 else 365

def daysBefore (year : Int) : Int :=
  365 * (year - 1) + (year - 1) / 4 - (year - 1) / 100 + (year - 1) / 400

theorem yearLength_bounds (year : Int) : 365 ≤ yearLength year ∧ yearLength year ≤ 366 := by
  unfold yearLength
  split <;> omega

theorem daysBefore_succ (year : Int) : daysBefore (year + 1) = daysBefore year + yearLength year := by
  unfold daysBefore yearLength
  by_cases leap : Leap year
  · rw [if_pos leap]
    unfold Leap at leap
    omega
  · rw [if_neg leap]
    unfold Leap at leap
    omega

theorem daysBefore_add (year : Int) (years : Nat) :
    daysBefore year + 365 * years ≤ daysBefore (year + years) := by
  induction years with
  | zero => simp
  | succ years ih =>
      have next := daysBefore_succ (year + years)
      have long := (yearLength_bounds (year + years)).1
      rw [Int.natCast_succ, ← Int.add_assoc, next]
      omega

theorem daysBefore_le {earlier later : Int} (order : earlier ≤ later) :
    daysBefore earlier ≤ daysBefore later := by
  obtain ⟨years, rfl⟩ := Int.le.dest order
  have further := daysBefore_add earlier years
  omega

theorem year_unique {day year other : Int} (low : daysBefore year ≤ day)
    (high : day < daysBefore (year + 1)) (otherLow : daysBefore other ≤ day)
    (otherHigh : day < daysBefore (other + 1)) : year = other := by
  rcases Int.lt_trichotomy year other with before | same | behind
  · have order := daysBefore_le (show year + 1 ≤ other from before)
    omega
  · exact same
  · have order := daysBefore_le (show other + 1 ≤ year from behind)
    omega

/-! ### Months -/

def monthLength (year : Int) : Nat → Int
  | 0 => 31
  | 1 => if Leap year then 29 else 28
  | 2 => 31
  | 3 => 30
  | 4 => 31
  | 5 => 30
  | 6 => 31
  | 7 => 31
  | 8 => 30
  | 9 => 31
  | 10 => 30
  | 11 => 31
  | _ => 0

def daysBeforeMonth (year : Int) : Nat → Int
  | 0 => 0
  | month + 1 => daysBeforeMonth year month + monthLength year month

theorem daysBeforeMonth_twelve (year : Int) : daysBeforeMonth year 12 = yearLength year := by
  simp only [daysBeforeMonth, monthLength, yearLength]
  split <;> rfl

theorem monthLength_nonneg (year : Int) (month : Nat) : 0 ≤ monthLength year month := by
  unfold monthLength
  split <;> omega

theorem monthLength_low (year : Int) {month : Nat} (inside : month < 12) :
    28 ≤ monthLength year month := by
  match month, inside with
  | 1, _ =>
      simp only [monthLength]
      split <;> omega
  | 0, _ | 2, _ | 3, _ | 4, _ | 5, _ | 6, _ | 7, _ | 8, _ | 9, _ | 10, _ | 11, _ =>
      simp only [monthLength]
      omega

theorem monthLength_high (year : Int) (month : Nat) : monthLength year month ≤ 31 := by
  unfold monthLength
  split
  case h_2 => split <;> omega
  all_goals omega

theorem daysBeforeMonth_le (year : Int) {earlier later : Nat} (order : earlier ≤ later) :
    daysBeforeMonth year earlier ≤ daysBeforeMonth year later := by
  induction order with
  | refl => exact Int.le_refl _
  | @step month order ih =>
      have length := monthLength_nonneg year month
      rw [daysBeforeMonth]
      omega

/-! ### Dates -/

structure Date where
  year : Int
  /-- Counted from 0. -/
  month : Nat
  day : Int
  monthInside : month < 12
  dayFirst : 1 ≤ day
  dayLast : day ≤ monthLength year month

namespace Date

def number (date : Date) : Int :=
  daysBefore date.year + daysBeforeMonth date.year date.month + date.day - 1

def Before (earlier later : Date) : Prop :=
  earlier.year < later.year ∨
    (earlier.year = later.year ∧
      (earlier.month < later.month ∨ (earlier.month = later.month ∧ earlier.day < later.day)))

theorem number_inside (date : Date) :
    daysBefore date.year ≤ date.number ∧ date.number < daysBefore (date.year + 1) := by
  have first := date.dayFirst
  have last := date.dayLast
  have low := daysBeforeMonth_le date.year (Nat.zero_le date.month)
  have high := daysBeforeMonth_le date.year date.monthInside
  rw [daysBeforeMonth_twelve, daysBeforeMonth] at high
  rw [daysBefore_succ]
  unfold number
  rw [daysBeforeMonth] at low
  omega

theorem number_lt {earlier later : Date} (before : earlier.Before later) :
    earlier.number < later.number := by
  have first := later.dayFirst
  have last := earlier.dayLast
  rcases before with years | ⟨sameYear, months | ⟨sameMonth, days⟩⟩
  · have order := daysBefore_le (show earlier.year + 1 ≤ later.year from years)
    have high := earlier.number_inside.2
    have low := later.number_inside.1
    omega
  · have order := daysBeforeMonth_le later.year (show earlier.month + 1 ≤ later.month from months)
    rw [daysBeforeMonth] at order
    unfold number
    rw [sameYear] at last ⊢
    omega
  · unfold number
    rw [sameYear, sameMonth]
    omega

theorem ext_number {date other : Date} (same : date.number = other.number) : date = other := by
  have inside := date.number_inside
  have otherInside := other.number_inside
  have sameYear := year_unique inside.1 inside.2 (show daysBefore other.year ≤ date.number by omega)
    (show date.number < daysBefore (other.year + 1) by omega)
  have ordered : ∀ one another : Date, one.number = another.number → one.year = another.year →
      ¬one.month < another.month ∧ (one.month = another.month → ¬one.day < another.day) := by
    intro one another equal years
    refine ⟨fun months => ?_, fun months days => ?_⟩
    · have less := number_lt (Or.inr ⟨years, Or.inl months⟩)
      omega
    · have less := number_lt (Or.inr ⟨years, Or.inr ⟨months, days⟩⟩)
      omega
  have forth := ordered date other same sameYear
  have back := ordered other date same.symm sameYear.symm
  have sameMonth : date.month = other.month := by omega
  have sameDay : date.day = other.day := by
    have up := forth.2 sameMonth
    have down := back.2 sameMonth.symm
    omega
  cases date
  cases other
  cases sameYear
  cases sameMonth
  cases sameDay
  rfl

end Date

end Foundation.Gregorian
