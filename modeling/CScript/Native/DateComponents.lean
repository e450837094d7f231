/-
Dates made from components.

A month may be any `int`.  The loop over the months is the only thing that carries
one: it makes no turn below 0 and leaves the table of months beyond 12.
-/

import CScript.Native.Date

namespace CScript.Dates

open Foundation.Gregorian

/-! ### The source -/

inductive DateField where
  | year
  | month
  | day
  | weekday
  | hour
  | minute
  | second
  | millisecond
  deriving DecidableEq, Repr

def DateField.write (field : DateField) (value : Int) (parts : Parts) : Parts :=
  match field with
  | .year => { parts with year := value }
  | .month => { parts with month := value }
  | .day => { parts with day := value }
  | .hour => { parts with hour := value }
  | .minute => { parts with minute := value }
  | .second => { parts with second := value }
  | .millisecond => { parts with millisecond := value }
  | .weekday => parts

/-- `(DateField)(first + i)`, for every `i`. -/
def DateField.from (first : DateField) : List DateField :=
  [.year, .month, .day, .weekday, .hour, .minute, .second, .millisecond].dropWhile (· ≠ first)

inductive Given where
  | other
  | nan
  | number (value : Int)
  deriving DecidableEq, Repr

inductive Setting where
  | error
  | undefined
  | invalid
  | time (ms : Int)
  deriving DecidableEq, Repr

def writeFields : List (DateField × Given) → Parts → Except Setting Parts
  | [], parts => .ok parts
  | (_, .other) :: _, _ => .error .error
  | (_, .nan) :: _, _ => .error .invalid
  | (field, .number value) :: rest, parts =>
      if FitsInt value then writeFields rest (field.write value parts) else .error .undefined

def numberAt (args : List Int) (index : Nat) (fallback : Int) : Int :=
  args[index]?.getD fallback

/-- `Date.UTC`, given numbers. -/
def dateUTC (args : List Int) : Option Int := do
  let year := numberAt args 0 1970
  let month := numberAt args 1 0
  let day := numberAt args 2 1
  let hour := numberAt args 3 0
  let minute := numberAt args 4 0
  let second := numberAt args 5 0
  let milli := numberAt args 6 0
  if FitsInt year ∧ FitsInt month ∧ FitsInt day then
    let days ← daysFromCivil year month day
    return days * 86400000 + hour * 3600000 + minute * 60000 + second * 1000 + milli
  else none

section

variable (localOffsetMs : Int → Int)

/-- `new Date(y, m, …)`. -/
def dateConstruct (args : List Int) : Option Int := do
  let utc ← dateUTC args
  return utc - localOffsetMs utc

def setParts (ms : Option Int) (first : DateField) (count : Nat) (utc : Bool)
    (args : List Given) : Setting :=
  if args = [] then .error
  else
    match ms with
    | none => .invalid
    | some ms =>
        match breakDown localOffsetMs ms utc with
        | none => .undefined
        | some parts =>
            match writeFields ((first.from.take count).zip args) parts with
            | .error setting => setting
            | .ok parts =>
                match buildMs localOffsetMs parts utc with
                | none => .undefined
                | some ms => .time ms

end

/-! ### Months that are carried -/

theorem daysFromCivil_below (year day : Int) {month : Int} (below : month < 0) :
    daysFromCivil year month day = daysFromCivil year (0 : Nat) day := by
  unfold daysFromCivil
  have none_ : month.toNat = 0 := by omega
  rw [none_]
  rfl

theorem daysFromCivil_outside (year day : Int) {month : Int} (outside : 12 < month) :
    daysFromCivil year month day = none := by
  unfold daysFromCivil
  rw [daysOfMonths_outside year (show 12 < month.toNat by omega)]
  cases daysBeforeYear year <;> rfl

def Carried (year month : Int) : Prop :=
  FitsInt (year - 1) ∧ FitsInt (year + month / 12) ∧
    ((0 ≤ month ∧ month ≤ 11) ∨
      (month = 12 ∧ (Miscounted year ↔ Miscounted (year + 1))))

instance (year month : Int) : Decidable (Carried year month) :=
  inferInstanceAs (Decidable (FitsInt (year - 1) ∧ FitsInt (year + month / 12) ∧
    ((0 ≤ month ∧ month ≤ 11) ∨
      (month = 12 ∧ (Miscounted year ↔ Miscounted (year + 1))))))

def RollsOver (year month day : Int) : Prop :=
  FitsInt (year + month / 12) ∧
    ∃ first, daysFromCivil (year + month / 12) (month % 12) 1 = some first ∧
      daysFromCivil year month day = some (first + day - 1)

theorem daysFromCivil_shift {year month day count : Int}
    (counted : daysFromCivil year month day = some count) (other : Int) :
    daysFromCivil year month other = some (count + other - day) := by
  unfold daysFromCivil at counted ⊢
  cases before : daysBeforeYear year with
  | none =>
      rw [before] at counted
      cases counted
  | some days =>
      cases months : daysOfMonths year month.toNat with
      | none =>
          rw [before, months] at counted
          cases counted
      | some monthDays =>
          rw [before, months] at counted
          have sum : days + monthDays + day - 1 = count := Option.some.inj counted
          show some (days + monthDays + other - 1) = _
          congr 1
          omega

theorem rollsOver_below {year month day : Int} (below : month < 0) :
    ¬RollsOver year month day := by
  rintro ⟨_, first, carried, counted⟩
  have index : month % 12 = ((month % 12).toNat : Int) := by omega
  rw [index, daysFromCivil_months _ (by omega)] at carried
  rw [daysFromCivil_below year day below, daysFromCivil_months _ (by omega)] at counted
  by_cases fits : FitsInt (year + month / 12 - 1)
  · rw [if_pos fits, Option.some.injEq] at carried
    by_cases yearFits : FitsInt (year - 1)
    · rw [if_pos yearFits, Option.some.injEq, daysBeforeMonth] at counted
      have later := daysBefore_le (show year + month / 12 + 1 ≤ year by omega)
      have length := monthLength_low (year + month / 12) (show (month % 12).toNat < 12 by omega)
      have inside := daysBeforeMonth_le (year + month / 12)
        (show (month % 12).toNat + 1 ≤ 12 by omega)
      rw [daysBeforeMonth_twelve, daysBeforeMonth] at inside
      rw [daysBefore_succ] at later
      split at counted <;> split at carried <;> omega
    · rw [if_neg yearFits] at counted
      cases counted
  · rw [if_neg fits] at carried
    cases carried

theorem rollsOver_twelve (year day : Int) : RollsOver year 12 day ↔ Carried year 12 := by
  have carry : (12 : Int) / 12 = 1 ∧ (12 : Int) % 12 = (0 : Nat) := ⟨rfl, rfl⟩
  have twelve : (12 : Int) = (12 : Nat) := rfl
  unfold RollsOver Carried
  rw [carry.1, carry.2, daysFromCivil_months (year + 1) (by omega), Int.add_sub_cancel,
    twelve, daysFromCivil_months year (by omega), daysBeforeMonth_twelve, daysBeforeMonth,
    daysBefore_succ]
  constructor
  · rintro ⟨next, first, carried, counted⟩
    by_cases fits : FitsInt year
    · rw [if_pos fits, Option.some.injEq] at carried
      by_cases before : FitsInt (year - 1)
      · rw [if_pos before, Option.some.injEq] at counted
        refine ⟨before, next, Or.inr ⟨rfl, ?_⟩⟩
        by_cases this : Miscounted year <;> by_cases that : Miscounted (year + 1)
        · exact iff_of_true this that
        · rw [if_neg that] at carried
          rw [if_pos this] at counted
          omega
        · rw [if_pos that] at carried
          rw [if_neg this] at counted
          omega
        · exact iff_of_false this that
      · rw [if_neg before] at counted
        cases counted
    · rw [if_neg fits] at carried
      cases carried
  · rintro ⟨before, next, inside | ⟨_, alike⟩⟩
    · omega
    · have fits : FitsInt year := by
        unfold FitsInt at before next ⊢
        omega
      rw [if_pos fits, if_pos before]
      refine ⟨next, _, rfl, ?_⟩
      simp only [alike, Option.some.injEq]
      omega

theorem rollsOver_iff (year month day : Int) : RollsOver year month day ↔ Carried year month := by
  by_cases below : month < 0
  · refine iff_of_false (rollsOver_below below) ?_
    rintro ⟨_, _, inside | ⟨twelve, _⟩⟩ <;> omega
  · by_cases inside : month ≤ 11
    · have carry : month / 12 = 0 ∧ month % 12 = month := by omega
      unfold RollsOver Carried
      rw [carry.1, carry.2, Int.add_zero]
      constructor
      · rintro ⟨fits, first, counted, _⟩
        refine ⟨?_, fits, Or.inl ⟨by omega, inside⟩⟩
        obtain ⟨index, rfl⟩ := Int.eq_ofNat_of_zero_le (Int.not_lt.mp below)
        rw [daysFromCivil_months year (by omega)] at counted
        by_contra beyond
        rw [if_neg beyond] at counted
        cases counted
      · rintro ⟨before, fits, _⟩
        have counted : ∃ first, daysFromCivil year month 1 = some first := by
          obtain ⟨index, rfl⟩ := Int.eq_ofNat_of_zero_le (Int.not_lt.mp below)
          rw [daysFromCivil_months year (by omega), if_pos before]
          exact ⟨_, rfl⟩
        obtain ⟨first, counted⟩ := counted
        exact ⟨fits, first, counted, daysFromCivil_shift counted day⟩
    · by_cases twelve : month = 12
      · rw [twelve]
        exact rollsOver_twelve year day
      · refine iff_of_false ?_ ?_
        · rintro ⟨_, first, _, counted⟩
          rw [daysFromCivil_outside year day (by omega)] at counted
          cases counted
        · rintro ⟨_, _, inside | ⟨is, _⟩⟩ <;> omega

def Parts.carry (parts : Parts) : Parts :=
  { parts with
    year := parts.year + parts.month / 12
    month := parts.month % 12 }

theorem daysFromCivil_carry {year month : Int} (day : Int) (carried : Carried year month) :
    daysFromCivil (year + month / 12) (month % 12) day = daysFromCivil year month day := by
  obtain ⟨_, first, counted, carriedDays⟩ := (rollsOver_iff year month day).mpr carried
  rw [daysFromCivil_shift counted day, carriedDays]

theorem buildMs_carry (localOffsetMs : Int → Int) {parts : Parts} (utc : Bool)
    (carried : Carried parts.year parts.month) :
    buildMs localOffsetMs parts.carry utc = buildMs localOffsetMs parts utc := by
  unfold buildMs
  show (daysFromCivil (parts.year + parts.month / 12) (parts.month % 12) parts.day).bind _ = _
  rw [daysFromCivil_carry parts.day carried]
  rfl

def Writes (localOffsetMs : Int → Int) (ms : Int) (first : DateField) (count : Nat) (utc : Bool)
    (args : List Given) (parts : Parts) : Prop :=
  args ≠ [] ∧ ∃ before, breakDown localOffsetMs ms utc = some before ∧
    writeFields ((first.from.take count).zip args) before = .ok parts

def Setting.ofTime : Option Int → Setting
  | none => .undefined
  | some ms => .time ms

theorem setParts_writes {localOffsetMs : Int → Int} {ms : Int} {first : DateField} {count : Nat}
    {utc : Bool} {args : List Given} {parts : Parts}
    (writes : Writes localOffsetMs ms first count utc args parts) :
    setParts localOffsetMs (some ms) first count utc args =
      Setting.ofTime (buildMs localOffsetMs parts utc) := by
  obtain ⟨given, before, taken, written⟩ := writes
  unfold setParts
  rw [if_neg given]
  simp only [taken, written]
  cases buildMs localOffsetMs parts utc <;> rfl

/-- The arguments of `Date.UTC` that name the same month. -/
def carryArgs (args : List Int) : List Int :=
  (numberAt args 0 1970 + numberAt args 1 0 / 12) :: (numberAt args 1 0 % 12) :: args.drop 2

theorem numberAt_carryArgs (args : List Int) (index : Nat) (fallback : Int) :
    numberAt (carryArgs args) (index + 2) fallback = numberAt args (index + 2) fallback := by
  unfold numberAt carryArgs
  rw [List.getElem?_cons_succ, List.getElem?_cons_succ, List.getElem?_drop, Nat.add_comm 2 index]

theorem Carried.fits {year month : Int} (carried : Carried year month) :
    FitsInt year ∧ FitsInt month ∧ FitsInt (month % 12) := by
  obtain ⟨before, next, months⟩ := carried
  unfold FitsInt at *
  omega

/-- The parts of a time that `Date.UTC` adds to the days. -/
def timeOfArgs (args : List Int) : Int :=
  numberAt args 3 0 * 3600000 + numberAt args 4 0 * 60000 + numberAt args 5 0 * 1000 +
    numberAt args 6 0

theorem dateUTC_eq (args : List Int) :
    dateUTC args =
      if FitsInt (numberAt args 0 1970) ∧ FitsInt (numberAt args 1 0) ∧
          FitsInt (numberAt args 2 1) then
        (daysFromCivil (numberAt args 0 1970) (numberAt args 1 0) (numberAt args 2 1)).map
          (· * 86400000 + timeOfArgs args)
      else none := by
  unfold dateUTC timeOfArgs
  simp only
  split
  · cases daysFromCivil (numberAt args 0 1970) (numberAt args 1 0) (numberAt args 2 1) with
    | none => rfl
    | some days =>
        simp only [Option.bind_eq_bind, Option.bind_some, Option.pure_def, Option.map_some,
          Option.some.injEq]
        omega
  · rfl

theorem dateUTC_carryArgs (args : List Int) :
    dateUTC (carryArgs args) =
      if FitsInt (numberAt args 0 1970 + numberAt args 1 0 / 12) ∧ FitsInt (numberAt args 2 1) then
        (daysFromCivil (numberAt args 0 1970 + numberAt args 1 0 / 12) (numberAt args 1 0 % 12)
          (numberAt args 2 1)).map (· * 86400000 + timeOfArgs args)
      else none := by
  have time : timeOfArgs (carryArgs args) = timeOfArgs args := by
    unfold timeOfArgs
    rw [numberAt_carryArgs args 1, numberAt_carryArgs args 2, numberAt_carryArgs args 3,
      numberAt_carryArgs args 4]
  have month : FitsInt (numberAt args 1 0 % 12) := by
    unfold FitsInt
    omega
  rw [dateUTC_eq, time, numberAt_carryArgs args 0]
  exact if_congr (by show _ ∧ FitsInt (numberAt args 1 0 % 12) ∧ _ ↔ _; tauto) rfl rfl

/-- `Date.UTC` takes the month for the one it names. -/
def UTCCarries (args : List Int) : Prop :=
  ∃ ms, dateUTC args = some ms ∧ dateUTC (carryArgs args) = some ms

theorem utcCarries_iff (args : List Int) :
    UTCCarries args ↔
      FitsInt (numberAt args 2 1) ∧ Carried (numberAt args 0 1970) (numberAt args 1 0) := by
  unfold UTCCarries
  rw [dateUTC_carryArgs, dateUTC_eq]
  generalize numberAt args 0 1970 = year
  generalize numberAt args 1 0 = month
  generalize numberAt args 2 1 = day
  constructor
  · rintro ⟨ms, counted, carried⟩
    obtain ⟨⟨_, _, dayFits⟩, counted⟩ := Option.ite_none_right_eq_some.mp counted
    obtain ⟨⟨nextFits, _⟩, carried⟩ := Option.ite_none_right_eq_some.mp carried
    obtain ⟨days, counted, time⟩ := Option.map_eq_some_iff.mp counted
    obtain ⟨others, carried, same⟩ := Option.map_eq_some_iff.mp carried
    have equal : others = days := by omega
    refine ⟨dayFits, (rollsOver_iff year month day).mp ⟨nextFits, days - day + 1, ?_, ?_⟩⟩
    · rw [equal] at carried
      have first := daysFromCivil_shift carried 1
      rw [first]
      congr 1
      omega
    · rw [counted]
      congr 1
      omega
  · rintro ⟨dayFits, months⟩
    obtain ⟨nextFits, first, _, counted⟩ := (rollsOver_iff year month day).mpr months
    rw [if_pos ⟨months.fits.1, months.fits.2.1, dayFits⟩, if_pos ⟨nextFits, dayFits⟩,
      daysFromCivil_carry day months, counted]
    exact ⟨_, rfl, rfl⟩

/-- Months are carried exactly inside the table and, for most years, at 12; there
`Date.UTC`, the constructor and every setter carry them too. -/
theorem daysFromCivil_rollsOver_iff (localOffsetMs : Int → Int) :
    (∀ year month day, RollsOver year month day ↔ Carried year month) ∧
    (∀ args, UTCCarries args ↔
      FitsInt (numberAt args 2 1) ∧ Carried (numberAt args 0 1970) (numberAt args 1 0)) ∧
    (∀ args, Carried (numberAt args 0 1970) (numberAt args 1 0) →
      dateConstruct localOffsetMs (carryArgs args) = dateConstruct localOffsetMs args) ∧
    ∀ ms first count utc args parts, Writes localOffsetMs ms first count utc args parts →
      Carried parts.year parts.month →
      setParts localOffsetMs (some ms) first count utc args =
        Setting.ofTime (buildMs localOffsetMs parts.carry utc) := by
  refine ⟨rollsOver_iff, utcCarries_iff, ?_, ?_⟩
  · intro args carried
    unfold dateConstruct
    by_cases day : FitsInt (numberAt args 2 1)
    · obtain ⟨ms, direct, carriedMs⟩ := (utcCarries_iff args).mpr ⟨day, carried⟩
      rw [direct, carriedMs]
    · rw [dateUTC_carryArgs, dateUTC_eq, if_neg (fun fits => day fits.2),
        if_neg (fun fits => day fits.2.2)]
  · intro ms first count utc args parts writes carried
    rw [setParts_writes writes, buildMs_carry localOffsetMs utc carried]

theorem breakDown_epoch : breakDown (fun _ => 0) 0 false = some ⟨1970, 0, 1, 4, 0, 0, 0, 0⟩ := by
  have start : rewind 1970 0 = (1970, 0) := by
    unfold rewind
    rfl
  have year : advance 1970 0 = (1970, 0) := by
    unfold advance
    rfl
  have month : findMonth 1970 0 0 = some (0, 0) := by
    unfold findMonth
    rfl
  unfold breakDown
  simp only [Bool.false_eq_true, if_false, Int.add_zero, Int.zero_ediv, start, year]
  simp only [month]
  rfl

/-- `new Date(2023, 12, 31)`, and `setMonth(12)` on the first of 1970. -/
theorem daysFromCivil_rollsOver_iff_december :
    dateConstruct (fun _ => 0) [2024, 0, 31] = dateConstruct (fun _ => 0) [2023, 12, 31] ∧
      setParts (fun _ => 0) (some 0) .month 2 false [.number 12] =
        Setting.ofTime (buildMs (fun _ => 0) ⟨1971, 0, 1, 4, 0, 0, 0, 0⟩ false) := by
  have rolls := daysFromCivil_rollsOver_iff fun _ => 0
  refine ⟨rolls.2.2.1 [2023, 12, 31] (by decide), ?_⟩
  exact rolls.2.2.2 0 .month 2 false [.number 12] ⟨1970, 12, 1, 4, 0, 0, 0, 0⟩
    ⟨by decide, _, breakDown_epoch, by rfl⟩ (by decide)

/-- The month before January is January. -/
theorem month_before_january : ¬∀ year month day : Int, FitsInt year → FitsInt month →
    FitsInt day → RollsOver year month day := by
  intro claim
  exact rollsOver_below (by decide) (claim 2024 (-1) 1 (by decide) (by decide) (by decide))

end CScript.Dates
