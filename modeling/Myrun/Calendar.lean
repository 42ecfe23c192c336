import Mathlib.Tactic.IntervalCases
import Mathlib.Tactic.Ring

namespace Myrun

/-!
# Time stamps for humans

`civil_from_epoch` turns a number of seconds into a date and a time of day.  It
counts in years that begin in March, so that the leap day is the last day of its
year, and in eras of 400 years, which all have the same number of days.

The calendar is stated separately, by its own rules: which years are leap years,
how long the months are, and how many days lie before a date.
-/

/-! ## The Gregorian calendar -/

namespace Calendar

/-- A leap year. -/
def isLeap (year : Int) : Bool :=
  year % 4 = 0 && (year % 100 ≠ 0 || year % 400 = 0)

private theorem isLeap_iff (year : Int) :
    isLeap year = true ↔
      year % 4 = 0 ∧ (year % 100 ≠ 0 ∨ year % 400 = 0) := by
  simp [isLeap]

/-- The number of days of a year. -/
def yearLength (year : Int) : Int :=
  if isLeap year then 366 else 365

/-- The number of days of a month; months count from 1. -/
def monthLength (year : Int) : Nat → Nat
  | 2 => if isLeap year then 29 else 28
  | 4 => 30
  | 6 => 30
  | 9 => 30
  | 11 => 30
  | _ => 31

/-- The days between the first days of two years. -/
def daysBetweenYears (year : Int) : Nat → Int
  | 0 => 0
  | count + 1 => daysBetweenYears year count + yearLength (year + count)

/-- The days of a year before a month. -/
def daysBeforeMonth (year : Int) : Nat → Int
  | 0 => 0
  | 1 => 0
  | month + 2 => daysBeforeMonth year (month + 1) + monthLength year (month + 1)

/-- The leap years before a year, counted from the year 1. -/
def leapYearsBefore (year : Int) : Int :=
  (year - 1) / 4 - (year - 1) / 100 + (year - 1) / 400

private theorem yearLength_eq (year : Int) :
    yearLength year = 365 + leapYearsBefore (year + 1) - leapYearsBefore year := by
  unfold yearLength isLeap leapYearsBefore
  by_cases fourth : year % 4 = 0
  · by_cases century : year % 100 = 0
    · by_cases era : year % 400 = 0
      · simp only [fourth, century, era]
        simp
        omega
      · simp [fourth, century, era]
        omega
    · simp [fourth, century]
      omega
  · simp [fourth]
    omega

/-- Leap years are all that disturbs the count of days. -/
theorem daysBetweenYears_eq
    (year : Int)
    (count : Nat) :
    daysBetweenYears year count =
      365 * count + leapYearsBefore (year + count) - leapYearsBefore year := by
  induction count with
  | zero =>
      simp [daysBetweenYears]
  | succ count inductionHypothesis =>
      have length := yearLength_eq (year + count)
      have next : year + (count + 1 : Nat) = year + count + 1 := by
        push_cast
        ring
      rw [daysBetweenYears, inductionHypothesis, length, next]
      push_cast
      ring

/-- A date and a time of day. -/
structure CivilTime where
  year : Int
  month : Nat
  day : Nat
  hour : Nat
  minute : Nat
  second : Nat
  deriving Repr, DecidableEq

/-- A date and a time of day that exist. -/
structure CivilTime.Valid (t : CivilTime) : Prop where
  month : 1 ≤ t.month ∧ t.month ≤ 12
  day : 1 ≤ t.day ∧ t.day ≤ monthLength t.year t.month
  hour : t.hour < 24
  minute : t.minute < 60
  second : t.second < 60

/-- The days from 1970-01-01 to the first day of a year; negative for the years
before 1970. -/
def daysFrom1970ToYear (year : Int) : Int :=
  if 1970 ≤ year then daysBetweenYears 1970 (year - 1970).toNat
  else -daysBetweenYears year (1970 - year).toNat

private theorem daysFrom1970ToYear_eq (year : Int) :
    daysFrom1970ToYear year =
      365 * (year - 1970) + leapYearsBefore year - leapYearsBefore 1970 := by
  unfold daysFrom1970ToYear
  split
  next notBefore =>
    have cast : ((year - 1970).toNat : Int) = year - 1970 :=
      Int.toNat_of_nonneg (by omega)
    rw [daysBetweenYears_eq, cast, show 1970 + (year - 1970) = year by ring]
  next before =>
    have cast : ((1970 - year).toNat : Int) = 1970 - year :=
      Int.toNat_of_nonneg (by omega)
    rw [daysBetweenYears_eq, cast, show year + (1970 - year) = 1970 by ring]
    ring

/-- The days from 1970-01-01 to a date; negative for the dates before it. -/
def CivilTime.daysFrom1970 (t : CivilTime) : Int :=
  daysFrom1970ToYear t.year + daysBeforeMonth t.year t.month + (t.day - 1)

/-- The seconds from 1970-01-01T00:00:00. -/
def CivilTime.secondsFrom1970 (t : CivilTime) : Int :=
  86400 * t.daysFrom1970 + 3600 * t.hour + 60 * t.minute + t.second

end Calendar

open Calendar

/-! ## Arithmetic that may overflow -/

namespace I64

/-- The value of an `i64`, unless it is out of range. -/
def checked (n : Int) : Option Int :=
  if -2 ^ 63 ≤ n ∧ n < 2 ^ 63 then some n else none

/-- `+`. -/
def add (a b : Int) : Option Int :=
  checked (a + b)

/-- `-`. -/
def sub (a b : Int) : Option Int :=
  checked (a - b)

/-- `*`. -/
def mul (a b : Int) : Option Int :=
  checked (a * b)

/-- `/`, towards zero. -/
def div (a b : Int) : Option Int :=
  checked (a.tdiv b)

/-- `%`, with the sign of the dividend. -/
def rem (a b : Int) : Option Int :=
  checked (a.tmod b)

/-- `div_euclid`. -/
def divEuclid (a b : Int) : Option Int :=
  checked (a / b)

/-- `rem_euclid`. -/
def remEuclid (a b : Int) : Option Int :=
  checked (a % b)

/-- `as u32`. -/
def asU32 (n : Int) : Nat :=
  (n % 2 ^ 32).toNat

private theorem checked_eq
    {n : Int}
    (small : -2 ^ 63 ≤ n ∧ n < 2 ^ 63) :
    checked n = some n := by
  rw [checked, if_pos small]

private theorem div_eq
    {a b : Int}
    (natural : 0 ≤ a)
    (small : -2 ^ 63 ≤ a / b ∧ a / b < 2 ^ 63) :
    div a b = some (a / b) := by
  rw [div, Int.tdiv_eq_ediv_of_nonneg natural, checked_eq small]

private theorem rem_eq
    {a b : Int}
    (natural : 0 ≤ a)
    (small : -2 ^ 63 ≤ a % b ∧ a % b < 2 ^ 63) :
    rem a b = some (a % b) := by
  rw [rem, Int.tmod_eq_emod_of_nonneg natural, checked_eq small]

private theorem bind_of_eq
    {α β : Type}
    {x : Option α}
    {value : α}
    (isValue : x = some value)
    (f : α → Option β) :
    (x >>= f) = f value := by
  rw [isValue]
  rfl

private theorem asU32_eq
    {n : Int}
    (small : 0 ≤ n ∧ n < 2 ^ 32) :
    asU32 n = n.toNat := by
  rw [asU32, Int.emod_eq_of_lt small.1 small.2]

end I64

/-! ## The conversion -/

/-- `civil_from_epoch`; none when an intermediate value overflows. -/
def civilFromEpoch (secs : Int) : Option CivilTime := do
  let days ← I64.divEuclid secs 86400
  let rem ← I64.remEuclid secs 86400
  let z ← I64.add days 719468
  let era ← I64.div (← (if z ≥ 0 then some z else I64.sub z 146096)) 146097
  let doe ← I64.sub z (← I64.mul era 146097)
  let yoe ← I64.div
    (← I64.sub
      (← I64.add (← I64.sub doe (← I64.div doe 1460)) (← I64.div doe 36524))
      (← I64.div doe 146096)) 365
  let y ← I64.add yoe (← I64.mul era 400)
  let doy ← I64.sub doe
    (← I64.sub (← I64.add (← I64.mul 365 yoe) (← I64.div yoe 4))
      (← I64.div yoe 100))
  let mp ← I64.div (← I64.add (← I64.mul 5 doy) 2) 153
  let d := I64.asU32
    (← I64.add
      (← I64.sub doy (← I64.div (← I64.add (← I64.mul 153 mp) 2) 5)) 1)
  let m := I64.asU32 (← (if mp < 10 then I64.add mp 3 else I64.sub mp 9))
  let y ← (if m ≤ 2 then I64.add y 1 else some y)
  return {
    year := y
    month := m
    day := d
    hour := I64.asU32 (← I64.div rem 3600)
    minute := I64.asU32 (← I64.div (← I64.rem rem 3600) 60)
    second := I64.asU32 (← I64.rem rem 60) }

/-! ## Years of an era -/

/-- A day of an era, counted in centuries, cycles of four years, years and
days.  The last day of the fourth year is the leap day, which the last cycle of
a century lacks unless it is the last of the era. -/
structure EraDay (doe : Int) where
  century : Int
  cycle : Int
  year : Int
  day : Int
  century_range : 0 ≤ century ∧ century ≤ 3
  cycle_range : 0 ≤ cycle ∧ cycle ≤ 24
  year_range : 0 ≤ year ∧ year ≤ 3
  day_range : 0 ≤ day ∧ day ≤ 365
  leap : day = 365 → year = 3 ∧ (cycle < 24 ∨ century = 3)
  sum : doe = 36524 * century + 1461 * cycle + 365 * year + day

/-- Every day of an era has these parts. -/
def EraDay.of (doe : Int) (inEra : 0 ≤ doe ∧ doe ≤ 146096) : EraDay doe :=
  let century := min (doe / 36524) 3
  let cycle := (doe - 36524 * century) / 1461
  let year := min ((doe - 36524 * century - 1461 * cycle) / 365) 3
  { century, cycle, year
    day := doe - 36524 * century - 1461 * cycle - 365 * year
    century_range := by omega
    cycle_range := by omega
    year_range := by omega
    day_range := by omega
    leap := by omega
    sum := by omega }

namespace EraDay

variable {doe : Int} (parts : EraDay doe)

/-- The years of the era before the day. -/
def years : Int :=
  100 * parts.century + 4 * parts.cycle + parts.year

private theorem years_range : 0 ≤ parts.years ∧ parts.years ≤ 399 := by
  obtain ⟨_, _, _, _, _, _, _, _, _, _⟩ := parts
  simp only [years]
  omega

/-- The year of the era that the source computes. -/
theorem yearOfEra :
    (doe - doe / 1460 + doe / 36524 - doe / 146096) / 365 = parts.years := by
  obtain ⟨century, cycle, year, day, _, _, _, _, _, sum⟩ := parts
  have fourths : doe / 1460 = 25 * century + cycle ∨
      doe / 1460 = 25 * century + cycle + 1 ∧
        1460 ≤ 24 * century + cycle + 365 * year + day := by
    omega
  have rest : 1461 * cycle + 365 * year + day ≤ 36523 ∨
      doe = 146096 ∧ century = 3 := by
    omega
  have hundreds : doe / 36524 = century + doe / 146096 := by
    rcases rest with before | ⟨last, third⟩
    · have none : doe / 146096 = 0 := by
        omega
      omega
    · have one : doe / 146096 = 1 := by
        omega
      omega
  simp only [years]
  omega

/-- The day of the year that the source computes. -/
theorem dayOfYear :
    doe - (365 * parts.years + parts.years / 4 - parts.years / 100) =
      parts.day := by
  obtain ⟨century, cycle, year, day, _, _, _, _, _, sum⟩ := parts
  simp only [years]
  have fourths : (100 * century + 4 * cycle + year) / 4 = 25 * century + cycle := by
    omega
  have hundreds : (100 * century + 4 * cycle + year) / 100 = century := by
    omega
  omega

end EraDay

/-- The month of a day of a year that begins in March. -/
def monthOf (doy : Int) : Int :=
  let mp := (5 * doy + 2) / 153
  if mp < 10 then mp + 3 else mp - 9

/-- The day of the month of a day of a year that begins in March. -/
def dayOf (doy : Int) : Int :=
  doy - (153 * ((5 * doy + 2) / 153) + 2) / 5 + 1

private theorem monthOf_range
    {doy : Int}
    (inYear : 0 ≤ doy ∧ doy ≤ 365) :
    1 ≤ monthOf doy ∧ monthOf doy ≤ 12 := by
  obtain ⟨low, high⟩ := inYear
  simp only [monthOf]
  split <;> omega

private theorem dayOf_range
    {doy : Int}
    (inYear : 0 ≤ doy ∧ doy ≤ 365) :
    1 ≤ dayOf doy ∧ dayOf doy ≤ 31 := by
  obtain ⟨low, high⟩ := inYear
  unfold dayOf
  omega

/-! ## Evaluation without overflow -/

section Evaluation

variable {α : Type} {doe doy : Int}

private theorem eval_years
    (inEra : 0 ≤ doe ∧ doe ≤ 146096)
    (parts : EraDay doe)
    (f : Int → Option α) :
    (do
      let a ← I64.div doe 1460
      let b ← I64.sub doe a
      let c ← I64.div doe 36524
      let d ← I64.add b c
      let e ← I64.div doe 146096
      let days ← I64.sub d e
      let yoe ← I64.div days 365
      f yoe) = f parts.years := by
  obtain ⟨low, high⟩ := inEra
  have natural : 0 ≤ doe - doe / 1460 + doe / 36524 - doe / 146096 := by
    omega
  refine (I64.bind_of_eq (I64.div_eq low (by omega)) _).trans ?_
  refine (I64.bind_of_eq (I64.checked_eq (by omega)) _).trans ?_
  refine (I64.bind_of_eq (I64.div_eq low (by omega)) _).trans ?_
  refine (I64.bind_of_eq (I64.checked_eq (by omega)) _).trans ?_
  refine (I64.bind_of_eq (I64.div_eq low (by omega)) _).trans ?_
  refine (I64.bind_of_eq (I64.checked_eq (by omega)) _).trans ?_
  refine (I64.bind_of_eq (I64.div_eq natural (by omega)) _).trans ?_
  rw [parts.yearOfEra]

private theorem eval_dayOfYear
    (inEra : 0 ≤ doe ∧ doe ≤ 146096)
    (parts : EraDay doe)
    (f : Int → Option α) :
    (do
      let a ← I64.mul 365 parts.years
      let b ← I64.div parts.years 4
      let c ← I64.add a b
      let d ← I64.div parts.years 100
      let before ← I64.sub c d
      let doy ← I64.sub doe before
      f doy) = f parts.day := by
  obtain ⟨low, high⟩ := parts.years_range
  refine (I64.bind_of_eq (I64.checked_eq (by omega)) _).trans ?_
  refine (I64.bind_of_eq (I64.div_eq low (by omega)) _).trans ?_
  refine (I64.bind_of_eq (I64.checked_eq (by omega)) _).trans ?_
  refine (I64.bind_of_eq (I64.div_eq low (by omega)) _).trans ?_
  refine (I64.bind_of_eq (I64.checked_eq (by omega)) _).trans ?_
  refine (I64.bind_of_eq (I64.checked_eq (by omega)) _).trans ?_
  rw [parts.dayOfYear]

private theorem eval_day
    (inYear : 0 ≤ doy ∧ doy ≤ 365)
    (f : Int → Int → Option α) :
    (do
      let a ← I64.mul 5 doy
      let b ← I64.add a 2
      let mp ← I64.div b 153
      let c ← I64.mul 153 mp
      let d ← I64.add c 2
      let e ← I64.div d 5
      let g ← I64.sub doy e
      let day ← I64.add g 1
      f mp day) = f ((5 * doy + 2) / 153) (dayOf doy) := by
  obtain ⟨low, high⟩ := inYear
  have scaled : 0 ≤ 5 * doy + 2 := by
    omega
  have months : 0 ≤ 153 * ((5 * doy + 2) / 153) + 2 := by
    omega
  refine (I64.bind_of_eq (I64.checked_eq (by omega)) _).trans ?_
  refine (I64.bind_of_eq (I64.checked_eq (by omega)) _).trans ?_
  refine (I64.bind_of_eq (I64.div_eq scaled (by omega)) _).trans ?_
  refine (I64.bind_of_eq (I64.checked_eq (by omega)) _).trans ?_
  refine (I64.bind_of_eq (I64.checked_eq (by omega)) _).trans ?_
  refine (I64.bind_of_eq (I64.div_eq months (by omega)) _).trans ?_
  refine (I64.bind_of_eq (I64.checked_eq (by omega)) _).trans ?_
  refine (I64.bind_of_eq (I64.checked_eq (by omega)) _).trans ?_
  rfl

private theorem eval_month
    (inYear : 0 ≤ doy ∧ doy ≤ 365) :
    (if (5 * doy + 2) / 153 < 10 then I64.add ((5 * doy + 2) / 153) 3
      else I64.sub ((5 * doy + 2) / 153) 9) = some (monthOf doy) := by
  obtain ⟨low, high⟩ := inYear
  simp only [monthOf, I64.add, I64.sub]
  split <;> rw [I64.checked_eq (by omega)]

private theorem eval_year
    {year era month : Int}
    (yearRange : 0 ≤ year ∧ year ≤ 399)
    (eraRange : 0 ≤ era ∧ era < 2 ^ 40) :
    (if (I64.asU32 month) ≤ 2 then I64.add (year + era * 400) 1
      else some (year + era * 400)) =
        some (400 * era + year + if I64.asU32 month ≤ 2 then 1 else 0) := by
  split
  · rw [I64.add, I64.checked_eq (by omega)]
    congr 1
    ring
  · congr 1
    ring

private theorem eval_time
    {rem : Int}
    (inDay : 0 ≤ rem ∧ rem < 86400)
    (f : Int → Int → Int → Option α) :
    (do
      let hour ← I64.div rem 3600
      let a ← I64.rem rem 3600
      let minute ← I64.div a 60
      let second ← I64.rem rem 60
      f hour minute second) = f (rem / 3600) (rem % 3600 / 60) (rem % 60) := by
  obtain ⟨low, high⟩ := inDay
  have inHour : 0 ≤ rem % 3600 := by
    omega
  refine (I64.bind_of_eq (I64.div_eq low (by omega)) _).trans ?_
  refine (I64.bind_of_eq (I64.rem_eq low (by omega)) _).trans ?_
  refine (I64.bind_of_eq (I64.div_eq inHour (by omega)) _).trans ?_
  refine (I64.bind_of_eq (I64.rem_eq low (by omega)) _).trans ?_
  rfl

end Evaluation

/-- Nothing overflows, and the result in plain arithmetic. -/
theorem civilFromEpoch_eq
    {secs era doe : Int}
    (range : 0 ≤ secs ∧ secs < 2 ^ 62)
    (split : secs / 86400 + 719468 = 146097 * era + doe)
    (inEra : 0 ≤ doe ∧ doe ≤ 146096)
    (parts : EraDay doe) :
    civilFromEpoch secs = some {
      year := 400 * era + parts.years + if monthOf parts.day ≤ 2 then 1 else 0
      month := (monthOf parts.day).toNat
      day := (dayOf parts.day).toNat
      hour := (secs % 86400 / 3600).toNat
      minute := (secs % 86400 % 3600 / 60).toNat
      second := (secs % 86400 % 60).toNat } := by
  have eraRange : 0 ≤ era ∧ era < 2 ^ 40 := by
    omega
  have eraEq : (secs / 86400 + 719468) / 146097 = era := by
    omega
  have doeEq : secs / 86400 + 719468 - era * 146097 = doe := by
    omega
  have natural : 0 ≤ secs / 86400 + 719468 := by
    omega
  have inDay : 0 ≤ secs % 86400 ∧ secs % 86400 < 86400 := by
    omega
  obtain ⟨yearsLow, yearsHigh⟩ := parts.years_range
  obtain ⟨monthLow, monthHigh⟩ := monthOf_range parts.day_range
  obtain ⟨dayLow, dayHigh⟩ := dayOf_range parts.day_range
  unfold civilFromEpoch
  refine (I64.bind_of_eq (I64.checked_eq (by omega)) _).trans ?_
  refine (I64.bind_of_eq (I64.checked_eq (by omega)) _).trans ?_
  refine (I64.bind_of_eq (I64.checked_eq (by omega)) _).trans ?_
  refine (I64.bind_of_eq (if_pos natural) _).trans ?_
  refine (I64.bind_of_eq (I64.div_eq natural (by omega)) _).trans ?_
  rw [eraEq]
  refine (I64.bind_of_eq (I64.checked_eq (by omega)) _).trans ?_
  refine (I64.bind_of_eq (I64.checked_eq (by omega)) _).trans ?_
  rw [doeEq]
  refine (eval_years inEra parts _).trans ?_
  refine (I64.bind_of_eq (I64.checked_eq (by omega)) _).trans ?_
  refine (I64.bind_of_eq (I64.checked_eq (by omega)) _).trans ?_
  refine (eval_dayOfYear inEra parts _).trans ?_
  refine (eval_day parts.day_range _).trans ?_
  refine (I64.bind_of_eq (eval_month parts.day_range) _).trans ?_
  refine (I64.bind_of_eq
    (eval_year parts.years_range eraRange) _).trans ?_
  refine (eval_time inDay _).trans ?_
  have month : I64.asU32 (monthOf parts.day) = (monthOf parts.day).toNat :=
    I64.asU32_eq (by omega)
  have early : ((monthOf parts.day).toNat ≤ 2) = (monthOf parts.day ≤ 2) :=
    propext (by omega)
  simp only [month, early]
  rw [I64.asU32_eq (by omega), I64.asU32_eq (by omega),
    I64.asU32_eq (by omega), I64.asU32_eq (by omega)]
  rfl

/-! ## The date is the right one -/

/-- The days of an era before a day, by the years before it. -/
theorem EraDay.sum_years
    {doe : Int}
    (parts : EraDay doe)
    (era : Int) :
    146097 * era + doe =
      365 * (400 * era + parts.years) +
        leapYearsBefore (400 * era + parts.years + 1) + parts.day := by
  obtain ⟨century, cycle, year, day, _, _, _, _, _, sum⟩ := parts
  simp only [years, leapYearsBefore]
  have fourths : (400 * era + (100 * century + 4 * cycle + year) + 1 - 1) / 4 =
      100 * era + 25 * century + cycle := by
    omega
  have hundreds :
      (400 * era + (100 * century + 4 * cycle + year) + 1 - 1) / 100 =
        4 * era + century := by
    omega
  have eras : (400 * era + (100 * century + 4 * cycle + year) + 1 - 1) / 400 =
      era := by
    omega
  omega

/-- The last day of a year of 366 days is a leap day. -/
theorem EraDay.isLeap_of_last
    {doe : Int}
    (parts : EraDay doe)
    (last : parts.day = 365)
    (era : Int) :
    isLeap (400 * era + parts.years + 1) = true := by
  obtain ⟨century, cycle, year, day, _, _, _, _, leap, sum⟩ := parts
  obtain ⟨third, before⟩ := leap last
  rw [isLeap_iff]
  simp only [years]
  omega

/-- The months before a day of a year that begins in March. -/
theorem daysBeforeMonth_monthOf
    {doy : Int}
    (inYear : 0 ≤ doy ∧ doy ≤ 365)
    (year : Int) :
    daysBeforeMonth year (monthOf doy).toNat + (dayOf doy - 1) =
      if monthOf doy ≤ 2 then doy - 306
      else doy + 59 + if isLeap year then 1 else 0 := by
  obtain ⟨low, high⟩ := inYear
  obtain ⟨mp, isMonth⟩ : ∃ mp, mp = (5 * doy + 2) / 153 := ⟨_, rfl⟩
  obtain ⟨first, last⟩ : 0 ≤ mp ∧ mp ≤ 11 := by
    omega
  simp only [monthOf, dayOf, ← isMonth]
  cases leap : isLeap year <;> interval_cases mp <;>
    simp [daysBeforeMonth, monthLength, leap] <;> omega

private theorem dayOf_le_monthLength
    {doy : Int}
    (inYear : 0 ≤ doy ∧ doy ≤ 365)
    {year : Int}
    (leap : doy = 365 → isLeap year = true) :
    (dayOf doy).toNat ≤ monthLength year (monthOf doy).toNat := by
  obtain ⟨low, high⟩ := inYear
  obtain ⟨mp, isMonth⟩ : ∃ mp, mp = (5 * doy + 2) / 153 := ⟨_, rfl⟩
  obtain ⟨first, last⟩ : 0 ≤ mp ∧ mp ≤ 11 := by
    omega
  simp only [monthOf, dayOf, ← isMonth]
  cases isLeapYear : isLeap year with
  | true =>
      interval_cases mp <;> simp [monthLength, isLeapYear] <;> omega
  | false =>
      have notLast : doy ≠ 365 := by
        intro last
        rw [leap last] at isLeapYear
        cases isLeapYear
      interval_cases mp <;> simp [monthLength, isLeapYear] <;> omega

/-- What is not before 1970-01-01 lies in 1970 or later. -/
theorem year_from_1970
    {year doy : Int}
    (inYear : 0 ≤ doy ∧ doy ≤ 365)
    (notBefore : 719468 ≤ 365 * year + leapYearsBefore (year + 1) + doy) :
    1970 ≤ year + if monthOf doy ≤ 2 then 1 else 0 := by
  have late : monthOf doy ≤ 2 ↔ 306 ≤ doy := by
    simp only [monthOf]
    omega
  unfold leapYearsBefore at notBefore
  have known : 1969 ≤ year := by
    omega
  by_cases last : year = 1969
  · subst last
    rw [if_pos (late.mpr (by omega))]
    decide
  · split <;> omega

/-- A date in a year that begins in March, as a date of the calendar. -/
theorem daysFrom1970_eq
    {era doe : Int}
    (parts : EraDay doe)
    (t : CivilTime)
    (year : t.year =
      400 * era + parts.years + if monthOf parts.day ≤ 2 then 1 else 0)
    (month : t.month = (monthOf parts.day).toNat)
    (day : t.day = (dayOf parts.day).toNat) :
    t.daysFrom1970 = 146097 * era + doe - 719468 := by
  have whole := parts.sum_years era
  have months := daysBeforeMonth_monthOf parts.day_range t.year
  obtain ⟨dayLow, _⟩ := dayOf_range parts.day_range
  have dayCast : ((dayOf parts.day).toNat : Int) = dayOf parts.day :=
    Int.toNat_of_nonneg (by omega)
  have years := daysFrom1970ToYear_eq t.year
  rw [show leapYearsBefore 1970 = 477 by decide] at years
  have length := yearLength_eq t.year
  rw [CivilTime.daysFrom1970, month, day, dayCast, years]
  unfold yearLength at length
  by_cases early : monthOf parts.day ≤ 2
  · rw [if_pos early] at year months
    rw [← year] at whole
    omega
  · rw [if_neg early] at year months
    rw [add_zero] at year
    rw [← year] at whole
    cases leap : isLeap t.year with
    | true =>
        rw [leap, if_pos rfl] at length months
        omega
    | false =>
        rw [leap, if_neg Bool.false_ne_true] at length months
        omega

/--
Every millisecond stamp is converted without overflow into a date and a time of
day that exist, not before 1970, and that are as many seconds after
1970-01-01T00:00:00 as the stamp says.
-/
theorem civilFromEpoch_exact (ms : UInt64) :
    ∃ t, civilFromEpoch (ms.toNat / 1000 : Nat) = some t ∧
      t.Valid ∧ 1970 ≤ t.year ∧
        t.secondsFrom1970 = (ms.toNat / 1000 : Nat) := by
  obtain ⟨secs, isSecs⟩ : ∃ secs : Int, secs = (ms.toNat / 1000 : Nat) :=
    ⟨_, rfl⟩
  have bounded := ms.toNat_lt
  have range : 0 ≤ secs ∧ secs < 2 ^ 62 := by
    omega
  obtain ⟨era, doe, split, inEra⟩ : ∃ era doe : Int,
      secs / 86400 + 719468 = 146097 * era + doe ∧ 0 ≤ doe ∧ doe ≤ 146096 :=
    ⟨(secs / 86400 + 719468) / 146097, (secs / 86400 + 719468) % 146097,
      by omega⟩
  let parts := EraDay.of doe inEra
  have notBefore : 719468 ≤ 146097 * era + doe := by
    omega
  rw [← isSecs, civilFromEpoch_eq range split inEra parts]
  obtain ⟨monthLow, monthHigh⟩ := monthOf_range parts.day_range
  obtain ⟨dayLow, dayHigh⟩ := dayOf_range parts.day_range
  refine ⟨_, rfl, ?_, ?_, ?_⟩
  · have month : 1 ≤ (monthOf parts.day).toNat ∧
        (monthOf parts.day).toNat ≤ 12 := by
      omega
    have first : 1 ≤ (dayOf parts.day).toNat := by
      omega
    have hour : (secs % 86400 / 3600).toNat < 24 := by
      omega
    have minute : (secs % 86400 % 3600 / 60).toNat < 60 := by
      omega
    have second : (secs % 86400 % 60).toNat < 60 := by
      omega
    refine ⟨month, ⟨first, ?_⟩, hour, minute, second⟩
    refine dayOf_le_monthLength parts.day_range fun last => ?_
    have early : monthOf parts.day ≤ 2 := by
      rw [last]
      decide
    rw [if_pos early]
    exact parts.isLeap_of_last last era
  · exact year_from_1970 parts.day_range (parts.sum_years era ▸ notBefore)
  · rw [CivilTime.secondsFrom1970, daysFrom1970_eq parts, ← split]
    · dsimp only
      omega
    all_goals rfl

/-- `{:02}` and `{:04}`. -/
def padded (width : Nat) (n : Nat) : String :=
  let digits := Nat.toDigits 10 n
  String.ofList (List.replicate (width - digits.length) '0' ++ digits)

/-- `format_time`; none when the conversion overflows. -/
def formatTime (ms : UInt64) : Option String :=
  if ms = 0 then some "-"
  else do
    let t ← civilFromEpoch (ms.toNat / 1000 : Nat)
    return padded 4 t.year.toNat ++ "-" ++ padded 2 t.month ++ "-" ++
      padded 2 t.day ++ "T" ++ padded 2 t.hour ++ ":" ++ padded 2 t.minute ++
      ":" ++ padded 2 t.second ++ "Z"

example :
    formatTime 1609459200000 = some "2021-01-01T00:00:00Z" := by
  decide +kernel

end Myrun
