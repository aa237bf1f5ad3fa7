set_option autoImplicit false

/-!
# Dates, times and moments

Dates of the proleptic Gregorian calendar, times of day down to the nanosecond, and moments, which
join the two.  The sixtieth second of a minute is a leap second.  Days are numbered from the first
of January 1970.
-/

namespace JsonSql.Calendar

/-- The families of date and time values. -/
inductive DateKind where
  | date
  | time
  | dateTime
  | timestamp
  deriving DecidableEq, Repr, Inhabited

/-- A date. -/
structure Date where
  year : Int
  month : Nat
  day : Nat
  deriving DecidableEq, Repr, Inhabited

/-- A time of day. -/
structure Time where
  hour : Nat
  minute : Nat
  second : Nat
  nanosecond : Nat
  deriving DecidableEq, Repr, Inhabited

/-- A date and a time of day. -/
structure Moment where
  date : Date
  time : Time
  deriving DecidableEq, Repr, Inhabited

/-- A year with a twenty-ninth of February. -/
def isLeapYear (year : Int) : Bool :=
  year % 4 = 0 && (year % 100 ≠ 0 || year % 400 = 0)

/-- The number of days of a month. -/
def daysInMonth (year : Int) (month : Nat) : Nat :=
  match month with
  | 2 => if isLeapYear year then 29 else 28
  | 4 | 6 | 9 | 11 => 30
  | _ => 31

/-- The first and the last year that a date may lie in. -/
def yearRange : Int × Int := (-262143, 262142)

/-- A day of the calendar, in a year that a date may lie in. -/
def Date.Valid (d : Date) : Prop :=
  yearRange.1 ≤ d.year ∧ d.year ≤ yearRange.2 ∧ 1 ≤ d.month ∧ d.month ≤ 12 ∧ 1 ≤ d.day ∧
    d.day ≤ daysInMonth d.year d.month

instance (d : Date) : Decidable d.Valid :=
  inferInstanceAs (Decidable (_ ∧ _ ∧ _ ∧ _ ∧ _ ∧ _))

/-- A time of day; the second may be a leap second. -/
def Time.Valid (t : Time) : Prop :=
  t.hour < 24 ∧ t.minute < 60 ∧ t.second ≤ 60 ∧ t.nanosecond < 1000000000

instance (t : Time) : Decidable t.Valid :=
  inferInstanceAs (Decidable (_ ∧ _ ∧ _ ∧ _))

/-! ## Day numbers

Years are counted from March, so that the day that comes and goes is the last of its year, and in
cycles of four hundred years, which all have the same number of days. -/

/-- The days before a month of a year that begins in March; March is month zero. -/
def daysBeforeMonth (month : Nat) : Nat := (153 * month + 2) / 5

/-- The number of a date, counted from the first of January 1970. -/
def Date.dayNumber (d : Date) : Int :=
  let year := if d.month ≤ 2 then d.year - 1 else d.year
  let month := (d.month + 9) % 12
  let cycle := year / 400
  let yearOfCycle := year % 400
  let dayOfYear : Int := (daysBeforeMonth month + d.day : Nat) - 1
  cycle * 146097 + (yearOfCycle * 365 + yearOfCycle / 4 - yearOfCycle / 100 + dayOfYear) - 719468

/-- The date with a number. -/
def Date.ofDayNumber (n : Int) : Date :=
  let shifted := n + 719468
  let cycle := shifted / 146097
  let dayOfCycle := shifted % 146097
  let yearOfCycle :=
    (dayOfCycle - dayOfCycle / 1460 + dayOfCycle / 36524 - dayOfCycle / 146096) / 365
  let dayOfYear := dayOfCycle - (365 * yearOfCycle + yearOfCycle / 4 - yearOfCycle / 100)
  let month := ((5 * dayOfYear + 2) / 153).toNat
  let day := dayOfYear.toNat + 1 - daysBeforeMonth month
  let realMonth := if month < 10 then month + 3 else month - 9
  ⟨yearOfCycle + cycle * 400 + (if realMonth ≤ 2 then 1 else 0), realMonth, day⟩

/-- The moment so many minutes earlier. -/
def Moment.minutesEarlier (m : Moment) (minutes : Int) : Moment :=
  let total := m.date.dayNumber * 1440 + (m.time.hour * 60 + m.time.minute : Nat) - minutes
  let minuteOfDay := (total % 1440).toNat
  ⟨.ofDayNumber (total / 1440),
    { m.time with hour := minuteOfDay / 60, minute := minuteOfDay % 60 }⟩

/-- The seconds from the start of 1970 to a moment; a leap second counts as the one after it. -/
def Moment.epochSeconds (m : Moment) : Int :=
  m.date.dayNumber * 86400 + (m.time.hour * 3600 + m.time.minute * 60 + m.time.second : Nat)

/-- The whole milliseconds from the start of 1970 to a moment. -/
def Moment.epochMilliseconds (m : Moment) : Int :=
  m.epochSeconds * 1000 + (m.time.nanosecond / 1000000 : Nat)

example : Date.dayNumber ⟨1970, 1, 1⟩ = 0 := by decide
example : Date.dayNumber ⟨2024, 2, 29⟩ = 19782 := by decide
example : Date.ofDayNumber 19782 = ⟨2024, 2, 29⟩ := by decide
example : Date.ofDayNumber (Date.dayNumber ⟨-1, 12, 31⟩) = ⟨-1, 12, 31⟩ := by decide

end JsonSql.Calendar
