import JsonSql.Calendar.Moment
import Mathlib.Tactic.IntervalCases

set_option autoImplicit false

/-!
# Days by number

The numbering of days is one to one: every integer is the number of one day of the calendar, which
is found by it (`Date.dayNumber_ofDayNumber`, `Date.Valid.ofDayNumber_dayNumber`).  Both directions
count in cycles of four hundred years, and in years that begin with March, so that a leap day is the
last day of its year.
-/

namespace JsonSql.Calendar

/-! ## Years of a cycle -/

/-- The days of a cycle of four hundred years before one of its years. -/
def daysBeforeYear (year : Int) : Int := year * 365 + year / 4 - year / 100

/-- A year of a cycle and a day of it, both counted from zero.  A year has a day more if the next
one is a leap year, since it ends with February. -/
structure IsDayOfCycle (year day : Int) : Prop where
  year_nonneg : 0 ≤ year
  year_lt : year < 400
  day_nonneg : 0 ≤ day
  day_le : day ≤ 365
  leap : day = 365 → isLeapYear (year + 1) = true

theorem isLeapYear_iff (year : Int) :
    isLeapYear year = true ↔ year % 4 = 0 ∧ (year % 100 ≠ 0 ∨ year % 400 = 0) := by
  simp [isLeapYear]

/-- The year of a day of a cycle, from which the leap days before it are taken off. -/
def yearOfCycle (day : Int) : Int :=
  (day - day / 1460 + day / 36524 - day / 146096) / 365

theorem IsDayOfCycle.bounds {year day : Int} (h : IsDayOfCycle year day) :
    0 ≤ daysBeforeYear year + day ∧ daysBeforeYear year + day ≤ 146096 := by
  obtain ⟨hnonneg, hlt, hday, hle, -⟩ := h
  unfold daysBeforeYear
  omega

theorem IsDayOfCycle.yearOfCycle_eq {year day : Int} (h : IsDayOfCycle year day) :
    yearOfCycle (daysBeforeYear year + day) = year := by
  obtain ⟨hnonneg, hlt, hday, hle, hleap⟩ := h
  rw [isLeapYear_iff] at hleap
  -- centuries, groups of four years in a century, and years of a group
  obtain ⟨q, s, t, rfl, hq, hs, ht, hq', hs', ht'⟩ : ∃ q s t : Int, year = 100 * q + 4 * s + t ∧
      0 ≤ q ∧ 0 ≤ s ∧ 0 ≤ t ∧ q < 4 ∧ s < 25 ∧ t < 4 :=
    ⟨year / 100, year % 100 / 4, year % 4, by omega, by omega, by omega, by omega, by omega,
      by omega, by omega⟩
  have hcount : daysBeforeYear (100 * q + 4 * s + t) + day =
      36524 * q + 1461 * s + 365 * t + day := by
    unfold daysBeforeYear
    omega
  rw [hcount, yearOfCycle]
  generalize hc : 36524 * q + 1461 * s + 365 * t + day = c
  have hlast : 1461 * s + 365 * t + day ≤ 36523 ∨ 1461 * s + 365 * t + day = 36524 ∧ q = 3 := by
    by_cases hday : day = 365
    · have := hleap hday
      omega
    · omega
  have hcenturies : c / 36524 - c / 146096 = q := by
    rcases hlast with hshort | ⟨hfull, rfl⟩
    · have hcentury : c / 36524 = q := by omega
      have hcycle : c / 146096 = 0 := by omega
      omega
    · omega
  have hgroups : c / 1460 = 25 * q + s + if 1460 ≤ 24 * q + s + 365 * t + day then 1 else 0 := by
    split <;> omega
  split at hgroups <;> omega

theorem exists_isDayOfCycle {c : Int} (h : 0 ≤ c) (h' : c ≤ 146096) :
    ∃ year day, IsDayOfCycle year day ∧ daysBeforeYear year + day = c := by
  obtain ⟨q, e, hc, hq, hq', he, he', hlast⟩ : ∃ q e : Int, c = 36524 * q + e ∧ 0 ≤ q ∧ q < 4 ∧
      0 ≤ e ∧ e ≤ 36524 ∧ (e = 36524 → q = 3) := by
    refine ⟨min (c / 36524) 3, c - 36524 * min (c / 36524) 3, by omega, by omega, by omega,
      by omega, by omega, by omega⟩
  obtain ⟨t, day, hf, ht, ht', hd, hd', hlong⟩ : ∃ t day : Int, e % 1461 = 365 * t + day ∧ 0 ≤ t ∧
      t < 4 ∧ 0 ≤ day ∧ day ≤ 365 ∧ (day = 365 → t = 3) := by
    refine ⟨min (e % 1461 / 365) 3, e % 1461 - 365 * min (e % 1461 / 365) 3, by omega, by omega,
      by omega, by omega, by omega, by omega⟩
  refine ⟨100 * q + 4 * (e / 1461) + t, day, ⟨by omega, by omega, hd, hd', fun hday => ?_⟩, ?_⟩
  · rw [isLeapYear_iff]
    omega
  · have hyear : (100 * q + 4 * (e / 1461) + t) / 4 = 25 * q + e / 1461 ∧
        (100 * q + 4 * (e / 1461) + t) / 100 = q := by
      omega
    rw [daysBeforeYear, hyear.1, hyear.2]
    omega


/-! ## Months -/

/-- A date by a year that begins in March, a month of it, of which March is number zero, and a day
of the month. -/
def Date.ofMarch (year : Int) (month day : Nat) : Date :=
  ⟨year + (if month < 10 then 0 else 1), if month < 10 then month + 3 else month - 9, day⟩

theorem Date.exists_ofMarch (d : Date) (h : 1 ≤ d.month ∧ d.month ≤ 12) :
    ∃ year month, month < 12 ∧ d = ofMarch year month d.day := by
  obtain ⟨year, month, day⟩ := d
  have hrange : 1 ≤ month ∧ month ≤ 12 := h
  by_cases hspring : month ≤ 2
  · refine ⟨year - 1, month + 9, by omega, ?_⟩
    simp only [ofMarch, if_neg (by omega : ¬month + 9 < 10), Date.mk.injEq, and_true]
    omega
  · refine ⟨year, month - 3, by omega, ?_⟩
    simp only [ofMarch, if_pos (by omega : month - 3 < 10), Date.mk.injEq, and_true]
    omega

/-- A day of a month, counted from one, by the year that begins in March. -/
def IsDayOfMonth (year : Int) (month day : Nat) : Prop :=
  1 ≤ day ∧ day ≤ daysInMonth (Date.ofMarch year month day).year (Date.ofMarch year month day).month

theorem daysInMonth_ofMarch (year : Int) {month : Nat} (h : month < 12) (day : Nat) :
    (daysInMonth (Date.ofMarch year month day).year (Date.ofMarch year month day).month =
      if month = 11 then (if isLeapYear (year + 1) then 29 else 28)
      else daysBeforeMonth (month + 1) - daysBeforeMonth month) := by
  interval_cases month <;> rfl

theorem isLeapYear_emod (year : Int) : isLeapYear (year % 400 + 1) = isLeapYear (year + 1) := by
  rw [Bool.eq_iff_iff, isLeapYear_iff, isLeapYear_iff]
  omega

section

variable {year : Int} {month day : Nat}

/-- The days of a month stand between the days before it and those before the next month, or the end
of the year. -/
theorem IsDayOfMonth.le (hmonth : month < 12) (h : IsDayOfMonth year month day) :
    daysBeforeMonth month + day ≤ if month = 11 then (if isLeapYear (year + 1) then 366 else 365)
      else daysBeforeMonth (month + 1) := by
  have hle := h.2
  rw [daysInMonth_ofMarch year hmonth] at hle
  unfold daysBeforeMonth at hle ⊢
  split at hle
  · next hlast =>
    subst hlast
    rw [if_pos rfl]
    split at hle
    · next hleap => rw [if_pos hleap]; omega
    · next hleap => rw [if_neg hleap]; omega
  · next hlast =>
    rw [if_neg hlast]
    omega

/-- The day of the year of a day of a month, both years beginning in March. -/
theorem IsDayOfMonth.isDayOfCycle (hmonth : month < 12) (h : IsDayOfMonth year month day) :
    IsDayOfCycle (year % 400) ((daysBeforeMonth month + day : Nat) - 1) := by
  have hle := h.le hmonth
  have hday := h.1
  have hyear : daysBeforeMonth month + day ≤ 366 ∧
      (daysBeforeMonth month + day = 366 → isLeapYear (year + 1) = true) := by
    unfold daysBeforeMonth at hle ⊢
    split at hle
    · split at hle
      · next hleap => exact ⟨hle, fun _ => hleap⟩
      · exact ⟨by omega, fun hlast => by omega⟩
    · exact ⟨by omega, fun hlast => by omega⟩
  refine ⟨by omega, by omega, by omega, by omega, fun hlast => ?_⟩
  rw [isLeapYear_emod]
  exact hyear.2 (by omega)

/-- The month of a day of the year. -/
theorem IsDayOfMonth.month_eq (hmonth : month < 12) (h : IsDayOfMonth year month day) :
    (5 * (((daysBeforeMonth month + day : Nat) : Int) - 1) + 2) / 153 = month := by
  have hle := h.le hmonth
  have hday := h.1
  unfold daysBeforeMonth at hle ⊢
  split at hle
  · split at hle <;> omega
  · omega

end

theorem exists_isDayOfMonth {year day : Int} (h : 0 ≤ day) (h' : day ≤ 365)
    (hleap : day = 365 → isLeapYear (year + 1) = true) :
    ∃ month dayOfMonth, month < 12 ∧ IsDayOfMonth year month dayOfMonth ∧
      day = (daysBeforeMonth month + dayOfMonth : Nat) - 1 := by
  obtain ⟨n, rfl⟩ := Int.eq_ofNat_of_zero_le h
  have hmonth : (5 * n + 2) / 153 < 12 := by omega
  refine ⟨(5 * n + 2) / 153, n + 1 - daysBeforeMonth ((5 * n + 2) / 153), hmonth, ⟨?_, ?_⟩, ?_⟩
  · unfold daysBeforeMonth
    omega
  · rw [daysInMonth_ofMarch year hmonth]
    split
    · split
      · unfold daysBeforeMonth
        omega
      · next hcommon =>
        have : ¬(n : Int) = 365 := mt hleap hcommon
        unfold daysBeforeMonth
        omega
    · unfold daysBeforeMonth
      omega
  · unfold daysBeforeMonth
    omega

/-! ## Numbers of dates -/

namespace Date

theorem dayNumber_ofMarch (year : Int) {month : Nat} (hmonth : month < 12) (day : Nat) :
    (ofMarch year month day).dayNumber =
      year / 400 * 146097 + (daysBeforeYear (year % 400) +
        ((daysBeforeMonth month + day : Nat) - 1)) - 719468 := by
  unfold dayNumber ofMarch daysBeforeYear
  by_cases hspring : month < 10
  · have hshift : (month + 3 + 9) % 12 = month := by omega
    simp only [if_pos hspring, if_neg (by omega : ¬month + 3 ≤ 2), hshift]
    omega
  · have hshift : (month - 9 + 9) % 12 = month := by omega
    simp only [if_neg hspring, if_pos (by omega : month - 9 ≤ 2), hshift]
    omega

/-- A day of the calendar is found by its number. -/
theorem ofDayNumber_dayNumber_ofMarch {year : Int} {month day : Nat} (hmonth : month < 12)
    (h : IsDayOfMonth year month day) :
    ofDayNumber (ofMarch year month day).dayNumber = ofMarch year month day := by
  have hcycle := h.isDayOfCycle hmonth
  have hmonthOf := h.month_eq hmonth
  have hyearOf := hcycle.yearOfCycle_eq
  obtain ⟨hlow, hhigh⟩ := hcycle.bounds
  have hday := h.1
  rw [dayNumber_ofMarch year hmonth]
  generalize hdoy : ((daysBeforeMonth month + day : Nat) : Int) - 1 = dayOfYear at *
  generalize hc : daysBeforeYear (year % 400) + dayOfYear = c at *
  have hshifted : year / 400 * 146097 + c - 719468 + 719468 = c + year / 400 * 146097 := by omega
  have hdiv : (c + year / 400 * 146097) / 146097 = year / 400 := by omega
  have hmod : (c + year / 400 * 146097) % 146097 = c := by omega
  have hrest : c - (365 * (year % 400) + year % 400 / 4 - year % 400 / 100) = dayOfYear := by
    rw [← hc, daysBeforeYear]
    omega
  have hmonthNat : ((5 * dayOfYear + 2) / 153).toNat = month := by
    rw [hmonthOf]
    rfl
  have hdayNat : dayOfYear.toNat + 1 - daysBeforeMonth month = day := by omega
  have hyear : year % 400 + year / 400 * 400 = year := by omega
  unfold yearOfCycle at hyearOf
  unfold ofDayNumber
  simp only [hshifted, hdiv, hmod, hyearOf, hrest, hmonthNat, hdayNat, hyear]
  unfold ofMarch
  by_cases hspring : month < 10
  · simp only [if_pos hspring, if_neg (by omega : ¬month + 3 ≤ 2)]
  · simp only [if_neg hspring, if_pos (by omega : month - 9 ≤ 2)]

/-- Every number is that of a day of the calendar. -/
theorem exists_dayNumber (n : Int) : ∃ year month day, month < 12 ∧ IsDayOfMonth year month day ∧
    (ofMarch year month day).dayNumber = n := by
  have hrange : 0 ≤ (n + 719468) % 146097 ∧ (n + 719468) % 146097 ≤ 146096 := by omega
  obtain ⟨yearOf, dayOfYear, hcycle, hc⟩ := exists_isDayOfCycle hrange.1 hrange.2
  have hnonneg := hcycle.year_nonneg
  have hlt := hcycle.year_lt
  have hyear : (yearOf + (n + 719468) / 146097 * 400) % 400 = yearOf ∧
      (yearOf + (n + 719468) / 146097 * 400) / 400 = (n + 719468) / 146097 := by
    omega
  have hleap : dayOfYear = 365 →
      isLeapYear (yearOf + (n + 719468) / 146097 * 400 + 1) = true := by
    intro hlast
    rw [← isLeapYear_emod, hyear.1]
    exact hcycle.leap hlast
  obtain ⟨month, day, hmonth, hday, rfl⟩ :=
    exists_isDayOfMonth hcycle.day_nonneg hcycle.day_le hleap
  refine ⟨_, month, day, hmonth, hday, ?_⟩
  rw [dayNumber_ofMarch _ hmonth, hyear.1, hyear.2, hc]
  omega

/-- A date that is found by a number has that number. -/
theorem dayNumber_ofDayNumber (n : Int) : (ofDayNumber n).dayNumber = n := by
  obtain ⟨year, month, day, hmonth, hday, rfl⟩ := exists_dayNumber n
  rw [ofDayNumber_dayNumber_ofMarch hmonth hday]

/-- What is found by a number is a day of the calendar. -/
theorem isDay_ofDayNumber (n : Int) :
    1 ≤ (ofDayNumber n).month ∧ (ofDayNumber n).month ≤ 12 ∧ 1 ≤ (ofDayNumber n).day ∧
      (ofDayNumber n).day ≤ daysInMonth (ofDayNumber n).year (ofDayNumber n).month := by
  obtain ⟨year, month, day, hmonth, hday, rfl⟩ := exists_dayNumber n
  rw [ofDayNumber_dayNumber_ofMarch hmonth hday]
  refine ⟨?_, ?_, hday⟩ <;> unfold ofMarch <;> dsimp only <;> split <;> omega

/-- A day of the calendar is found by its number. -/
theorem Valid.ofDayNumber_dayNumber {d : Date} (h : d.Valid) : ofDayNumber d.dayNumber = d := by
  obtain ⟨-, -, hfirst, hlast, hday⟩ := h
  obtain ⟨year, month, hmonth, hd⟩ := d.exists_ofMarch ⟨hfirst, hlast⟩
  have hof : IsDayOfMonth year month d.day := by
    unfold IsDayOfMonth
    rw [← hd]
    exact hday
  rw [hd]
  exact ofDayNumber_dayNumber_ofMarch hmonth hof

end Date
end JsonSql.Calendar
