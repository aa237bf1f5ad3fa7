import JsonSql.Calendar.Reader
import JsonSql.Proofs.DayNumbers

set_option autoImplicit false

/-!
# Instants

Moments as points of time: nanoseconds from the start of 1970, of which whole days, seconds and
milliseconds can be taken (`Moment.instant_floor`).  An Internet time is a moment by the clock of
its writer and how far that clock is ahead; the two give the instant (`Stamp.instant_moment`), and
two that denote one instant are read as one moment (`Stamp.moment_eq_of_instant_eq`).
-/

namespace JsonSql.Calendar

/-! ## Moments -/

/-- The nanoseconds of a second. -/
def nanosOfSecond : Nat := 1000000000

/-- The nanoseconds from the start of 1970 to a moment. -/
def Moment.instant (m : Moment) : Int := m.epochSeconds * nanosOfSecond + m.time.nanosecond

/-- A day of the calendar, in whatever year, and a time of day that is no leap second. -/
structure Moment.IsOrdinary (m : Moment) : Prop where
  month_pos : 1 ≤ m.date.month
  month_le : m.date.month ≤ 12
  day_pos : 1 ≤ m.date.day
  day_le : m.date.day ≤ daysInMonth m.date.year m.date.month
  hour_lt : m.time.hour < 24
  minute_lt : m.time.minute < 60
  second_lt : m.time.second < 60
  nanosecond_lt : m.time.nanosecond < nanosOfSecond

theorem Moment.instant_minutesEarlier (m : Moment) (minutes : Int) :
    (m.minutesEarlier minutes).instant = m.instant - minutes * 60 * nanosOfSecond := by
  unfold instant epochSeconds minutesEarlier nanosOfSecond
  simp only [Date.dayNumber_ofDayNumber]
  omega

/-! ## Precision -/

/-- How precisely a written moment tells its instant. -/
inductive Precision where
  | day
  | second
  | millisecond
  deriving DecidableEq, Repr, Inhabited

/-- The nanoseconds that a precision does not tell apart. -/
def Precision.unit : Precision → Int
  | day => 86400000000000
  | second => 1000000000
  | millisecond => 1000000

/-- The last instant at a precision that is not after an instant. -/
def Precision.floor (p : Precision) (instant : Int) : Int := instant / p.unit * p.unit

/-- A moment without what a precision does not tell. -/
def Moment.floor (m : Moment) : Precision → Moment
  | .day => ⟨m.date, ⟨0, 0, 0, 0⟩⟩
  | .second => ⟨m.date, { m.time with nanosecond := 0 }⟩
  | .millisecond =>
    ⟨m.date, { m.time with nanosecond := m.time.nanosecond / 1000000 * 1000000 }⟩

namespace Moment.IsOrdinary

variable {m : Moment}

/-- What is left of a moment at a precision is its instant, rounded down. -/
theorem instant_floor (h : m.IsOrdinary) (p : Precision) :
    (m.floor p).instant = p.floor m.instant := by
  obtain ⟨-, -, -, -, hhour, hminute, hsecond, hnanosecond⟩ := h
  unfold nanosOfSecond at hnanosecond
  cases p <;> unfold Moment.instant Moment.epochSeconds Moment.floor Precision.floor Precision.unit
    nanosOfSecond <;> dsimp only <;> omega

theorem floor (h : m.IsOrdinary) (p : Precision) : (m.floor p).IsOrdinary := by
  obtain ⟨hmonth, hmonth', hday, hday', hhour, hminute, hsecond, hnanosecond⟩ := h
  unfold nanosOfSecond at hnanosecond
  cases p with
  | day =>
    exact ⟨hmonth, hmonth', hday, hday', Nat.zero_lt_succ _, Nat.zero_lt_succ _,
      Nat.zero_lt_succ _, Nat.zero_lt_succ _⟩
  | second => exact ⟨hmonth, hmonth', hday, hday', hhour, hminute, hsecond, Nat.zero_lt_succ _⟩
  | millisecond =>
    refine ⟨hmonth, hmonth', hday, hday', hhour, hminute, hsecond, ?_⟩
    unfold Moment.floor nanosOfSecond
    dsimp only
    omega

/-- The whole milliseconds to a moment are those of its instant. -/
theorem epochMilliseconds_eq (h : m.IsOrdinary) : m.epochMilliseconds = m.instant / 1000000 := by
  have hnanosecond := h.nanosecond_lt
  unfold nanosOfSecond at hnanosecond
  unfold epochMilliseconds instant nanosOfSecond
  omega

end Moment.IsOrdinary

/-! ## Internet time -/

/-- A moment by the clock of its writer, and how many minutes that clock is ahead. -/
structure Stamp where
  clock : Moment
  offset : Int
  deriving DecidableEq, Repr

/-- The moment that a stamp denotes. -/
def Stamp.moment (s : Stamp) : Moment := s.clock.minutesEarlier s.offset

/-- The instant that a stamp denotes. -/
def Stamp.instant (s : Stamp) : Int := s.clock.instant - s.offset * 60 * nanosOfSecond

theorem Stamp.instant_moment (s : Stamp) : s.moment.instant = s.instant :=
  s.clock.instant_minutesEarlier s.offset

/-- Stamps of one instant denote one moment. -/
theorem Stamp.moment_eq_of_instant_eq {s s' : Stamp} (h : s.clock.IsOrdinary)
    (h' : s'.clock.IsOrdinary) (hinstant : s.instant = s'.instant) : s.moment = s'.moment := by
  have hsecond := h.second_lt
  have hnanosecond := h.nanosecond_lt
  have hsecond' := h'.second_lt
  have hnanosecond' := h'.nanosecond_lt
  unfold nanosOfSecond at hnanosecond hnanosecond'
  unfold instant Moment.instant Moment.epochSeconds nanosOfSecond at hinstant
  have htotal : s.clock.date.dayNumber * 1440 +
        (s.clock.time.hour * 60 + s.clock.time.minute : Nat) - s.offset =
      s'.clock.date.dayNumber * 1440 +
        (s'.clock.time.hour * 60 + s'.clock.time.minute : Nat) - s'.offset := by
    omega
  have hseconds : s.clock.time.second = s'.clock.time.second := by omega
  have hnanos : s.clock.time.nanosecond = s'.clock.time.nanosecond := by omega
  unfold moment Moment.minutesEarlier
  simp only [htotal, hseconds, hnanos]

/-- What follows the mark between the date and the time of day of an Internet time. -/
def readDivider? (cs : List Char) : Option (List Char) :=
  readMark? 'T' cs <|> readMark? 't' cs <|> readMark? ' ' cs

/-- The numbers of an Internet time and its offset. -/
def readParts? (cs : List Char) : Option (Reading × Int) := do
  let (year, cs) ← readExactly? 4 cs
  let cs ← readMark? '-' cs
  let (month, cs) ← readExactly? 2 cs
  let cs ← readMark? '-' cs
  let (day, cs) ← readExactly? 2 cs
  let cs ← readDivider? cs
  let (hour, cs) ← readExactly? 2 cs
  let cs ← readMark? ':' cs
  let (minute, cs) ← readExactly? 2 cs
  let cs ← readMark? ':' cs
  let (second, cs) ← readExactly? 2 cs
  let (nanosecond, cs) ← readFraction? cs
  let (offset, cs) ← readOffset? cs
  if cs = [] then some ({ year, month, day, hour, minute, second, nanosecond }, offset) else none

/-- An Internet time, as the clock of its writer showed it. -/
def readStamp? (cs : List Char) : Option Stamp :=
  (readParts? cs).bind fun p => p.1.moment?.map fun clock => ⟨clock, p.2⟩

theorem bind_eq_bind_bind {α β γ : Type} {x : Option α} {f : α → Option γ} {f' : α → Option β}
    {g : β → Option γ} (h : ∀ a, f a = (f' a).bind g) : x.bind f = (x.bind f').bind g := by
  cases x with
  | none => rfl
  | some a => exact h a

theorem readInternet?_eq_bind (cs : List Char) :
    readInternet? cs = (readParts? cs).bind fun p =>
      p.1.moment?.bind fun clock => some (clock.minutesEarlier p.2) := by
  unfold readInternet? readParts?
  refine bind_eq_bind_bind fun year => bind_eq_bind_bind fun cs => ?_
  refine bind_eq_bind_bind fun month => bind_eq_bind_bind fun cs => ?_
  refine bind_eq_bind_bind fun day => ?_
  obtain ⟨day, cs⟩ := day
  dsimp only
  -- the mark between the date and the time of day, or another character
  split
  case h_4 hT ht hblank =>
    have hnone : readDivider? cs = none := by
      cases cs with
      | nil => rfl
      | cons c cs =>
        have hT : c ≠ 'T' := fun h => hT cs (congrArg (· :: cs) h)
        have ht : c ≠ 't' := fun h => ht cs (congrArg (· :: cs) h)
        have hblank : c ≠ ' ' := fun h => hblank cs (congrArg (· :: cs) h)
        rw [readDivider?, readMark?, if_neg hT, readMark?, if_neg ht, readMark?, if_neg hblank]
        rfl
    rw [hnone]
    rfl
  all_goals
    refine bind_eq_bind_bind fun cs => bind_eq_bind_bind fun hour => ?_
    refine bind_eq_bind_bind fun cs => bind_eq_bind_bind fun minute => ?_
    refine bind_eq_bind_bind fun cs => bind_eq_bind_bind fun second => ?_
    refine bind_eq_bind_bind fun nanosecond => bind_eq_bind_bind fun offset => ?_
    split <;> rfl

/-- An Internet time is read as the moment that it denotes. -/
theorem readInternet?_eq (cs : List Char) :
    readInternet? cs = (readStamp? cs).map Stamp.moment := by
  rw [readInternet?_eq_bind, readStamp?, Option.map_bind]
  congr 1
  funext p
  rw [Function.comp_apply, Option.map_map]
  exact (Option.map_eq_bind).symm

/-! ## What is read -/

/-- What a pattern reads as a moment is a day of the calendar and a time of day. -/
theorem Reading.valid_of_moment? {r : Reading} {m : Moment} (h : r.moment? = some m) :
    m.date.Valid ∧ m.time.Valid := by
  simp only [moment?, date?, time?, Option.bind_eq_bind, Option.bind_eq_some_iff, Option.pure_def,
    Option.some.injEq, Option.ite_none_right_eq_some] at h
  obtain ⟨date, ⟨hdate, rfl⟩, time, ⟨htime, rfl⟩, rfl⟩ := h
  exact ⟨hdate, htime⟩

/-- A day of the calendar with a time of day is ordinary, unless its second is a leap second. -/
theorem Moment.isOrdinary_of_valid {m : Moment} (hdate : m.date.Valid) (htime : m.time.Valid)
    (hsecond : m.time.second < 60) : m.IsOrdinary := by
  obtain ⟨-, -, hmonth, hmonth', hday, hday'⟩ := hdate
  obtain ⟨hhour, hminute, -, hnanosecond⟩ := htime
  exact ⟨hmonth, hmonth', hday, hday', hhour, hminute, hsecond, hnanosecond⟩

theorem Moment.IsOrdinary.minutesEarlier {m : Moment} (h : m.IsOrdinary) (minutes : Int) :
    (m.minutesEarlier minutes).IsOrdinary := by
  obtain ⟨hmonth, hmonth', hday, hday'⟩ := Date.isDay_ofDayNumber ((m.date.dayNumber * 1440 +
    (m.time.hour * 60 + m.time.minute : Nat) - minutes) / 1440)
  refine ⟨hmonth, hmonth', hday, hday', ?_, ?_, h.second_lt, h.nanosecond_lt⟩ <;>
    unfold Moment.minutesEarlier <;> dsimp only <;> omega

theorem Stamp.isOrdinary_of_readStamp? {cs : List Char} {s : Stamp} (h : readStamp? cs = some s)
    (hsecond : s.clock.time.second < 60) : s.clock.IsOrdinary := by
  obtain ⟨⟨r, offset⟩, -, h⟩ := Option.bind_eq_some_iff.mp h
  obtain ⟨clock, hclock, rfl⟩ := Option.map_eq_some_iff.mp h
  obtain ⟨hdate, htime⟩ := Reading.valid_of_moment? hclock
  exact Moment.isOrdinary_of_valid hdate htime hsecond

/-- What is read as a moment is ordinary, unless its second is a leap second. -/
theorem isOrdinary_of_readMoment? {text : String} {m : Moment} (h : readMoment? text = some m)
    (hsecond : m.time.second < 60) : m.IsOrdinary := by
  have hpattern {r? : Option Reading} (h : r?.bind Reading.moment? = some m) : m.IsOrdinary := by
    obtain ⟨r, -, h⟩ := Option.bind_eq_some_iff.mp h
    obtain ⟨hdate, htime⟩ := Reading.valid_of_moment? h
    exact Moment.isOrdinary_of_valid hdate htime hsecond
  simp only [readMoment?, Option.orElse_eq_orElse, Option.orElse_eq_or, Option.or_eq_some_iff] at h
  rcases h with h | ⟨-, h | ⟨-, h | ⟨-, h | ⟨-, h⟩⟩⟩⟩
  · rw [readInternet?_eq] at h
    obtain ⟨s, hs, rfl⟩ := Option.map_eq_some_iff.mp h
    exact (s.isOrdinary_of_readStamp? hs hsecond).minutesEarlier s.offset
  · exact hpattern h
  · exact hpattern h
  · exact hpattern h
  · exact hpattern h

end JsonSql.Calendar
