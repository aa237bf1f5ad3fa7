import JsonSql.Proofs.WrittenMoments

set_option autoImplicit false

/-!
# Literals of dates

Every dialect compares a column of dates, of dates with times of day or of timestamps with a literal
that tells the instant of the given value as precisely as the dialect tells values of that column
(`Dialect.dateLiteral_denotes`).  The texts among those literals are values for the same column
themselves, and they stand for themselves.  A value that is no moment is its own literal.
-/

namespace JsonSql.Sql

open JsonSql.Calendar JsonSql.Text

/-! ## What literals tell -/

/-- How precisely a dialect tells the values of a family. -/
def Dialect.datePrecision (d : Dialect) : DateKind → Precision
  | .date => .day
  | .time | .dateTime => .second
  | .timestamp => if d = .mysql then .second else .millisecond

/-- The instant that a literal tells: a number counts milliseconds, a text is a written moment. -/
def Literal.instant? : Literal → Option Int
  | .int n => some (n * 1000000)
  | .string text => (readWritten? text.toList).map Moment.instant
  | _ => none

/-- The form of the literals for a family, if they are texts. -/
def Dialect.dateForm? (d : Dialect) : DateKind → Option Form
  | .date => some .date
  | .time => none
  | .dateTime => some (.seconds (if d = .tsql then 'T' else ' '))
  | .timestamp => match d with
    | .postgres | .duckdb => some (.milliseconds true)
    | .mysql => some (.seconds ' ')
    | .tsql => some (.milliseconds false)
    | .sqlite => none

namespace Dialect

variable {d : Dialect} {kind : DateKind} {form : Form} {value : String} {m : Moment}

theorem marked_of_dateForm? (h : d.dateForm? kind = some form) : form.marked := by
  cases kind <;> cases d <;> cases h <;> simp [Form.marked]

theorem precision_of_dateForm? (h : d.dateForm? kind = some form) :
    form.precision = d.datePrecision kind := by
  cases kind <;> cases d <;> cases h <;> rfl

/-- Only the timestamps of one dialect are numbers. -/
theorem eq_of_dateForm?_eq_none (hkind : kind ≠ .time) (h : d.dateForm? kind = none) :
    d = .sqlite ∧ kind = .timestamp := by
  cases kind <;> cases d <;> cases h <;> simp at hkind ⊢

/-- A moment is written in the form for its family. -/
theorem dateLiteral_of_dateForm? (h : d.dateForm? kind = some form)
    (hread : readMoment? value = some m) : d.dateLiteral kind value = .string (form.text m) := by
  have hliteral {text : String} (htext : text.toList = (form.text m).toList) :
      (some (Literal.string text)).getD (.string value) = .string (form.text m) :=
    congrArg Literal.string (String.toList_inj.mp htext)
  cases kind with
  | date =>
    cases h
    rw [dateLiteral, hread]
    exact hliteral (by simp [Form.text, Form.behindDate])
  | time => cases h
  | dateTime =>
    cases h
    rw [dateLiteral, hread]
    refine hliteral ?_
    rw [dateTimeText, Moment.text]
    split <;> simp [Form.text, Form.behindDate]
  | timestamp =>
    rw [dateLiteral, hread]
    cases d <;> cases h <;>
      exact hliteral (by simp [Form.text, Form.behindDate, Moment.text])

/-- Elsewhere a moment is the number of its milliseconds. -/
theorem dateLiteral_of_dateForm?_eq_none (hkind : kind ≠ .time) (h : d.dateForm? kind = none)
    (hread : readMoment? value = some m) (hm : m.IsOrdinary) :
    d.dateLiteral kind value = .int (m.instant / 1000000) := by
  obtain ⟨rfl, rfl⟩ := eq_of_dateForm?_eq_none hkind h
  rw [dateLiteral, hread, ← hm.epochMilliseconds_eq]
  rfl

/-- A value that is no moment is passed on. -/
theorem dateLiteral_of_readMoment?_eq_none (hkind : kind ≠ .time)
    (hread : readMoment? value = none) : d.dateLiteral kind value = .string value := by
  cases kind with
  | time => exact absurd rfl hkind
  | date | dateTime | timestamp => rw [dateLiteral, hread]; rfl

/-- The literal depends on the moment alone. -/
theorem dateLiteral_congr {value' : String} (hkind : kind ≠ .time)
    (hread : readMoment? value = some m) (hread' : readMoment? value' = some m) :
    d.dateLiteral kind value = d.dateLiteral kind value' := by
  cases kind with
  | time => exact absurd rfl hkind
  | date | dateTime | timestamp => rw [dateLiteral, dateLiteral, hread, hread']; rfl

/-- The literal of a moment tells its instant, as precisely as its family is told. -/
theorem instant?_dateLiteral (hkind : kind ≠ .time) (hread : readMoment? value = some m)
    (hm : m.IsPlain) :
    (d.dateLiteral kind value).instant? = some ((d.datePrecision kind).floor m.instant) := by
  cases h : d.dateForm? kind with
  | none =>
    obtain ⟨rfl, rfl⟩ := eq_of_dateForm?_eq_none hkind h
    rw [dateLiteral_of_dateForm?_eq_none hkind h hread hm.ordinary]
    rfl
  | some form =>
    rw [dateLiteral_of_dateForm? h hread, Literal.instant?,
      Form.readWritten?_text (marked_of_dateForm? h) hm, Option.map_some,
      hm.ordinary.instant_floor, precision_of_dateForm? h]

/-- A text among the literals of moments is a value that stands for itself. -/
theorem dateLiteral_of_dateLiteral {text : String} (hkind : kind ≠ .time)
    (hread : readMoment? value = some m) (hm : m.IsPlain)
    (htext : d.dateLiteral kind value = .string text) :
    d.dateLiteral kind text = .string text := by
  cases h : d.dateForm? kind with
  | none =>
    rw [dateLiteral_of_dateForm?_eq_none hkind h hread hm.ordinary] at htext
    cases htext
  | some form =>
    rw [dateLiteral_of_dateForm? h hread] at htext
    obtain rfl := Literal.string.inj htext
    rw [dateLiteral_of_dateForm? h (Form.readMoment?_text (marked_of_dateForm? h) hm),
      form.text_floor]

end Dialect

/-! ## Internet times -/

/-- An Internet time is read as the moment of its instant. -/
theorem readMoment?_of_readStamp? {value : String} {s : Stamp}
    (h : readStamp? (trimChars value.toList) = some s) : readMoment? value = some s.moment := by
  rw [readMoment?, readInternet?_eq, h]
  rfl

/-! ## Literals of dates -/

/--
A value that denotes a moment of the years zero to 9999, not in a leap second, has a literal that
tells its instant, rounded down to the precision of the dialect for the family, and a text among
these literals stands for itself.  An Internet time denotes its instant, however far its clock is
ahead, and two of one instant have one literal.  A value that denotes no moment is passed on.
-/
theorem Dialect.dateLiteral_denotes (d : Dialect) {kind : DateKind} (hkind : kind ≠ .time) :
    (∀ value m, readMoment? value = some m → m.time.second < 60 →
      0 ≤ m.date.year → m.date.year ≤ 9999 →
        (d.dateLiteral kind value).instant? = some ((d.datePrecision kind).floor m.instant) ∧
        (d = .sqlite → kind = .timestamp →
          d.dateLiteral kind value = .int (m.instant / 1000000)) ∧
        ∀ text, d.dateLiteral kind value = .string text →
          d.dateLiteral kind text = .string text) ∧
    (∀ value s, readStamp? (trimChars value.toList) = some s →
      ∃ m, readMoment? value = some m ∧ m.instant = s.instant) ∧
    (∀ value value' s s', readStamp? (trimChars value.toList) = some s →
      readStamp? (trimChars value'.toList) = some s' →
      s.clock.time.second < 60 → s'.clock.time.second < 60 → s.instant = s'.instant →
        d.dateLiteral kind value = d.dateLiteral kind value') ∧
    ∀ value, readMoment? value = none → d.dateLiteral kind value = .string value := by
  refine ⟨fun value m hread hsecond hyear hyear' => ?_, fun value s hs => ?_,
    fun value value' s s' hs hs' hsecond hsecond' hinstant => ?_,
    fun value hread => dateLiteral_of_readMoment?_eq_none hkind hread⟩
  · have hm : m.IsPlain := ⟨isOrdinary_of_readMoment? hread hsecond, hyear, hyear'⟩
    refine ⟨instant?_dateLiteral hkind hread hm, ?_,
      fun text htext => dateLiteral_of_dateLiteral hkind hread hm htext⟩
    rintro rfl rfl
    exact dateLiteral_of_dateForm?_eq_none hkind rfl hread hm.ordinary
  · exact ⟨s.moment, readMoment?_of_readStamp? hs, s.instant_moment⟩
  · have hmoment := Stamp.moment_eq_of_instant_eq (s.isOrdinary_of_readStamp? hs hsecond)
      (s'.isOrdinary_of_readStamp? hs' hsecond') hinstant
    refine dateLiteral_congr hkind (readMoment?_of_readStamp? hs) ?_
    rw [hmoment]
    exact readMoment?_of_readStamp? hs'

/-- Two clocks on the two sides of a new year show one instant. -/
theorem Dialect.dateLiteral_denotes_newYear :
    (Dialect.tsql.dateLiteral .timestamp "2024-01-01T00:30:00.1239+02:00").instant? =
        some 1704061800123000000 ∧
      Dialect.tsql.dateLiteral .timestamp "2024-01-01T00:30:00.1239+02:00" =
        Dialect.tsql.dateLiteral .timestamp "2023-12-31T23:30:00.1239+01:00" ∧
      Dialect.sqlite.dateLiteral .timestamp "1969-12-31T23:59:59.9999Z" = .int (-1) := by
  obtain ⟨hdenotes, -, hsame, -⟩ := @Dialect.dateLiteral_denotes .tsql .timestamp (by decide)
  obtain ⟨hsqlite, -⟩ := @Dialect.dateLiteral_denotes .sqlite .timestamp (by decide)
  refine ⟨?_, ?_, ?_⟩
  · exact (hdenotes _ ⟨⟨2023, 12, 31⟩, ⟨22, 30, 0, 123900000⟩⟩ (by decide +kernel) (by decide)
      (by decide) (by decide)).1
  · exact hsame _ _ ⟨⟨⟨2024, 1, 1⟩, ⟨0, 30, 0, 123900000⟩⟩, 120⟩
      ⟨⟨⟨2023, 12, 31⟩, ⟨23, 30, 0, 123900000⟩⟩, 60⟩ (by decide +kernel) (by decide +kernel)
      (by decide) (by decide) (by decide)
  · exact (hsqlite _ ⟨⟨1969, 12, 31⟩, ⟨23, 59, 59, 999900000⟩⟩ (by decide +kernel) (by decide)
      (by decide) (by decide)).2.1 rfl rfl

end JsonSql.Sql
