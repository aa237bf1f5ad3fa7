import JsonSql.Calendar.Moment

set_option autoImplicit false

/-!
# Writing dates and times

Every number in full: four digits for a year (and a sign if it does not lie between 0 and 9999),
two for the rest, and as many digits of the fraction of a second as asked for.
-/

namespace JsonSql.Calendar

/-- A number with zeros in front up to a width. -/
def padded (width n : Nat) : String :=
  let digits := toString n
  .ofList (List.replicate (width - digits.length) '0') ++ digits

/-- A year. -/
def yearText (year : Int) : String :=
  if 0 ≤ year && year ≤ 9999 then padded 4 year.toNat
  else (if year < 0 then "-" else "+") ++ padded 4 year.natAbs

/-- A date. -/
def Date.text (d : Date) : String :=
  yearText d.year ++ "-" ++ padded 2 d.month ++ "-" ++ padded 2 d.day

/-- A time of day without the fraction of its second. -/
def Time.text (t : Time) : String :=
  padded 2 t.hour ++ ":" ++ padded 2 t.minute ++ ":" ++ padded 2 t.second

/-- A point and the leading digits of the fraction of a second. -/
def Time.fractionText (t : Time) (digits : Nat) : String :=
  "." ++ padded digits (t.nanosecond / Nat.pow 10 (9 - digits))

/-- A moment with a mark between its date and its time of day. -/
def Moment.text (mark : String) (m : Moment) : String :=
  m.date.text ++ mark ++ m.time.text

end JsonSql.Calendar
