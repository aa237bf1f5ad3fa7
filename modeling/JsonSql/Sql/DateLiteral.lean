import JsonSql.Calendar.Printer
import JsonSql.Calendar.Reader
import JsonSql.Sql.Expr

set_option autoImplicit false

/-!
# Literals of dates and times

The literal that a dialect compares correctly with a column of a date or time family.  A text that
denotes no date or time is passed on as it is.
-/

namespace JsonSql.Sql

open JsonSql.Calendar

/-- The written form of a moment for a column of dates with times of day. -/
def Dialect.dateTimeText (d : Dialect) (m : Moment) : String :=
  m.text (if d = .tsql then "T" else " ")

/-- The literal of a moment for a column of timestamps: milliseconds in SQLite, text elsewhere. -/
def Dialect.timestampLiteral (d : Dialect) (m : Moment) : Literal :=
  match d with
  | .postgres | .duckdb => .string (m.text "T" ++ m.time.fractionText 3 ++ "Z")
  | .mysql => .string (m.text " ")
  | .tsql => .string (m.text "T" ++ m.time.fractionText 3)
  | .sqlite => .int m.epochMilliseconds

/-- The literal for a text given for a column of a date or time family. -/
def Dialect.dateLiteral (d : Dialect) (kind : DateKind) (value : String) : Literal :=
  let literal : Option Literal := match kind with
    | .date => (readMoment? value).map fun m => .string m.date.text
    | .time => (readTime? value).map fun t => .string t.text
    | .dateTime => (readMoment? value).map fun m => .string (d.dateTimeText m)
    | .timestamp => (readMoment? value).map d.timestampLiteral
  literal.getD (.string value)

example : Dialect.postgres.dateLiteral .timestamp "2024-03-09T14:30:00Z"
    = .string "2024-03-09T14:30:00.000Z" := by decide +kernel
example : Dialect.sqlite.dateLiteral .timestamp "2024-03-09T14:30:00Z" = .int 1709994600000 := by
  decide +kernel

end JsonSql.Sql
