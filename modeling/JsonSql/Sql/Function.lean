import JsonSql.Calendar.Moment
import JsonSql.Sql.Expr

set_option autoImplicit false

/-!
# Functions of the dialects

The parts of dates, the length of a JSON array and the intersection of geometries, each in the
words of a dialect.  Where a dialect has no such function there is no expression.
-/

namespace JsonSql.Sql

open JsonSql.Calendar

/-- A part of a date or time that a function extracts. -/
inductive DatePart where
  | year
  | month
  | week
  | day
  | weekday
  | hour
  | minute
  | second
  deriving DecidableEq, Repr, Inhabited

namespace DatePart

/-- All parts. -/
def all : List DatePart := [year, month, week, day, weekday, hour, minute, second]

/-- The name of a part in a request. -/
def name : DatePart → String
  | year => "year"
  | month => "month"
  | week => "week"
  | day => "day"
  | weekday => "weekday"
  | hour => "hour"
  | minute => "minute"
  | second => "second"

/-- The part with a name. -/
def ofName? (s : String) : Option DatePart := all.find? fun p => p.name = s

/-- The function of a part in MySQL. -/
def mysqlFunction : DatePart → String
  | year => "YEAR"
  | month => "MONTH"
  | week => "WEEK"
  | day => "DAYOFMONTH"
  | weekday => "DAYOFWEEK"
  | hour => "HOUR"
  | minute => "MINUTE"
  | second => "SECOND"

/-- The format letter of a part in SQLite. -/
def sqliteFormat : DatePart → String
  | year => "%Y"
  | month => "%m"
  | week => "%W"
  | day => "%d"
  | weekday => "%w"
  | hour => "%H"
  | minute => "%M"
  | second => "%S"

/-- The name of a part as an argument of `DATE_PART`. -/
def argument : DatePart → String
  | weekday => "dow"
  | part => part.name

end DatePart

namespace Dialect

/-- A part of a date or time as a number.  SQLite holds timestamps as milliseconds. -/
def datePart (d : Dialect) (part : DatePart) (kind : DateKind) (e : Expr) : Expr :=
  match d with
  | postgres | duckdb => .apply "DATE_PART" [.string part.argument, e]
  | mysql => .apply part.mysqlFunction [e]
  | tsql => .apply "DATEPART" [.raw part.name, e]
  | sqlite =>
    .cast (.apply "STRFTIME" (.string part.sqliteFormat ::
      if kind = .timestamp then [.binary .div e (.int 1000), .string "unixepoch"]
      else [e])) .integer

/-- The length of the JSON array that an expression holds. -/
def jsonArrayLength? (d : Dialect) (e : Expr) : Option Expr :=
  match d with
  | postgres | duckdb | sqlite => some (.apply "JSON_ARRAY_LENGTH" [e])
  | mysql => some (.apply "JSON_LENGTH" [e])
  | tsql => none

/-- The geometry of a GeoJSON text. -/
def geometry (geojson : String) : Expr := .apply "ST_GeomFromGeoJSON" [.string geojson]

/-- Whether a geometry meets that of a GeoJSON text, or their bounding boxes meet. -/
def intersects? (d : Dialect) (e : Expr) (geojson : String) (boxes : Bool) : Option Expr :=
  match d with
  | postgres | duckdb =>
    some (if boxes then
      .apply "ST_Intersects" [.apply "ST_Envelope" [e], .apply "ST_Envelope" [geometry geojson]]
    else .apply "ST_Intersects" [e, geometry geojson])
  | mysql =>
    some (.apply (if boxes then "MBRIntersects" else "ST_Intersects") [e, geometry geojson])
  | tsql | sqlite => none

end Dialect

end JsonSql.Sql
