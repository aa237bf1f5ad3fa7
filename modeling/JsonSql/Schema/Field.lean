import JsonSql.Calendar.Moment
import JsonSql.Json.Basic
import JsonSql.Text.Split

set_option autoImplicit false

/-!
# Fields

A field of a collection: its name, its declared type, its special flags and its default value.
-/

namespace JsonSql

open JsonSql.Calendar

/-- The declared type of a field. -/
inductive FieldType where
  /-- a field without a column of its own -/
  | virtual
  | bigInteger
  | binary
  | boolean
  | csv
  | date
  | dateTime
  | decimal
  | float
  | geometry
  | hash
  | integer
  | json
  | string
  | text
  | time
  | timestamp
  | uuid
  /-- any type that is not known by its name -/
  | unknown
  deriving DecidableEq, Repr, Inhabited

namespace FieldType

/-- All types. -/
def all : List FieldType :=
  [virtual, bigInteger, binary, boolean, csv, date, dateTime, decimal, float, geometry, hash,
    integer, json, string, text, time, timestamp, uuid, unknown]

/-- The name of a type. -/
def name : FieldType → String
  | virtual => "alias"
  | bigInteger => "bigInteger"
  | binary => "binary"
  | boolean => "boolean"
  | csv => "csv"
  | date => "date"
  | dateTime => "dateTime"
  | decimal => "decimal"
  | float => "float"
  | geometry => "geometry"
  | hash => "hash"
  | integer => "integer"
  | json => "json"
  | string => "string"
  | text => "text"
  | time => "time"
  | timestamp => "timestamp"
  | uuid => "uuid"
  | unknown => "unknown"

/-- The type with a name.  Every kind of geometry is one type, and a name that no type has stands
for an unknown type. -/
def ofName (s : String) : FieldType :=
  match all.find? fun t => t.name = s with
  | some t => t
  | none => if (Text.after? "geometry." s).isSome then geometry else unknown

/-- Types that hold text. -/
def isText : FieldType → Bool
  | string | text => true
  | _ => false

/-- Types that hold integers. -/
def isInteger : FieldType → Bool
  | integer | bigInteger => true
  | _ => false

/-- Types that hold numbers. -/
def isNumeric : FieldType → Bool
  | integer | bigInteger | decimal | float => true
  | _ => false

/-- The family of a type of dates or times. -/
def dateKind? : FieldType → Option DateKind
  | date => some .date
  | time => some .time
  | dateTime => some .dateTime
  | timestamp => some .timestamp
  | _ => none

theorem mem_all (t : FieldType) : t ∈ all := by
  cases t <;> decide

/-- The name of a type stands for that type. -/
theorem ofName_name (t : FieldType) : ofName t.name = t := by
  cases t <;> decide +kernel

end FieldType

/-- A field of a collection. -/
structure Field where
  name : String
  type : FieldType
  /-- flags such as `conceal`, `o2m`, `no-data` -/
  special : List String := []
  defaultValue : Option Json := none
  deriving Repr, Inhabited

namespace Field

/-- A field with a special flag. -/
def hasSpecial (f : Field) (flag : String) : Bool := f.special.contains flag

/-- A field without a column of its own. -/
def isAlias (f : Field) : Bool :=
  f.type = .virtual || f.hasSpecial "alias" || f.hasSpecial "no-data"

/-- A field whose values must not show. -/
def isConcealed (f : Field) : Bool := f.hasSpecial "conceal"

end Field

end JsonSql
