import JsonSql.Decimal.Numeral
import JsonSql.Json.Printer
import JsonSql.Request.Operator
import JsonSql.Sql.DateLiteral
import JsonSql.Statement.Column

set_option autoImplicit false

/-!
# Values of comparisons

The literals that stand for the JSON value of a comparison, by what the column holds: texts become
numbers, dates or truth values where such are held, and a list may be one text with commas.
-/

namespace JsonSql

open JsonSql.Calendar
open JsonSql.Decimal
open JsonSql.Sql

/-- What a column holds. -/
inductive ValueKind where
  | number
  | date (kind : DateKind)
  | boolean
  | geometry
  | plain
  deriving DecidableEq, Repr, Inhabited

/-- What the values of a type are. -/
def FieldType.valueKind (type : FieldType) : ValueKind :=
  match type.dateKind? with
  | some kind => .date kind
  | none =>
    if type.isNumeric then .number
    else match type with
      | .boolean => .boolean
      | .geometry => .geometry
      | _ => .plain

/-- What a column holds; functions give numbers. -/
def Column.valueKind (column : Column) : ValueKind :=
  if column.isFunction then .number else column.type.valueKind

/-- A finite binary64 number that a text denotes. -/
def readFinite? (s : String) : Option Finite64 :=
  match readBinary64? s with
  | some (.finite x) => some x
  | _ => none

namespace Sql.Literal

/-- A number, an integer where it has 64 bits with its sign. -/
def ofNumber : Number → Literal
  | .int n => if n < int64Limit then .int n else .float (.ofInt n)
  | .float x => .float (.finite x)

/-- The number that a text denotes, or else the text. -/
def ofNumeral (s : String) : Literal :=
  match readInt64? (Text.trim s), readFinite? (Text.trim s) with
  | some n, _ => .int n
  | none, some x => .float (.finite x)
  | none, none => .string s

/-- The truth value that a text denotes, or else the text. -/
def ofTruth (s : String) : Literal :=
  if s = "true" ∨ s = "1" then .bool true
  else if s = "false" ∨ s = "0" then .bool false
  else .string s

/-- The literal of a text for what a column holds. -/
def ofText (d : Dialect) (kind : ValueKind) (s : String) : Literal :=
  match kind with
  | .number => ofNumeral s
  | .date kind => d.dateLiteral kind s
  | .boolean => ofTruth s
  | .geometry | .plain => .string s

/-- The literal of a JSON value for what a column holds. -/
def ofJson (d : Dialect) (kind : ValueKind) : Json → Literal
  | .string s => ofText d kind s
  | .number n => ofNumber n
  | .bool b => .bool b
  | .null => .null
  | value => .string value.text

/-- The literals of the value of a comparison. -/
def list (d : Dialect) (kind : ValueKind) (arity : Arity) (value : Json) : List Literal :=
  let items := match arity, value with
    | .list, .string s | .pair, .string s =>
      (Text.split ',' s).map fun piece => Json.string (Text.trim piece)
    | .list, .array items | .pair, .array items => items
    | _, value => [value]
  (items.filter fun item => !item.isNull).map (ofJson d kind)

end Sql.Literal

/-- Whether the value of an operator that takes none leaves it as it is: anything but no. -/
def leavesOperator : Option Json → Bool
  | some (.bool b) => b
  | some (.string s) => s ≠ "false" ∧ s ≠ "0"
  | some (.number n) => n.toBinary64.isNonzero
  | _ => true

end JsonSql
