import JsonSql.Decimal.Numeral
import JsonSql.Request.Basic
import JsonSql.Request.FilterReader
import JsonSql.Text.Blank

set_option autoImplicit false

/-!
# Reading requests

A request in JSON is an object of named parameters.  A list of fields may be one text with commas,
an integer may be a text, and a parameter that is null does not count.  The first fault in reading
order is reported.
-/

namespace JsonSql

open JsonSql.Decimal

namespace Request

/-- A list of fields: a list of texts or one text with commas. -/
def readFields (name : String) : Json → Except QueryError (List String)
  | .string s => .ok (((Text.split ',' s).map Text.trim).filter fun field => field ≠ "")
  | .array items => items.mapM fun
    | .string s => .ok (Text.trim s)
    | other => .error (.query (.notAField name other.text))
  | other => .error (.query (.notAFieldList name other.text))

/-- The fields of an aggregation. -/
def readAggregation (key : String) (fields : Json) :
    Except QueryError (Aggregation × List String) :=
  match Aggregation.ofKey? key with
  | some a => do return (a, ← readFields "aggregate" fields)
  | none => .error (.query (.unknownAggregation key))

/-- The fields of each aggregation in order. -/
def readAggregate : Json → Except QueryError (List (Aggregation × List String))
  | .object members => members.mapM fun (key, fields) => readAggregation key fields
  | _ => .error (.query .notAnAggregate)

/-- A text; a number stands for its written form. -/
def readText (name : String) : Json → Except QueryError String
  | .string s => .ok s
  | .number n => .ok n.text
  | other => .error (.query (.notAText name other.text))

/-- An integer of 64 bits, or a text that denotes one. -/
def integer? : Json → Option Int
  | .number (.int n) => if n < int64Limit then some n else none
  | .string s => readInt64? (Text.trim s)
  | _ => none

/-- An integer. -/
def readInteger (name : String) (json : Json) : Except QueryError Int :=
  match integer? json with
  | some n => .ok n
  | none => .error (.query (.notAnInteger name json.text))

/-- An integer that is not negative. -/
def readNat (name : String) (json : Json) : Except QueryError Nat := do
  match ← readInteger name json with
  | .ofNat n => return n
  | n => .error (.query (.negative name n))

/-- The request with one more parameter. -/
def readParameter (r : Request) (name : String) (json : Json) : Except QueryError Request :=
  match name with
  | "filter" => do return { r with filter := some (← Filter.ofJson json) }
  | "sort" => do return { r with sort := ← readFields "sort" json }
  | "group" | "groupBy" => do return { r with group := ← readFields "group" json }
  | "aggregate" => do return { r with aggregate := ← readAggregate json }
  | "search" => do return { r with search := some (← readText "search" json) }
  | "limit" => do return { r with limit := some (← readInteger "limit" json) }
  | "offset" => do return { r with offset := some (← readNat "offset" json) }
  | "page" => do return { r with page := some (← readNat "page" json) }
  | other => .error (.query (.unknownParameter other))

/-- A request in JSON. -/
def ofJson : Json → Except QueryError Request
  | .object members =>
    (members.filter fun (_, value) => !value.isNull).foldlM
      (fun r (name, value) => readParameter r name value) {}
  | _ => .error (.query .notAnObject)

end Request

end JsonSql
