set_option autoImplicit false

/-!
# Aggregations

The functions that sum up the rows of a group, and the names of their results.
-/

namespace JsonSql

/-- The functions that an aggregate applies to a field. -/
inductive Aggregation where
  | count
  | countAll
  | countDistinct
  | sum
  | sumDistinct
  | avg
  | avgDistinct
  | min
  | max
  deriving DecidableEq, Repr, Inhabited

namespace Aggregation

/-- All aggregations. -/
def all : List Aggregation :=
  [count, countAll, countDistinct, sum, sumDistinct, avg, avgDistinct, min, max]

/-- The key of an aggregation in a request. -/
def key : Aggregation → String
  | count => "count"
  | countAll => "countAll"
  | countDistinct => "countDistinct"
  | sum => "sum"
  | sumDistinct => "sumDistinct"
  | avg => "avg"
  | avgDistinct => "avgDistinct"
  | min => "min"
  | max => "max"

/-- The aggregation with a key. -/
def ofKey? (s : String) : Option Aggregation := all.find? fun a => a.key = s

theorem ofKey?_key (a : Aggregation) : ofKey? a.key = some a := by
  cases a <;> decide +kernel

/-- The name of the result of an aggregation over a field, or over whole rows (`*`). -/
def resultName : Aggregation → String → String
  | countAll, _ => "countAll"
  | a, field => if a = count ∧ field = "*" then "count" else a.key ++ "->." ++ field

end Aggregation

end JsonSql
