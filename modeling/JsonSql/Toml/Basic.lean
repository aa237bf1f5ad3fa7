import JsonSql.Decimal.Binary64

set_option autoImplicit false

/-!
# TOML values

The values of a configuration text.  A table lists its members by key in ascending order.
-/

namespace JsonSql

open JsonSql.Decimal

/-- A TOML value. -/
inductive Toml where
  | string (s : String)
  | integer (n : Int)
  | float (x : Binary64)
  | boolean (b : Bool)
  /-- a date, a time of day or both, in its written form -/
  | dateTime (text : String)
  | array (items : List Toml)
  | table (members : List (String × Toml))
  deriving Repr, Inhabited

/-- The meaning of a well-formed value: none, if it holds a number out of range. -/
abbrev Meaning := Option Toml

/-- Members by key in ascending order. -/
def inKeyOrder {α : Type} (members : List (String × α)) : List (String × α) :=
  members.mergeSort fun a b => a.1 ≤ b.1

end JsonSql
