import JsonSql.Request.Aggregation
import JsonSql.Request.Filter

set_option autoImplicit false

/-!
# Requests

What a reader asks of one collection: which rows, in which order, how many of them, and what is
computed of them.
-/

namespace JsonSql

/-- A request to read a collection. -/
structure Request where
  filter : Option Filter := none
  /-- paths of fields to order by, with a minus in front of a descending one -/
  sort : List String := []
  /-- paths of fields that each aggregation is computed of -/
  aggregate : List (Aggregation × List String) := []
  /-- paths of fields to group by -/
  group : List String := []
  search : Option String := none
  /-- the greatest number of rows; a negative one asks for all -/
  limit : Option Int := none
  offset : Option Nat := none
  /-- the number of a page of `limit` rows, from one -/
  page : Option Nat := none
  deriving Inhabited

/-- A request that sums up rows. -/
def Request.isSummary (r : Request) : Bool := !r.aggregate.isEmpty || !r.group.isEmpty

end JsonSql
