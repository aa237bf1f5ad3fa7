import JsonSql.Request.Filter
import JsonSql.Text.Blank
import JsonSql.Text.Split

set_option autoImplicit false

/-!
# Dotted keys

A key of several segments stands for nested filters: `a.b: c` is short for `a: (b: c)`.  An unfolded
filter has one segment in each key.  Blanks around the segments before a dot do not count.
-/

namespace JsonSql

/-- A condition on the field at the end of a path of segments. -/
def Clause.along : List String → FieldCondition → Clause
  | [], condition => .field "" condition
  | [last], condition => .field last condition
  | segment :: rest, condition =>
    .field (Text.trim segment) (.nested (.of (Clause.along rest condition)))

mutual
/-- A filter with one segment in each key. -/
def Filter.unfolded : Filter → Filter
  | ⟨clauses⟩ => ⟨Filter.unfoldedClauses clauses⟩

/-- Clauses with one segment in each key. -/
def Filter.unfoldedClauses : List Clause → List Clause
  | [] => []
  | c :: rest => c.unfolded :: Filter.unfoldedClauses rest

/-- A clause with one segment in each key. -/
def Clause.unfolded : Clause → Clause
  | .all filters => .all (Filter.unfoldedAll filters)
  | .any filters => .any (Filter.unfoldedAll filters)
  | .field key condition => .along (Text.split '.' key) condition.unfolded

/-- Filters with one segment in each key. -/
def Filter.unfoldedAll : List Filter → List Filter
  | [] => []
  | f :: rest => f.unfolded :: Filter.unfoldedAll rest

/-- What is asked of a field, with one segment in each key. -/
def FieldCondition.unfolded : FieldCondition → FieldCondition
  | .compare comparisons => .compare comparisons
  | .quantified quantifier f => .quantified quantifier f.unfolded
  | .nested f => .nested f.unfolded
end

end JsonSql
