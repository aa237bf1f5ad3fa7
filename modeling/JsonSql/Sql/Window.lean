import JsonSql.Sql.Expr
import JsonSql.Sql.Token

set_option autoImplicit false

/-!
# Row windows

How each dialect writes a limit and an offset.  Counts beyond the greatest 64-bit integer are
written as that integer.
-/

namespace JsonSql.Sql

/-- A count of rows. -/
def rowCount (n : Nat) : Token := .int (min n (Decimal.int64Limit - 1) : Nat)

/-- The largest count that MySQL has for "no limit". -/
def unboundedLimit : String := "18446744073709551615"

namespace Window

/-- The limit, if there is one. -/
def limitPart (w : Window) : List (List Token) :=
  w.limit.toList.map fun n => [.keyword .limit, .space, rowCount n]

/-- The offset, if there is one. -/
def offsetPart (w : Window) : List (List Token) :=
  w.offset.toList.map fun n => [.keyword .offset, .space, rowCount n]

/-- A limit and an offset, each only if it is there. -/
def standardTokens (w : Window) : List Token :=
  separated [.space] (w.limitPart ++ w.offsetPart)

/-- An offset, zero if there is none, and the rows fetched after it. -/
def fetchTokens (w : Window) : List Token :=
  [.keyword .offset, .space, rowCount (w.offset.getD 0), .space, .keyword .rows] ++
    match w.limit with
    | none => []
    | some n =>
      [.space, .keyword .fetchNext, .space, rowCount n, .space, .keyword .rows, .space,
        .keyword .only]

/-- The tokens of a window in a dialect. -/
def tokens (d : Dialect) (w : Window) : List Token :=
  match d with
  | .postgres | .sqlite | .duckdb => w.standardTokens
  | .tsql => w.fetchTokens
  | .mysql =>
    match w.limit, w.offset with
    | none, some n =>
      [.keyword .limit, .space, .raw unboundedLimit, .space, .keyword .offset, .space, rowCount n]
    | _, _ => w.standardTokens

end Window

end JsonSql.Sql
