import JsonSql.Decimal.Layout
import JsonSql.Request.Error
import JsonSql.Sql.Function

set_option autoImplicit false

/-!
# Predicates of operators

The predicate by which an operator compares a column with literals.  A comparison that lacks its
values has no predicate.
-/

namespace JsonSql

open JsonSql.Decimal
open JsonSql.Sql

/-- The text of a literal in a pattern. -/
def Sql.Literal.patternText : Literal → String
  | .int n => toString n
  | .float x => x.plainText
  | .string s => s
  | .bool b => if b then "true" else "false"
  | .null => ""

/-- The pattern of the texts that hold a text at a place. -/
def Placement.pattern : Placement → String → String
  | anywhere, s => "%" ++ s ++ "%"
  | atStart, s => s ++ "%"
  | atEnd, s => "%" ++ s

namespace Operator

/-- The operator between a column and one value. -/
def binaryOp : Operator → BinaryOp
  | equal _ negated => if negated then .ne else .eq
  | less => .lt
  | lessOrEqual => .lte
  | greater => .gt
  | greaterOrEqual => .gte
  | holds _ _ negated => if negated then .notLike else .like
  | _ => .eq

/-- The predicate of an operator that takes one value. -/
def compareOne (op : Operator) (column : Expr) (value : Literal) : Expr :=
  let text := if op.ignoresCase then Text.toLower value.patternText else value.patternText
  let right := match op with
    | equal true _ => .string text
    | holds place _ _ => .string (place.pattern text)
    | _ => .literal value
  .binary op.binaryOp (if op.ignoresCase then .lower column else column) right

/-- A predicate or its negation. -/
def negatedIf (negated : Bool) (e : Expr) : Expr := if negated then .not e else e

/-- The predicate of an operator between a column and literals, if it has one.  An operator that
takes no value turns into its negation unless it is kept. -/
def predicate? (op : Operator) (d : Dialect) (column : Expr) (values : List Literal)
    (kept : Bool) : Except QueryError (Option Expr) :=
  match op with
  | null negated => .ok (some (.isNull column (if kept then negated else !negated)))
  | empty negated =>
    .ok (some (.binary (if negated = kept then .ne else .eq) column (.string "")))
  | oneOf negated => .ok (some (.inList column (values.map .literal) negated))
  | between negated =>
    match values with
    | [low, high] => .ok (some (.between column (.literal low) (.literal high) negated))
    | _ => .ok none
  | intersects boxes negated =>
    match values with
    | .string geojson :: _ =>
      match d.intersects? column geojson boxes with
      | some e => .ok (some (negatedIf negated e))
      | none => .error (.unsupported (.operator op) d)
    | _ => .ok none
  | _ => .ok (values.head?.map (op.compareOne column))

end Operator

end JsonSql
