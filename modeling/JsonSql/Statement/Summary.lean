import JsonSql.Request.Basic
import JsonSql.Statement.Column

set_option autoImplicit false

/-!
# Orderings, groups and aggregations

A sort entry orders by the column of its path, a group entry groups by it and projects it under its
own name, and an aggregation projects a function of it.  Every path of the aggregations is joined
before the first is projected, so that a count of whole rows knows whether rows may repeat.
-/

namespace JsonSql

open JsonSql.Sql

namespace Context

/-- Joins along the path of a key and gives its column. -/
def joinedColumn (c : Context) (collection : String) (scope : Scope) (key : String) :
    Compile (Scope × Column) := do
  let path := fieldPath key
  let (scope, _) ← c.joinPath false collection scope path
  let column ← c.column scope.hops collection path
  return (scope, column)

/-! ## Orderings -/

/-- A sort entry as a direction and the key of a field. -/
def sortKey (entry : String) : Except QueryError (Direction × String) :=
  let (direction, key) := match Text.after? "-" entry with
    | some key => (Direction.desc, key)
    | none => (.asc, entry)
  if key = "" then .error (.query (.emptySortKey entry)) else .ok (direction, key)

/-- The statement ordered by one more entry. -/
def sortBy (c : Context) (collection : String) (scope : Scope) (entry : String) :
    Compile Scope := do
  let (direction, key) ← sortKey entry
  let (scope, column) ← c.joinedColumn collection scope key
  return { scope with query := scope.query.addOrder ⟨column.expr, direction⟩ }

/-! ## Groups -/

/-- The statement grouped by one more field. -/
def groupBy (c : Context) (collection : String) (scope : Scope) (key : String) :
    Compile Scope := do
  let (scope, column) ← c.joinedColumn collection scope key
  let query := (scope.query.addGroup column.expr).addItem ⟨column.expr, some key⟩
  return { scope with query }

end Context

/-! ## Aggregations -/

/-- An aggregation of a column. -/
def Aggregation.apply : Aggregation → Expr → Expr
  | count, e | countAll, e => .count e
  | countDistinct, e => .countDistinct e
  | sum, e => .call "SUM" [e] false
  | sumDistinct, e => .call "SUM" [e] true
  | avg, e => .call "AVG" [e] false
  | avgDistinct, e => .call "AVG" [e] true
  | min, e => .call "MIN" [e] false
  | max, e => .call "MAX" [e] false

namespace Context

/-- Joins along the path of every field that is aggregated. -/
def joinAggregate (c : Context) (collection : String) (scope : Scope)
    (aggregate : List (Aggregation × List String)) : Compile Scope :=
  (aggregate.flatMap Prod.snd).foldlM (fun scope field =>
    Prod.fst <$> c.joinPath false collection scope (fieldPath field)) scope

/-- The expression of an aggregation of a field, or of whole rows. -/
def aggregateExpr (c : Context) (info : CollectionInfo) (scope : Scope)
    (aggregation : Aggregation) (field : String) : Compile Expr := do
  if field = "*" then
    if aggregation = .count then
      return if scope.query.hasJoins then .countDistinct (.of info.name info.primary)
        else .countRows
    else throw (.query (.needsField aggregation))
  else
    let column ← c.column scope.hops info.name (fieldPath field)
    return aggregation.apply column.expr

/-- The items of an aggregation of fields. -/
def aggregateItems (c : Context) (info : CollectionInfo) (scope : Scope)
    (entry : Aggregation × List String) : Compile (List Item) :=
  let (aggregation, fields) := entry
  if aggregation = .countAll then
    return [⟨.countRows, some (aggregation.resultName "*")⟩]
  else fields.mapM fun field => do
    let e ← c.aggregateExpr info scope aggregation field
    return ⟨e, some (aggregation.resultName field)⟩

/-- The statement with the items of all aggregations. -/
def addAggregate (c : Context) (info : CollectionInfo) (scope : Scope)
    (aggregate : List (Aggregation × List String)) : Compile Scope := do
  let scope ← c.joinAggregate info.name scope aggregate
  let items ← aggregate.mapM (c.aggregateItems info scope)
  return { scope with query := items.flatten.foldl Query.addItem scope.query }

end Context

end JsonSql
