import JsonSql.Sql.Function
import JsonSql.Statement.Join

set_option autoImplicit false

/-!
# Columns of paths

The expression that reads the field at the end of a path: a column of the root or of the join that
the path leads to, or a function of it, such as the year of a date or the number of related rows.
-/

namespace JsonSql

open JsonSql.Calendar
open JsonSql.Sql

/-- A function of a field. -/
inductive FieldFunction where
  | part (part : DatePart)
  | count
  deriving DecidableEq, Repr, Inhabited

/-- The function with a name. -/
def FieldFunction.ofName? (name : String) : Option FieldFunction :=
  if name = "count" then some .count else (DatePart.ofName? name).map .part

/-- A segment as the name of a function, if there is one, and the field in its parentheses. -/
def splitFunction (segment : String) : Option String × String :=
  if (Text.after? "$" segment).isSome then (none, segment)
  else match (Text.before? ")" segment).bind (Text.splitOnce? '(') with
    | some (name, field) =>
      if name = "" then (none, segment) else (some name, Text.trim field)
    | none => (none, segment)

/-- Whether the values of a family have a part. -/
def isPartOf (part : DatePart) : DateKind → Bool
  | .date => [DatePart.year, .month, .week, .day, .weekday].contains part
  | .time => [DatePart.hour, .minute, .second].contains part
  | .dateTime | .timestamp => true

/-- A path as an expression. -/
structure Column where
  expr : Expr
  /-- the path as it is reported -/
  path : String
  /-- the type of the expression; functions give integers -/
  type : FieldType
  concealed : Bool
  isFunction : Bool
  deriving Inhabited

namespace Context

/-- The number of rows of a link from a table. -/
def countRows? (c : Context) (collection table : String) (link : Link) :
    Compile (Option Expr) := do
  let primary ← c.primary collection
  let name ← c.freshAlias
  let count (r : Relation) (condition : Expr) : Expr :=
    .subquery {
      items := [⟨.countRows, none⟩]
      source := some ⟨r.collection, some name⟩
      condition := some condition }
  match link with
  | .oneToMany r => return some (count r (.equals (.of name r.field) (.of table primary)))
  | .oneToAny r =>
    match r.info.discriminator with
    | none => return none
    | some column =>
      return some (count r (refersTo name column r.field collection (.of table primary)))
  | _ => return none

/-- A part of a field that holds dates or times. -/
def partOf (c : Context) (part : DatePart) (type : FieldType) (column : Expr) :
    Except FunctionFault Expr :=
  match type.dateKind? with
  | none => .error .needsDate
  | some kind =>
    if isPartOf part kind then .ok (c.dialect.datePart part kind column)
    else .error (.notAvailable type)

/-- The number of items of a field that holds JSON. -/
def jsonLength (c : Context) (column : Expr) : Except QueryError Expr :=
  match c.dialect.jsonArrayLength? column with
  | some e => .ok e
  | none => .error (.unsupported .jsonLength c.dialect)

/-- A function of a field at a place. -/
def applyFunction (c : Context) (place : Place) (function path field : String)
    (type : FieldType) : Compile Expr := do
  let column := Expr.of place.table field
  match FieldFunction.ofName? function with
  | none => throw (.function function path .unknown)
  | some (.part part) =>
    match c.partOf part type column with
    | .ok e => return e
    | .error fault => throw (.function function path fault)
  | some .count =>
    if type = .json then c.jsonLength column
    else match ← c.countRows? place.collection place.table (c.link place.collection field) with
      | some e => return e
      | none => throw (.function function path .needsRows)

/-- The place of a field at the end of a path, whose parents are joined already. -/
def placeOf (hops : Hops) (collection : String) (parents : List String) (path : String) :
    Except QueryError Place :=
  if parents = [] then .ok (.root collection)
  else match hops.get? parents with
    | some hop => .ok hop.place
    | none => .error (.query (.unreachable path (Hops.key parents)))

/-- The column of a path from a collection, whose parents are joined already. -/
def column (c : Context) (hops : Hops) (collection : String) (path : List String) :
    Compile Column := do
  let shown := Hops.key path
  match path.getLast? with
  | none => throw (.query .emptyPath)
  | some last =>
    let place ← placeOf hops collection path.dropLast shown
    let (function, name) := splitFunction last
    let field ← c.field place.collection name
    match function with
    | none =>
      if field.isAlias then throw (.query (.noColumn shown))
      return {
        expr := .of place.table name, path := shown, type := field.type
        concealed := field.isConcealed, isFunction := false }
    | some function =>
      return {
        expr := ← c.applyFunction place function shown name field.type
        path := shown, type := .integer, concealed := false, isFunction := true }

end Context

end JsonSql
