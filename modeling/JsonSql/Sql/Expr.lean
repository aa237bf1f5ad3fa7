import JsonSql.Decimal.Binary64
import JsonSql.Sql.Dialect

set_option autoImplicit false

/-!
# SQL expressions and queries

A query is a `SELECT` statement: what it projects, the table it reads, left joins, a condition,
groups, an ordering and a row window.  Expressions stand in all of these and may hold queries
themselves.  Values of a request enter an expression as literals only.
-/

namespace JsonSql.Sql

open JsonSql.Decimal

/-- A literal value. -/
inductive Literal where
  | int (n : Int)
  | float (x : Binary64)
  | string (s : String)
  | bool (b : Bool)
  | null
  deriving DecidableEq, Repr, Inhabited

/-- An operator between two expressions. -/
inductive BinaryOp where
  | eq
  | ne
  | lt
  | gt
  | lte
  | gte
  | and
  | or
  | div
  | like
  | notLike
  deriving DecidableEq, Repr, Inhabited

/-- A table, under a label where it is joined. -/
structure TableRef where
  table : String
  label : Option String := none
  deriving DecidableEq, Repr, Inhabited

/-- The two directions of an ordering. -/
inductive Direction where
  | asc
  | desc
  deriving DecidableEq, Repr, Inhabited

/-- A row window; an absent side is not constrained. -/
structure Window where
  limit : Option Nat := none
  offset : Option Nat := none
  deriving DecidableEq, Repr, Inhabited

mutual
/-- A scalar expression. -/
inductive Expr where
  | column (table : Option String) (name : String)
  | literal (value : Literal)
  | binary (op : BinaryOp) (left right : Expr)
  | not (inner : Expr)
  | call (name : String) (args : List Expr) (distinct : Bool)
  /-- a query that gives one value -/
  | subquery (query : Query)
  | inList (subject : Expr) (items : List Expr) (negated : Bool)
  | inQuery (subject : Expr) (query : Query) (negated : Bool)
  | between (subject low high : Expr) (negated : Bool)
  | isNull (subject : Expr) (negated : Bool)
  /-- every column, of one table or of all -/
  | allColumns (table : Option String)
  | paren (inner : Expr)
  | cast (subject : Expr) (target : CastType)
  /-- vocabulary of the dialect, never made of values of a request -/
  | raw (text : String)

/-- A projected expression under an optional name. -/
structure Item where
  expr : Expr
  label : Option String := none

/-- A left join: rows of the table that meet the condition, or one row of nulls. -/
structure Join where
  target : TableRef
  condition : Expr

/-- An expression to order by. -/
structure OrderItem where
  expr : Expr
  direction : Direction

/-- A `SELECT` statement. -/
structure Query where
  items : List Item := []
  source : Option TableRef := none
  joins : List Join := []
  condition : Option Expr := none
  groups : List Expr := []
  orders : List OrderItem := []
  window : Option Window := none
end

instance : Inhabited Expr := ⟨.literal .null⟩
instance : Inhabited Query := ⟨{}⟩

/-- The name by which columns refer to a table. -/
def TableRef.referenceName (t : TableRef) : String := t.label.getD t.table

/-! ## Building expressions -/

namespace Expr

/-- A column of a table. -/
def of (table name : String) : Expr := column (some table) name

/-- An integer. -/
def int (n : Int) : Expr := literal (.int n)

/-- A string. -/
def string (s : String) : Expr := literal (.string s)

/-- A function of arguments. -/
def apply (name : String) (args : List Expr) : Expr := call name args false

/-- A text in lower case. -/
def lower (e : Expr) : Expr := apply "LOWER" [e]

/-- The number of values that are not null. -/
def count (e : Expr) : Expr := apply "COUNT" [e]

/-- The number of different values that are not null. -/
def countDistinct (e : Expr) : Expr := call "COUNT" [e] true

/-- The number of rows. -/
def countRows : Expr := count (allColumns none)

/-- Both hold. -/
def both (left right : Expr) : Expr := binary .and left right

/-- One holds. -/
def either (left right : Expr) : Expr := binary .or left right

/-- The two are equal. -/
def equals (left right : Expr) : Expr := binary .eq left right

/-- A disjunction at the top. -/
def isDisjunction : Expr → Bool
  | binary .or _ _ => true
  | _ => false

/-- A disjunction in parentheses, anything else as it is. -/
def guarded (e : Expr) : Expr := if e.isDisjunction then paren e else e

end Expr

/-! ## Building queries -/

namespace Query

/-- The query with one more condition, which holds together with those already there. -/
def addCondition (q : Query) (e : Expr) : Query :=
  { q with condition := some (match q.condition with
      | some old => .both old.guarded e.guarded
      | none => e.guarded) }

/-- The query with one more left join. -/
def addJoin (q : Query) (target : TableRef) (condition : Expr) : Query :=
  { q with joins := q.joins ++ [⟨target, condition⟩] }

/-- The query with one more projection. -/
def addItem (q : Query) (item : Item) : Query :=
  { q with items := q.items ++ [item] }

/-- The query with one more expression to group by. -/
def addGroup (q : Query) (e : Expr) : Query :=
  { q with groups := q.groups ++ [e] }

/-- The query with one more expression to order by. -/
def addOrder (q : Query) (o : OrderItem) : Query :=
  { q with orders := q.orders ++ [o] }

/-- The query with a limit on its rows. -/
def setLimit (q : Query) (limit : Nat) : Query :=
  { q with window := some { q.window.getD {} with limit := some limit } }

/-- The query with rows left out at the front. -/
def setOffset (q : Query) (offset : Nat) : Query :=
  { q with window := some { q.window.getD {} with offset := some offset } }

/-- Every column of a table and nothing else. -/
def selectAllOf (q : Query) (table : String) : Query :=
  { q with items := [⟨.allColumns (some table), none⟩] }

/-- The query reads further tables. -/
def hasJoins (q : Query) : Bool := !q.joins.isEmpty

end Query

@[simp] theorem Query.addCondition_joins (q : Query) (e : Expr) :
    (q.addCondition e).joins = q.joins := rfl

@[simp] theorem Query.addJoin_joins (q : Query) (target : TableRef) (condition : Expr) :
    (q.addJoin target condition).joins = q.joins ++ [⟨target, condition⟩] := rfl

@[simp] theorem Expr.isDisjunction_guarded (e : Expr) : e.guarded.isDisjunction = false := by
  unfold Expr.guarded
  split
  · rfl
  · next h => simpa using h

end JsonSql.Sql
