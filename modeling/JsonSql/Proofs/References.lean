import JsonSql.Proofs.Declared
import JsonSql.Proofs.Unambiguous

set_option autoImplicit false

/-!
# Columns that a statement names

`Query.references` lists the columns of a statement at any depth, each with the tables that are in
scope where it stands.  A reference is declared if its table is in scope and its name is that of a
column of the collection that the table was introduced for.
-/

namespace JsonSql

open JsonSql.Sql

namespace Sql

/-- A column, with the tables in scope where it stands. -/
structure Reference where
  tables : List TableRef
  table : Option String
  name : String
  deriving DecidableEq, Repr, Inhabited

/-- The tables that a `SELECT` reads, joins first. -/
def Query.tables (q : Query) : List TableRef := q.joins.map Join.target ++ q.source.toList

mutual
/-- The columns of an expression, below tables in scope. -/
def Expr.references (tables : List TableRef) : Expr → List Reference
  | .column table name => [⟨tables, table, name⟩]
  | .literal _ | .allColumns _ | .raw _ => []
  | .binary _ left right => left.references tables ++ right.references tables
  | .not inner | .paren inner => inner.references tables
  | .call _ args _ => exprsReferences tables args
  -- a value per row may refer to the tables around it, a list of keys may not
  | .subquery query => query.references tables
  | .inList subject items _ => subject.references tables ++ exprsReferences tables items
  | .inQuery subject query _ => subject.references tables ++ query.references []
  | .between subject low high _ =>
    subject.references tables ++ low.references tables ++ high.references tables
  | .isNull subject _ | .cast subject _ => subject.references tables

/-- The columns of expressions. -/
def exprsReferences (tables : List TableRef) : List Expr → List Reference
  | [] => []
  | e :: rest => e.references tables ++ exprsReferences tables rest

/-- The columns of a projection. -/
def Item.references (tables : List TableRef) : Item → List Reference
  | ⟨expr, _⟩ => expr.references tables

/-- The columns of projections. -/
def itemsReferences (tables : List TableRef) : List Item → List Reference
  | [] => []
  | item :: rest => item.references tables ++ itemsReferences tables rest

/-- The columns of the condition of a join. -/
def Join.references (tables : List TableRef) : Join → List Reference
  | ⟨_, condition⟩ => condition.references tables

/-- The columns of the conditions of joins. -/
def joinsReferences (tables : List TableRef) : List Join → List Reference
  | [] => []
  | join :: rest => join.references tables ++ joinsReferences tables rest

/-- The columns of an ordering. -/
def OrderItem.references (tables : List TableRef) : OrderItem → List Reference
  | ⟨expr, _⟩ => expr.references tables

/-- The columns of orderings. -/
def ordersReferences (tables : List TableRef) : List OrderItem → List Reference
  | [] => []
  | item :: rest => item.references tables ++ ordersReferences tables rest

/-- The columns of a condition, if there is one. -/
def conditionReferences (tables : List TableRef) : Option Expr → List Reference
  | none => []
  | some e => e.references tables

/-- The columns of a statement, with its own tables in scope before those around it. -/
def Query.references (outer : List TableRef) : Query → List Reference
  | ⟨items, source, joins, condition, groups, orders, _⟩ =>
    let tables := joins.map Join.target ++ source.toList ++ outer
    itemsReferences tables items ++ joinsReferences tables joins ++
      conditionReferences tables condition ++ exprsReferences tables groups ++
      ordersReferences tables orders
end

variable {tables : List TableRef}

theorem exprsReferences_eq (es : List Expr) :
    exprsReferences tables es = es.flatMap (Expr.references tables) := by
  induction es with
  | nil => rw [exprsReferences, List.flatMap_nil]
  | cons e rest ih => rw [exprsReferences, ih, List.flatMap_cons]

theorem itemsReferences_eq (items : List Item) :
    itemsReferences tables items = (items.map Item.expr).flatMap (Expr.references tables) := by
  induction items with
  | nil => rw [itemsReferences, List.map_nil, List.flatMap_nil]
  | cons item rest ih =>
    obtain ⟨expr, label⟩ := item
    rw [itemsReferences, ih, Item.references, List.map_cons, List.flatMap_cons]

theorem joinsReferences_eq (joins : List Join) :
    joinsReferences tables joins =
      (joins.map Join.condition).flatMap (Expr.references tables) := by
  induction joins with
  | nil => rw [joinsReferences, List.map_nil, List.flatMap_nil]
  | cons join rest ih =>
    obtain ⟨target, condition⟩ := join
    rw [joinsReferences, ih, Join.references, List.map_cons, List.flatMap_cons]

theorem ordersReferences_eq (orders : List OrderItem) :
    ordersReferences tables orders =
      (orders.map OrderItem.expr).flatMap (Expr.references tables) := by
  induction orders with
  | nil => rw [ordersReferences, List.map_nil, List.flatMap_nil]
  | cons o rest ih =>
    obtain ⟨expr, direction⟩ := o
    rw [ordersReferences, ih, OrderItem.references, List.map_cons, List.flatMap_cons]

/-- The columns of a condition are those of its predicates. -/
theorem references_predicates (e : Expr) :
    e.predicates.flatMap (Expr.references tables) = e.references tables := by
  induction e using Expr.predicates.induct with
  | case1 left right ihl ihr => simp [Expr.predicates, Expr.references, ihl, ihr]
  | case2 left right ihl ihr => simp [Expr.predicates, Expr.references, ihl, ihr]
  | case3 inner ih => simp [Expr.predicates, Expr.references, ih]
  | case4 e hand hor hparen =>
    rw [Expr.predicates, List.flatMap_singleton]
    · exact hand
    · exact hor
    · exact hparen

/-- The columns of a statement are those of its parts. -/
theorem Query.references_parts (q : Query) (outer : List TableRef) :
    q.references outer = q.parts.flatMap (Expr.references (q.tables ++ outer)) := by
  obtain ⟨items, source, joins, condition, groups, orders, window⟩ := q
  have hcondition (tables : List TableRef) : conditionReferences tables condition =
      (condition.toList.flatMap Expr.predicates).flatMap (Expr.references tables) := by
    cases condition with
    | none => rfl
    | some e =>
      rw [conditionReferences, Option.toList_some, List.flatMap_singleton, references_predicates]
  rw [references, itemsReferences_eq, joinsReferences_eq, hcondition, exprsReferences_eq,
    ordersReferences_eq]
  simp only [parts, Query.tables, List.flatMap_append]

/-- A reference names a column that its table has. -/
def Reference.IsDeclared (s : Schema) (reference : Reference) : Prop :=
  ∃ t ∈ reference.tables, reference.table = some t.referenceName ∧
    s.HasColumn t.table reference.name

instance (s : Schema) (reference : Reference) : Decidable (reference.IsDeclared s) :=
  inferInstanceAs (Decidable (∃ t ∈ reference.tables, _ ∧ _))

end Sql

/-! ## Shapes -/

section Shapes

variable {tables : List TableRef} {column e : Expr}

@[simp] theorem references_of (table name : String) :
    (Expr.of table name).references tables = [⟨tables, some table, name⟩] := by
  rw [Expr.of, Expr.references]

theorem references_countRows : Expr.countRows.references tables = [] := by
  simp [Expr.countRows, Expr.count, Expr.apply, Expr.references, exprsReferences]

theorem references_refersTo (table discriminator field collection : String) (key : Expr) :
    (refersTo table discriminator field collection key).references tables =
      ⟨tables, some table, discriminator⟩ :: ⟨tables, some table, field⟩ ::
        key.references tables := by
  simp [refersTo, Expr.both, Expr.equals, Expr.string, Expr.references]

theorem references_datePart (d : Dialect) (part : DatePart) (kind : Calendar.DateKind) :
    (d.datePart part kind column).references tables = column.references tables := by
  cases d <;> cases kind <;>
    simp [Dialect.datePart, Expr.apply, Expr.string, Expr.int, Expr.references, exprsReferences]

theorem references_jsonArrayLength? {d : Dialect} (h : d.jsonArrayLength? column = some e) :
    e.references tables = column.references tables := by
  cases d <;> cases h <;> simp [Expr.apply, Expr.references, exprsReferences]

/-- A predicate on a column names what the column does. -/
theorem IsPredicate.references (h : IsPredicate column e) :
    e.references tables = column.references tables := by
  cases h with
  | null negated => simp [Expr.references]
  | compare value _ => simp [Expr.references]
  | compareLower value _ => simp [Expr.lower, Expr.apply, Expr.references, exprsReferences]
  | oneOf values negated =>
    have hvalues : (values.map Expr.literal).flatMap (Expr.references tables) = [] := by
      simp [Expr.references, List.flatMap_eq_nil_iff]
    rw [Expr.references, exprsReferences_eq, hvalues, List.append_nil]
  | between low high negated => simp [Expr.references]
  | @intersects d geojson boxes negated e he =>
    have hcall : e.references tables = column.references tables := by
      cases d <;> cases boxes <;> cases he <;>
        simp [Dialect.geometry, Expr.apply, Expr.string, Expr.references, exprsReferences]
    cases negated with
    | false => exact hcall
    | true => exact hcall

theorem references_aggregation (aggregation : Aggregation) :
    (aggregation.apply e).references tables = e.references tables := by
  cases aggregation <;>
    simp [Aggregation.apply, Expr.count, Expr.countDistinct, Expr.apply, Expr.references,
      exprsReferences]

end Shapes

end JsonSql
