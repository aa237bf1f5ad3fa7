import JsonSql.Proofs.Existential
import JsonSql.Proofs.Leaves

set_option autoImplicit false

/-!
# The SELECTs of a statement

Every `SELECT` in a statement, the statement itself and its subqueries at any depth, and the aliases
that they introduce for tables.  Columns introduce an alias only where they count rows, and what is
made of a column introduces what the column does.
-/

namespace JsonSql

open JsonSql.Calendar
open JsonSql.Sql

namespace Sql

mutual
/-- The SELECTs in an expression, at any depth. -/
def Expr.selects : Expr → List Query
  | .column _ _ | .literal _ | .allColumns _ | .raw _ => []
  | .binary _ left right => left.selects ++ right.selects
  | .not inner | .paren inner => inner.selects
  | .call _ args _ => exprsSelects args
  | .subquery query => query.selects
  | .inList subject items _ => subject.selects ++ exprsSelects items
  | .inQuery subject query _ => subject.selects ++ query.selects
  | .between subject low high _ => subject.selects ++ low.selects ++ high.selects
  | .isNull subject _ | .cast subject _ => subject.selects

/-- The SELECTs in expressions. -/
def exprsSelects : List Expr → List Query
  | [] => []
  | e :: rest => e.selects ++ exprsSelects rest

/-- The SELECTs in a projection. -/
def Item.selects : Item → List Query
  | ⟨expr, _⟩ => expr.selects

/-- The SELECTs in projections. -/
def itemsSelects : List Item → List Query
  | [] => []
  | item :: rest => item.selects ++ itemsSelects rest

/-- The SELECTs in the condition of a join. -/
def Join.selects : Join → List Query
  | ⟨_, condition⟩ => condition.selects

/-- The SELECTs in the conditions of joins. -/
def joinsSelects : List Join → List Query
  | [] => []
  | join :: rest => join.selects ++ joinsSelects rest

/-- The SELECTs in an ordering. -/
def OrderItem.selects : OrderItem → List Query
  | ⟨expr, _⟩ => expr.selects

/-- The SELECTs in orderings. -/
def ordersSelects : List OrderItem → List Query
  | [] => []
  | item :: rest => item.selects ++ ordersSelects rest

/-- The SELECTs in a condition, if there is one. -/
def conditionSelects : Option Expr → List Query
  | none => []
  | some e => e.selects

/-- A statement and the SELECTs in it. -/
def Query.selects : Query → List Query
  | ⟨items, source, joins, condition, groups, orders, window⟩ =>
    ⟨items, source, joins, condition, groups, orders, window⟩ ::
      (itemsSelects items ++ joinsSelects joins ++ conditionSelects condition ++
        exprsSelects groups ++ ordersSelects orders)
end

/-- The aliases that a `SELECT` itself introduces. -/
def Query.ownAliases (q : Query) : List String :=
  (q.source.bind TableRef.label).toList ++ q.joins.filterMap fun join => join.target.label

/-- The aliases that an expression introduces, at any depth. -/
def Expr.introduced (e : Expr) : List String := e.selects.flatMap Query.ownAliases

/-- The aliases that a statement introduces, at any depth. -/
def Query.introduced (q : Query) : List String := q.selects.flatMap Query.ownAliases

/-- Without statements in it an expression introduces nothing. -/
theorem Expr.introduced_eq_nil {e : Expr} (h : e.selects = []) : e.introduced = [] := by
  rw [introduced, h, List.flatMap_nil]

/-! ## Parts -/

-- each of these unfolds one case
attribute [local simp] Expr.introduced Query.introduced Expr.selects

@[simp] theorem introduced_of (table name : String) : (Expr.of table name).introduced = [] := by
  simp [Expr.of]

@[simp] theorem introduced_literal (value : Literal) : (Expr.literal value).introduced = [] := by
  simp

@[simp] theorem introduced_allColumns (table : Option String) :
    (Expr.allColumns table).introduced = [] := by
  simp

@[simp] theorem introduced_binary (op : BinaryOp) (left right : Expr) :
    (Expr.binary op left right).introduced = left.introduced ++ right.introduced := by
  simp

@[simp] theorem introduced_paren (inner : Expr) :
    (Expr.paren inner).introduced = inner.introduced := by
  simp

@[simp] theorem introduced_isNull (subject : Expr) (negated : Bool) :
    (Expr.isNull subject negated).introduced = subject.introduced := by
  simp

@[simp] theorem introduced_cast (subject : Expr) (target : CastType) :
    (Expr.cast subject target).introduced = subject.introduced := by
  simp

@[simp] theorem introduced_subquery (q : Query) : (Expr.subquery q).introduced = q.introduced := by
  simp

@[simp] theorem introduced_inQuery (subject : Expr) (q : Query) (negated : Bool) :
    (Expr.inQuery subject q negated).introduced = subject.introduced ++ q.introduced := by
  simp

theorem exprsSelects_eq (es : List Expr) : exprsSelects es = es.flatMap Expr.selects := by
  induction es with
  | nil => rw [exprsSelects, List.flatMap_nil]
  | cons e rest ih => rw [exprsSelects, ih, List.flatMap_cons]

theorem itemsSelects_eq (items : List Item) :
    itemsSelects items = (items.map Item.expr).flatMap Expr.selects := by
  induction items with
  | nil => rw [itemsSelects, List.map_nil, List.flatMap_nil]
  | cons item rest ih =>
    obtain ⟨expr, label⟩ := item
    rw [itemsSelects, ih, Item.selects, List.map_cons, List.flatMap_cons]

theorem ordersSelects_eq (orders : List OrderItem) :
    ordersSelects orders = (orders.map OrderItem.expr).flatMap Expr.selects := by
  induction orders with
  | nil => rw [ordersSelects, List.map_nil, List.flatMap_nil]
  | cons o rest ih =>
    obtain ⟨expr, direction⟩ := o
    rw [ordersSelects, ih, OrderItem.selects, List.map_cons, List.flatMap_cons]

theorem joinsSelects_eq (joins : List Join) :
    joinsSelects joins = (joins.map Join.condition).flatMap Expr.selects := by
  induction joins with
  | nil => rw [joinsSelects, List.map_nil, List.flatMap_nil]
  | cons join rest ih =>
    obtain ⟨target, condition⟩ := join
    rw [joinsSelects, ih, Join.selects, List.map_cons, List.flatMap_cons]

@[simp] theorem introduced_call (name : String) (args : List Expr) (distinct : Bool) :
    (Expr.call name args distinct).introduced = args.flatMap Expr.introduced := by
  rw [Expr.introduced, Expr.selects, exprsSelects_eq, List.flatMap_assoc]
  rfl

/-- The SELECTs of a condition are those of its predicates. -/
theorem selects_predicates (e : Expr) : e.predicates.flatMap Expr.selects = e.selects := by
  induction e using Expr.predicates.induct with
  | case1 left right ihl ihr => simp [Expr.predicates, Expr.selects, ihl, ihr]
  | case2 left right ihl ihr => simp [Expr.predicates, Expr.selects, ihl, ihr]
  | case3 inner ih => simp [Expr.predicates, Expr.selects, ih]
  | case4 e hand hor hparen =>
    rw [Expr.predicates, List.flatMap_singleton]
    · exact hand
    · exact hor
    · exact hparen

/-- A condition introduces what its predicates introduce. -/
theorem introduced_predicates (e : Expr) :
    e.predicates.flatMap Expr.introduced = e.introduced := by
  rw [Expr.introduced, ← selects_predicates, List.flatMap_assoc]
  rfl

/-- A statement introduces its own aliases and those of its parts. -/
theorem Query.introduced_eq (q : Query) :
    q.introduced = q.ownAliases ++ ((q.items.map Item.expr).flatMap Expr.introduced ++
      (q.joins.map Join.condition).flatMap Expr.introduced ++
      (q.condition.toList.flatMap Expr.predicates).flatMap Expr.introduced ++
      q.groups.flatMap Expr.introduced ++
      (q.orders.map OrderItem.expr).flatMap Expr.introduced) := by
  obtain ⟨items, source, joins, condition, groups, orders, window⟩ := q
  have hcondition : (conditionSelects condition).flatMap Query.ownAliases =
      (condition.toList.flatMap Expr.predicates).flatMap Expr.introduced := by
    cases condition with
    | none => rfl
    | some e =>
      rw [conditionSelects, Option.toList_some, List.flatMap_singleton, introduced_predicates]
      rfl
  rw [Query.introduced, Query.selects, List.flatMap_cons]
  simp only [List.flatMap_append, itemsSelects_eq, joinsSelects_eq, exprsSelects_eq,
    ordersSelects_eq, hcondition, List.flatMap_assoc]
  rfl

end Sql

/-! ## Shapes -/

theorem selects_of (table name : String) : (Expr.of table name).selects = [] := by
  rw [Expr.of, Expr.selects]

theorem selects_equals (left right : Expr) :
    (Expr.equals left right).selects = left.selects ++ right.selects := by
  rw [Expr.equals, Expr.selects]

theorem selects_refersTo (table discriminator field collection : String) (key : Expr) :
    (refersTo table discriminator field collection key).selects = key.selects := by
  simp [refersTo, Expr.both, Expr.equals, Expr.string, Expr.of, Expr.selects]

theorem IsLink.selects {names : List String} {e : Expr} (h : IsLink names e) : e.selects = [] := by
  cases h with
  | keys a b _ _ => rw [selects_equals, selects_of, selects_of, List.append_nil]
  | polymorphic column field collection key _ _ => rw [selects_refersTo, selects_of]

theorem IsLink.introduced {names : List String} {e : Expr} (h : IsLink names e) :
    e.introduced = [] :=
  Expr.introduced_eq_nil h.selects

/-- The conditions of joins introduce no alias. -/
theorem AreLinked.introduced {names : List String} {joins : List Join}
    (h : AreLinked names joins) : (joins.map Join.condition).flatMap Expr.introduced = [] := by
  induction joins generalizing names with
  | nil => rfl
  | cons join rest ih =>
    obtain ⟨target, condition⟩ := join
    obtain ⟨hlink, hrest⟩ := h
    rw [List.map_cons, List.flatMap_cons, hlink.introduced, ih hrest]
    rfl

theorem IsKey.introduced {names : List String} {e : Expr} (h : IsKey names e) :
    e.introduced = [] := by
  cases h with
  | plain name _ => exact introduced_of _ _
  | text name _ => rw [introduced_cast, introduced_of]

/-- A part of a date holds no statement. -/
theorem selects_datePart (d : Dialect) (part : DatePart) (kind : DateKind)
    (table name : String) : (d.datePart part kind (.of table name)).selects = [] := by
  cases d <;> cases kind <;>
    simp [Dialect.datePart, Expr.apply, Expr.string, Expr.int, Expr.of, Expr.selects, exprsSelects]

theorem selects_jsonArrayLength? {d : Dialect} {table name : String} {e : Expr}
    (h : d.jsonArrayLength? (.of table name) = some e) : e.selects = [] := by
  cases d <;> cases h <;> simp [Expr.apply, Expr.of, Expr.selects, exprsSelects]

/-- A predicate on a column holds the statements of the column. -/
theorem IsPredicate.selects {column e : Expr} (h : IsPredicate column e) :
    e.selects = column.selects := by
  cases h with
  | null negated => simp [Expr.selects]
  | compare value _ => simp [Expr.selects]
  | compareLower value _ => simp [Expr.lower, Expr.apply, Expr.selects, exprsSelects]
  | oneOf values negated =>
    have hvalues : (values.map Expr.literal).flatMap Expr.selects = [] := by
      simp [Expr.selects, List.flatMap_eq_nil_iff]
    rw [Expr.selects, exprsSelects_eq, hvalues, List.append_nil]
  | between low high negated => simp [Expr.selects]
  | @intersects d geojson boxes negated e he =>
    have hcall : e.selects = column.selects := by
      cases d <;> cases boxes <;> cases he <;>
        simp [Dialect.geometry, Expr.apply, Expr.string, Expr.selects, exprsSelects]
    cases negated with
    | false => exact hcall
    | true =>
      rw [Operator.negatedIf, if_pos rfl, Expr.selects]
      exact hcall

/-- A predicate introduces what its column introduces. -/
theorem IsPredicate.introduced {column e : Expr} (h : IsPredicate column e) :
    e.introduced = column.introduced := by
  rw [Expr.introduced, h.selects]
  rfl

end JsonSql
