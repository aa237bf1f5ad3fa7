import JsonSql.Proofs.Selects

set_option autoImplicit false

/-!
# Subqueries

The queries that stand in a statement, at any depth: after `IN`, or where a value does.  With the
statement itself they are its SELECTs (`Query.selects_eq`).  A column has at most one subquery, which
counts rows under an alias of its own, and all that is made of a column has no other.
-/

namespace JsonSql

open JsonSql.Sql

namespace Sql

/-- How a query stands in a statement. -/
inductive Standing where
  /-- after `IN` or `NOT IN` -/
  | list
  /-- where a value stands -/
  | value
  deriving DecidableEq, Repr, Inhabited

mutual
/-- The queries that stand in an expression, at any depth. -/
def Expr.subqueries : Expr → List (Standing × Query)
  | .column _ _ | .literal _ | .allColumns _ | .raw _ => []
  | .binary _ left right => left.subqueries ++ right.subqueries
  | .not inner | .paren inner => inner.subqueries
  | .call _ args _ => exprsSubqueries args
  | .subquery query => (.value, query) :: query.subqueries
  | .inList subject items _ => subject.subqueries ++ exprsSubqueries items
  | .inQuery subject query _ => subject.subqueries ++ (.list, query) :: query.subqueries
  | .between subject low high _ => subject.subqueries ++ low.subqueries ++ high.subqueries
  | .isNull subject _ | .cast subject _ => subject.subqueries

/-- The queries that stand in expressions. -/
def exprsSubqueries : List Expr → List (Standing × Query)
  | [] => []
  | e :: rest => e.subqueries ++ exprsSubqueries rest

/-- The queries that stand in a projection. -/
def Item.subqueries : Item → List (Standing × Query)
  | ⟨expr, _⟩ => expr.subqueries

/-- The queries that stand in projections. -/
def itemsSubqueries : List Item → List (Standing × Query)
  | [] => []
  | item :: rest => item.subqueries ++ itemsSubqueries rest

/-- The queries that stand in the condition of a join. -/
def Join.subqueries : Join → List (Standing × Query)
  | ⟨_, condition⟩ => condition.subqueries

/-- The queries that stand in the conditions of joins. -/
def joinsSubqueries : List Join → List (Standing × Query)
  | [] => []
  | join :: rest => join.subqueries ++ joinsSubqueries rest

/-- The queries that stand in an ordering. -/
def OrderItem.subqueries : OrderItem → List (Standing × Query)
  | ⟨expr, _⟩ => expr.subqueries

/-- The queries that stand in orderings. -/
def ordersSubqueries : List OrderItem → List (Standing × Query)
  | [] => []
  | item :: rest => item.subqueries ++ ordersSubqueries rest

/-- The queries that stand in a condition, if there is one. -/
def conditionSubqueries : Option Expr → List (Standing × Query)
  | none => []
  | some e => e.subqueries

/-- The queries that stand in a statement. -/
def Query.subqueries : Query → List (Standing × Query)
  | ⟨items, _, joins, condition, groups, orders, _⟩ =>
    itemsSubqueries items ++ joinsSubqueries joins ++ conditionSubqueries condition ++
      exprsSubqueries groups ++ ordersSubqueries orders
end

/-! ## SELECTs -/

mutual
/-- The SELECTs in an expression are the queries that stand in it. -/
theorem Expr.selects_eq (e : Expr) : e.selects = e.subqueries.map Prod.snd := by
  cases e with
  | column table name | literal value | allColumns table | raw text =>
    simp only [Expr.selects, Expr.subqueries, List.map_nil]
  | binary op left right =>
    simp only [Expr.selects, Expr.subqueries, List.map_append, left.selects_eq, right.selects_eq]
  | not inner | paren inner => simp only [Expr.selects, Expr.subqueries, inner.selects_eq]
  | call name args distinct =>
    simp only [Expr.selects, Expr.subqueries, exprsSelects_eq_map args]
  | subquery query => simp only [Expr.selects, Expr.subqueries, List.map_cons, query.selects_eq]
  | inList subject items negated =>
    simp only [Expr.selects, Expr.subqueries, List.map_append, subject.selects_eq,
      exprsSelects_eq_map items]
  | inQuery subject query negated =>
    simp only [Expr.selects, Expr.subqueries, List.map_append, List.map_cons, subject.selects_eq,
      query.selects_eq]
  | between subject low high negated =>
    simp only [Expr.selects, Expr.subqueries, List.map_append, subject.selects_eq, low.selects_eq,
      high.selects_eq]
  | isNull subject negated | cast subject target =>
    simp only [Expr.selects, Expr.subqueries, subject.selects_eq]

theorem exprsSelects_eq_map (es : List Expr) :
    exprsSelects es = (exprsSubqueries es).map Prod.snd := by
  cases es with
  | nil => rw [exprsSelects, exprsSubqueries, List.map_nil]
  | cons e rest =>
    rw [exprsSelects, exprsSubqueries, List.map_append, e.selects_eq, exprsSelects_eq_map rest]

theorem itemsSelects_eq_map (items : List Item) :
    itemsSelects items = (itemsSubqueries items).map Prod.snd := by
  match items with
  | [] => rw [itemsSelects, itemsSubqueries, List.map_nil]
  | ⟨expr, label⟩ :: rest =>
    rw [itemsSelects, itemsSubqueries, List.map_append, Item.selects, Item.subqueries,
      expr.selects_eq, itemsSelects_eq_map rest]

theorem joinsSelects_eq_map (joins : List Join) :
    joinsSelects joins = (joinsSubqueries joins).map Prod.snd := by
  match joins with
  | [] => rw [joinsSelects, joinsSubqueries, List.map_nil]
  | ⟨target, condition⟩ :: rest =>
    rw [joinsSelects, joinsSubqueries, List.map_append, Join.selects, Join.subqueries,
      condition.selects_eq, joinsSelects_eq_map rest]

theorem ordersSelects_eq_map (orders : List OrderItem) :
    ordersSelects orders = (ordersSubqueries orders).map Prod.snd := by
  match orders with
  | [] => rw [ordersSelects, ordersSubqueries, List.map_nil]
  | ⟨expr, direction⟩ :: rest =>
    rw [ordersSelects, ordersSubqueries, List.map_append, OrderItem.selects, OrderItem.subqueries,
      expr.selects_eq, ordersSelects_eq_map rest]

theorem conditionSelects_eq_map (condition : Option Expr) :
    conditionSelects condition = (conditionSubqueries condition).map Prod.snd := by
  match condition with
  | none => rw [conditionSelects, conditionSubqueries, List.map_nil]
  | some e => rw [conditionSelects, conditionSubqueries, e.selects_eq]

/-- The SELECTs of a statement are the statement and the queries that stand in it. -/
theorem Query.selects_eq (q : Query) : q.selects = q :: q.subqueries.map Prod.snd := by
  obtain ⟨items, source, joins, condition, groups, orders, window⟩ := q
  simp only [Query.selects, Query.subqueries, List.map_append, itemsSelects_eq_map items,
    joinsSelects_eq_map joins, conditionSelects_eq_map condition, exprsSelects_eq_map groups,
    ordersSelects_eq_map orders]
end

/-- No query stands in an expression without SELECTs. -/
theorem Expr.subqueries_eq_nil {e : Expr} (h : e.selects = []) : e.subqueries = [] := by
  rw [e.selects_eq] at h
  exact List.map_eq_nil_iff.mp h

/-! ## Parts -/

theorem exprsSubqueries_eq (es : List Expr) :
    exprsSubqueries es = es.flatMap Expr.subqueries := by
  induction es with
  | nil => rw [exprsSubqueries, List.flatMap_nil]
  | cons e rest ih => rw [exprsSubqueries, ih, List.flatMap_cons]

theorem itemsSubqueries_eq (items : List Item) :
    itemsSubqueries items = (items.map Item.expr).flatMap Expr.subqueries := by
  induction items with
  | nil => rw [itemsSubqueries, List.map_nil, List.flatMap_nil]
  | cons item rest ih =>
    obtain ⟨expr, label⟩ := item
    rw [itemsSubqueries, ih, Item.subqueries, List.map_cons, List.flatMap_cons]

theorem joinsSubqueries_eq (joins : List Join) :
    joinsSubqueries joins = (joins.map Join.condition).flatMap Expr.subqueries := by
  induction joins with
  | nil => rw [joinsSubqueries, List.map_nil, List.flatMap_nil]
  | cons join rest ih =>
    obtain ⟨target, condition⟩ := join
    rw [joinsSubqueries, ih, Join.subqueries, List.map_cons, List.flatMap_cons]

theorem ordersSubqueries_eq (orders : List OrderItem) :
    ordersSubqueries orders = (orders.map OrderItem.expr).flatMap Expr.subqueries := by
  induction orders with
  | nil => rw [ordersSubqueries, List.map_nil, List.flatMap_nil]
  | cons o rest ih =>
    obtain ⟨expr, direction⟩ := o
    rw [ordersSubqueries, ih, OrderItem.subqueries, List.map_cons, List.flatMap_cons]

/-- The queries that stand in a condition are those of its predicates. -/
theorem subqueries_predicates (e : Expr) :
    e.predicates.flatMap Expr.subqueries = e.subqueries := by
  induction e using Expr.predicates.induct with
  | case1 left right ihl ihr => simp [Expr.predicates, Expr.subqueries, ihl, ihr]
  | case2 left right ihl ihr => simp [Expr.predicates, Expr.subqueries, ihl, ihr]
  | case3 inner ih => simp [Expr.predicates, Expr.subqueries, ih]
  | case4 e hand hor hparen =>
    rw [Expr.predicates, List.flatMap_singleton]
    · exact hand
    · exact hor
    · exact hparen

/-- The queries of a statement are those of its parts. -/
theorem Query.subqueries_eq (q : Query) :
    q.subqueries = (q.items.map Item.expr).flatMap Expr.subqueries ++
      (q.joins.map Join.condition).flatMap Expr.subqueries ++
      (q.condition.toList.flatMap Expr.predicates).flatMap Expr.subqueries ++
      q.groups.flatMap Expr.subqueries ++
      (q.orders.map OrderItem.expr).flatMap Expr.subqueries := by
  obtain ⟨items, source, joins, condition, groups, orders, window⟩ := q
  have hcondition : conditionSubqueries condition =
      (condition.toList.flatMap Expr.predicates).flatMap Expr.subqueries := by
    cases condition with
    | none => rw [conditionSubqueries, Option.toList_none, List.flatMap_nil, List.flatMap_nil]
    | some e =>
      rw [conditionSubqueries, Option.toList_some, List.flatMap_singleton, subqueries_predicates]
  rw [Query.subqueries, itemsSubqueries_eq, joinsSubqueries_eq, hcondition, exprsSubqueries_eq,
    ordersSubqueries_eq]

theorem subqueries_of (table name : String) : (Expr.of table name).subqueries = [] :=
  Expr.subqueries_eq_nil (selects_of table name)

theorem subqueries_countRows : Expr.countRows.subqueries = [] := by
  simp [Expr.countRows, Expr.count, Expr.apply, Expr.subqueries, exprsSubqueries]

end Sql

/-! ## Shapes -/

/-- The conditions of joins hold no query. -/
theorem AreLinked.subqueries {names : List String} {joins : List Join}
    (h : AreLinked names joins) : (joins.map Join.condition).flatMap Expr.subqueries = [] := by
  induction joins generalizing names with
  | nil => rfl
  | cons join rest ih =>
    obtain ⟨target, condition⟩ := join
    obtain ⟨hlink, hrest⟩ := h
    rw [List.map_cons, List.flatMap_cons, Expr.subqueries_eq_nil hlink.selects, ih hrest]
    rfl

theorem IsKey.subqueries {names : List String} {e : Expr} (h : IsKey names e) :
    e.subqueries = [] := by
  cases h with
  | plain name _ => exact subqueries_of _ _
  | text name _ => rw [Expr.subqueries, subqueries_of]

/-- No query stands in a query that counts rows. -/
theorem IsCount.subqueries {t : String} {q : Query} (h : IsCount t q) : q.subqueries = [] := by
  obtain ⟨collection, name, hlink⟩ := h
  rw [Query.subqueries_eq]
  simp [subqueries_countRows, subqueries_predicates, Expr.subqueries_eq_nil hlink.selects]

theorem IsCount.joins {t : String} {q : Query} (h : IsCount t q) : q.joins = [] := by
  obtain ⟨collection, name, hlink⟩ := h
  rfl

/-- A column is without queries, or is a query without joins. -/
theorem IsColumn.subqueries {names : List String} {e : Expr} (h : IsColumn names e) :
    e.subqueries = [] ∨ ∃ q, e.subqueries = [(.value, q)] ∧ q.joins = [] := by
  cases h with
  | plain name _ => exact .inl (subqueries_of _ _)
  | part d part kind name _ => exact .inl (Expr.subqueries_eq_nil (selects_datePart d part kind _ _))
  | jsonLength d name _ hlength =>
    exact .inl (Expr.subqueries_eq_nil (selects_jsonArrayLength? hlength))
  | count _ hcount =>
    exact .inr ⟨_, by rw [Expr.subqueries, hcount.subqueries], hcount.joins⟩

/-- The queries of a predicate on a column are those of the column. -/
theorem IsPredicate.subqueries {column e : Expr} (h : IsPredicate column e) :
    e.subqueries = column.subqueries := by
  cases h with
  | null negated => rw [Expr.subqueries]
  | compare value _ => simp [Expr.subqueries]
  | compareLower value _ => simp [Expr.lower, Expr.apply, Expr.subqueries, exprsSubqueries]
  | oneOf values negated =>
    have hvalues : (values.map Expr.literal).flatMap Expr.subqueries = [] := by
      simp [Expr.subqueries, List.flatMap_eq_nil_iff]
    rw [Expr.subqueries, exprsSubqueries_eq, hvalues, List.append_nil]
  | between low high negated => simp [Expr.subqueries]
  | @intersects d geojson boxes negated e he =>
    have hcall : e.subqueries = column.subqueries := by
      cases d <;> cases boxes <;> cases he <;>
        simp [Dialect.geometry, Expr.apply, Expr.string, Expr.subqueries, exprsSubqueries]
    cases negated with
    | false => exact hcall
    | true =>
      rw [Operator.negatedIf, if_pos rfl, Expr.subqueries]
      exact hcall

/-- The queries of an aggregation are those of its column. -/
theorem subqueries_aggregation (a : Aggregation) (e : Expr) :
    (a.apply e).subqueries = e.subqueries := by
  cases a <;>
    simp [Aggregation.apply, Expr.count, Expr.countDistinct, Expr.apply, Expr.subqueries,
      exprsSubqueries]

end JsonSql
