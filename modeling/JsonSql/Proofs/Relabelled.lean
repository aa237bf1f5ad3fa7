import Mathlib.Data.Option.Basic
import JsonSql.Statement.Compile

set_option autoImplicit false

/-!
# Statements under other labels

A statement with its labels exchanged (`Query.relabelled`): the labels of its tables and the
qualifiers of its columns are mapped, at any depth, and all the rest stays: names of tables and of
columns, labels of projections, literals.  What builds statements commutes with this.
-/

namespace JsonSql

open JsonSql.Calendar
open JsonSql.Sql

variable {labels : String → String}

namespace Sql

/-- A table under another label. -/
def TableRef.relabelled (labels : String → String) (t : TableRef) : TableRef :=
  { t with label := t.label.map labels }

mutual
/-- An expression whose columns refer to tables by other labels. -/
def Expr.relabelled (labels : String → String) : Expr → Expr
  | .column table name => .column (table.map labels) name
  | .literal value => .literal value
  | .binary op left right => .binary op (left.relabelled labels) (right.relabelled labels)
  | .not inner => .not (inner.relabelled labels)
  | .call name args distinct => .call name (exprsRelabelled labels args) distinct
  | .subquery query => .subquery (query.relabelled labels)
  | .inList subject items negated =>
    .inList (subject.relabelled labels) (exprsRelabelled labels items) negated
  | .inQuery subject query negated =>
    .inQuery (subject.relabelled labels) (query.relabelled labels) negated
  | .between subject low high negated =>
    .between (subject.relabelled labels) (low.relabelled labels) (high.relabelled labels) negated
  | .isNull subject negated => .isNull (subject.relabelled labels) negated
  | .allColumns table => .allColumns (table.map labels)
  | .paren inner => .paren (inner.relabelled labels)
  | .cast subject target => .cast (subject.relabelled labels) target
  | .raw text => .raw text

/-- Expressions under other labels. -/
def exprsRelabelled (labels : String → String) : List Expr → List Expr
  | [] => []
  | e :: rest => e.relabelled labels :: exprsRelabelled labels rest

/-- A projection under other labels; its own name stays. -/
def Item.relabelled (labels : String → String) : Item → Item
  | ⟨expr, label⟩ => ⟨expr.relabelled labels, label⟩

/-- Projections under other labels. -/
def itemsRelabelled (labels : String → String) : List Item → List Item
  | [] => []
  | item :: rest => item.relabelled labels :: itemsRelabelled labels rest

/-- A join under another label. -/
def Join.relabelled (labels : String → String) : Join → Join
  | ⟨target, condition⟩ => ⟨target.relabelled labels, condition.relabelled labels⟩

/-- Joins under other labels. -/
def joinsRelabelled (labels : String → String) : List Join → List Join
  | [] => []
  | join :: rest => join.relabelled labels :: joinsRelabelled labels rest

/-- An ordering under other labels. -/
def OrderItem.relabelled (labels : String → String) : OrderItem → OrderItem
  | ⟨expr, direction⟩ => ⟨expr.relabelled labels, direction⟩

/-- Orderings under other labels. -/
def ordersRelabelled (labels : String → String) : List OrderItem → List OrderItem
  | [] => []
  | item :: rest => item.relabelled labels :: ordersRelabelled labels rest

/-- A condition, if there is one, under other labels. -/
def conditionRelabelled (labels : String → String) : Option Expr → Option Expr
  | none => none
  | some e => some (e.relabelled labels)

/-- A statement under other labels. -/
def Query.relabelled (labels : String → String) : Query → Query
  | ⟨items, source, joins, condition, groups, orders, window⟩ =>
    ⟨itemsRelabelled labels items, source.map (TableRef.relabelled labels),
      joinsRelabelled labels joins, conditionRelabelled labels condition,
      exprsRelabelled labels groups, ordersRelabelled labels orders, window⟩
end

theorem exprsRelabelled_eq (es : List Expr) :
    exprsRelabelled labels es = es.map (Expr.relabelled labels) := by
  induction es with
  | nil => rw [exprsRelabelled, List.map_nil]
  | cons e rest ih => rw [exprsRelabelled, ih, List.map_cons]

theorem itemsRelabelled_eq (items : List Item) :
    itemsRelabelled labels items = items.map (Item.relabelled labels) := by
  induction items with
  | nil => rw [itemsRelabelled, List.map_nil]
  | cons item rest ih => rw [itemsRelabelled, ih, List.map_cons]

theorem joinsRelabelled_eq (joins : List Join) :
    joinsRelabelled labels joins = joins.map (Join.relabelled labels) := by
  induction joins with
  | nil => rw [joinsRelabelled, List.map_nil]
  | cons join rest ih => rw [joinsRelabelled, ih, List.map_cons]

theorem ordersRelabelled_eq (orders : List OrderItem) :
    ordersRelabelled labels orders = orders.map (OrderItem.relabelled labels) := by
  induction orders with
  | nil => rw [ordersRelabelled, List.map_nil]
  | cons item rest ih => rw [ordersRelabelled, ih, List.map_cons]

theorem conditionRelabelled_eq (condition : Option Expr) :
    conditionRelabelled labels condition = condition.map (Expr.relabelled labels) := by
  cases condition with
  | none => rw [conditionRelabelled, Option.map_none]
  | some e => rw [conditionRelabelled, Option.map_some]

/-- Each part of a statement is put under other labels. -/
theorem Query.relabelled_eq (q : Query) :
    q.relabelled labels = {
      items := q.items.map (Item.relabelled labels)
      source := q.source.map (TableRef.relabelled labels)
      joins := q.joins.map (Join.relabelled labels)
      condition := q.condition.map (Expr.relabelled labels)
      groups := q.groups.map (Expr.relabelled labels)
      orders := q.orders.map (OrderItem.relabelled labels)
      window := q.window } := by
  obtain ⟨items, source, joins, condition, groups, orders, window⟩ := q
  rw [Query.relabelled, itemsRelabelled_eq, joinsRelabelled_eq, conditionRelabelled_eq,
    exprsRelabelled_eq, ordersRelabelled_eq]

/-! ## The same labels -/

theorem TableRef.relabelled_id (t : TableRef) : t.relabelled id = t := by
  rw [relabelled, Option.map_id]
  rfl

mutual
theorem Expr.relabelled_id (e : Expr) : e.relabelled id = e := by
  cases e with
  | column table name => rw [Expr.relabelled, Option.map_id]; rfl
  | literal value => rw [Expr.relabelled]
  | binary op left right =>
    rw [Expr.relabelled, Expr.relabelled_id left, Expr.relabelled_id right]
  | not inner => rw [Expr.relabelled, Expr.relabelled_id inner]
  | call name args distinct => rw [Expr.relabelled, exprsRelabelled_id args]
  | subquery query => rw [Expr.relabelled, Query.relabelled_id query]
  | inList subject items negated =>
    rw [Expr.relabelled, Expr.relabelled_id subject, exprsRelabelled_id items]
  | inQuery subject query negated =>
    rw [Expr.relabelled, Expr.relabelled_id subject, Query.relabelled_id query]
  | between subject low high negated =>
    rw [Expr.relabelled, Expr.relabelled_id subject, Expr.relabelled_id low,
      Expr.relabelled_id high]
  | isNull subject negated => rw [Expr.relabelled, Expr.relabelled_id subject]
  | allColumns table => rw [Expr.relabelled, Option.map_id]; rfl
  | paren inner => rw [Expr.relabelled, Expr.relabelled_id inner]
  | cast subject target => rw [Expr.relabelled, Expr.relabelled_id subject]
  | raw text => rw [Expr.relabelled]

theorem exprsRelabelled_id (es : List Expr) : exprsRelabelled id es = es := by
  cases es with
  | nil => rw [exprsRelabelled]
  | cons e rest => rw [exprsRelabelled, Expr.relabelled_id e, exprsRelabelled_id rest]

theorem Item.relabelled_id (item : Item) : item.relabelled id = item := by
  obtain ⟨expr, label⟩ := item
  rw [Item.relabelled, Expr.relabelled_id expr]

theorem itemsRelabelled_id (items : List Item) : itemsRelabelled id items = items := by
  cases items with
  | nil => rw [itemsRelabelled]
  | cons item rest => rw [itemsRelabelled, Item.relabelled_id item, itemsRelabelled_id rest]

theorem Join.relabelled_id (join : Join) : join.relabelled id = join := by
  obtain ⟨target, condition⟩ := join
  rw [Join.relabelled, TableRef.relabelled_id, Expr.relabelled_id condition]

theorem joinsRelabelled_id (joins : List Join) : joinsRelabelled id joins = joins := by
  cases joins with
  | nil => rw [joinsRelabelled]
  | cons join rest => rw [joinsRelabelled, Join.relabelled_id join, joinsRelabelled_id rest]

theorem OrderItem.relabelled_id (item : OrderItem) : item.relabelled id = item := by
  obtain ⟨expr, direction⟩ := item
  rw [OrderItem.relabelled, Expr.relabelled_id expr]

theorem ordersRelabelled_id (orders : List OrderItem) : ordersRelabelled id orders = orders := by
  cases orders with
  | nil => rw [ordersRelabelled]
  | cons item rest => rw [ordersRelabelled, OrderItem.relabelled_id item, ordersRelabelled_id rest]

theorem conditionRelabelled_id (condition : Option Expr) :
    conditionRelabelled id condition = condition := by
  cases condition with
  | none => rw [conditionRelabelled]
  | some e => rw [conditionRelabelled, Expr.relabelled_id e]

theorem Query.relabelled_id (q : Query) : q.relabelled id = q := by
  obtain ⟨items, source, joins, condition, groups, orders, window⟩ := q
  have hsource : source.map (TableRef.relabelled id) = source := by
    cases source with
    | none => rfl
    | some t => rw [Option.map_some, TableRef.relabelled_id]
  rw [Query.relabelled, itemsRelabelled_id items, hsource, joinsRelabelled_id joins,
    conditionRelabelled_id condition, exprsRelabelled_id groups, ordersRelabelled_id orders]
end

/-! ## Expressions -/

-- each of these unfolds one case
attribute [local simp] Expr.relabelled exprsRelabelled_eq

@[simp] theorem relabelled_of (table name : String) :
    (Expr.of table name).relabelled labels = .of (labels table) name := by
  simp [Expr.of]

@[simp] theorem relabelled_literal (value : Literal) :
    (Expr.literal value).relabelled labels = .literal value := by
  simp

@[simp] theorem relabelled_string (s : String) : (Expr.string s).relabelled labels = .string s := by
  simp [Expr.string]

@[simp] theorem relabelled_int (n : Int) : (Expr.int n).relabelled labels = .int n := by
  simp [Expr.int]

@[simp] theorem relabelled_apply (name : String) (args : List Expr) :
    (Expr.apply name args).relabelled labels =
      .apply name (args.map (Expr.relabelled labels)) := by
  simp [Expr.apply]

@[simp] theorem relabelled_lower (e : Expr) :
    e.lower.relabelled labels = (e.relabelled labels).lower := by
  simp [Expr.lower]

@[simp] theorem relabelled_both (left right : Expr) :
    (Expr.both left right).relabelled labels =
      .both (left.relabelled labels) (right.relabelled labels) := by
  simp [Expr.both]

@[simp] theorem relabelled_either (left right : Expr) :
    (Expr.either left right).relabelled labels =
      .either (left.relabelled labels) (right.relabelled labels) := by
  simp [Expr.either]

@[simp] theorem relabelled_equals (left right : Expr) :
    (Expr.equals left right).relabelled labels =
      .equals (left.relabelled labels) (right.relabelled labels) := by
  simp [Expr.equals]

@[simp] theorem relabelled_countRows :
    Expr.countRows.relabelled labels = .countRows := by
  simp [Expr.countRows, Expr.count]

@[simp] theorem relabelled_countDistinct (e : Expr) :
    (Expr.countDistinct e).relabelled labels = .countDistinct (e.relabelled labels) := by
  simp [Expr.countDistinct, Expr.relabelled, exprsRelabelled_eq]

@[simp] theorem relabelled_paren (e : Expr) :
    (Expr.paren e).relabelled labels = .paren (e.relabelled labels) := by
  simp

@[simp] theorem relabelled_cast (e : Expr) (target : CastType) :
    (Expr.cast e target).relabelled labels = .cast (e.relabelled labels) target := by
  simp

@[simp] theorem relabelled_isNull (e : Expr) (negated : Bool) :
    (Expr.isNull e negated).relabelled labels = .isNull (e.relabelled labels) negated := by
  simp

@[simp] theorem relabelled_subquery (q : Query) :
    (Expr.subquery q).relabelled labels = .subquery (q.relabelled labels) := by
  simp

@[simp] theorem relabelled_inQuery (subject : Expr) (q : Query) (negated : Bool) :
    (Expr.inQuery subject q negated).relabelled labels =
      .inQuery (subject.relabelled labels) (q.relabelled labels) negated := by
  simp

theorem isDisjunction_relabelled (e : Expr) :
    (e.relabelled labels).isDisjunction = e.isDisjunction := by
  cases e with
  | binary op left right => cases op <;> simp [Expr.isDisjunction]
  | _ => simp [Expr.isDisjunction]

@[simp] theorem relabelled_guarded (e : Expr) :
    e.guarded.relabelled labels = (e.relabelled labels).guarded := by
  rw [Expr.guarded, Expr.guarded, isDisjunction_relabelled]
  split
  · exact relabelled_paren e
  · rfl

theorem relabelled_datePart (d : Dialect) (part : DatePart) (kind : DateKind) (e : Expr) :
    (d.datePart part kind e).relabelled labels = d.datePart part kind (e.relabelled labels) := by
  cases d with
  | sqlite =>
    unfold Dialect.datePart
    dsimp only
    split <;> simp
  | postgres | duckdb | mysql | tsql => simp [Dialect.datePart]

theorem relabelled_jsonArrayLength? (d : Dialect) (e : Expr) :
    d.jsonArrayLength? (e.relabelled labels) =
      (d.jsonArrayLength? e).map (Expr.relabelled labels) := by
  cases d <;> simp [Dialect.jsonArrayLength?]

theorem relabelled_intersects? (d : Dialect) (e : Expr) (geojson : String) (boxes : Bool) :
    d.intersects? (e.relabelled labels) geojson boxes =
      (d.intersects? e geojson boxes).map (Expr.relabelled labels) := by
  cases d <;> cases boxes <;> simp [Dialect.intersects?, Dialect.geometry]

end Sql

theorem relabelled_refersTo (table column field collection : String) (key : Expr) :
    (refersTo table column field collection key).relabelled labels =
      refersTo (labels table) column field collection (key.relabelled labels) := by
  simp [refersTo]

/-! ## Predicates -/

theorem relabelled_negatedIf (negated : Bool) (e : Expr) :
    (Operator.negatedIf negated e).relabelled labels =
      Operator.negatedIf negated (e.relabelled labels) := by
  cases negated with
  | false => rfl
  | true => simp [Operator.negatedIf, Expr.relabelled]

theorem relabelled_compareOne (op : Operator) (column : Expr) (value : Literal) :
    (op.compareOne column value).relabelled labels =
      op.compareOne (column.relabelled labels) value := by
  unfold Operator.compareOne
  dsimp only
  rw [Expr.relabelled]
  congr 1
  · split
    · exact relabelled_lower column
    · rfl
  · split
    · exact relabelled_string _
    · exact relabelled_string _
    · exact relabelled_literal value

/-- The predicate of an operator on a column under another label. -/
theorem relabelled_predicate? (op : Operator) (d : Dialect) (column : Expr)
    (values : List Literal) (kept : Bool) :
    op.predicate? d (column.relabelled labels) values kept =
      (op.predicate? d column values kept).map (Option.map (Expr.relabelled labels)) := by
  cases op with
  | null negated => simp [Operator.predicate?, Except.map]
  | empty negated => simp [Operator.predicate?, Except.map, Expr.relabelled]
  | oneOf negated =>
    simp [Operator.predicate?, Except.map, Expr.relabelled, exprsRelabelled_eq]
  | between negated =>
    unfold Operator.predicate?
    dsimp only
    split
    · simp [Except.map, Expr.relabelled]
    · rfl
  | intersects boxes negated =>
    unfold Operator.predicate?
    dsimp only
    split
    · rw [relabelled_intersects?]
      cases d.intersects? column _ boxes with
      | none => rfl
      | some e => simp [Except.map, relabelled_negatedIf]
    · rfl
  | equal _ _ | less | lessOrEqual | greater | greaterOrEqual | holds _ _ _ =>
    cases values with
    | nil => rfl
    | cons value rest => simp [Operator.predicate?, Except.map, relabelled_compareOne]

/-! ## Groups of conditions -/

theorem relabelled_conjunction? (parts : List Expr) :
    conjunction? (parts.map (Expr.relabelled labels)) =
      (conjunction? parts).map (Expr.relabelled labels) := by
  cases parts with
  | nil => rfl
  | cons part rest =>
    rw [List.map_cons, conjunction?, conjunction?, Option.map_some, Option.some.injEq]
    induction rest generalizing part with
    | nil => rfl
    | cons next rest ih =>
      rw [List.map_cons, List.foldl_cons, List.foldl_cons, ← ih, relabelled_both,
        relabelled_guarded, relabelled_guarded]

theorem relabelled_disjunction? (parts : List Expr) :
    disjunction? (parts.map (Expr.relabelled labels)) =
      (disjunction? parts).map (Expr.relabelled labels) := by
  cases parts with
  | nil => rfl
  | cons part rest =>
    rw [List.map_cons, disjunction?, disjunction?, Option.map_some, Option.some.injEq]
    induction rest generalizing part with
    | nil => rfl
    | cons next rest ih =>
      rw [List.map_cons, List.foldl_cons, List.foldl_cons, ← ih, relabelled_either]

theorem relabelled_aggregation (aggregation : Aggregation) (e : Expr) :
    (aggregation.apply e).relabelled labels = aggregation.apply (e.relabelled labels) := by
  cases aggregation <;>
    simp [Aggregation.apply, Expr.count, Expr.countDistinct, Expr.relabelled, exprsRelabelled_eq]

/-- A search reads its collection by its own name. -/
theorem relabelled_searchPredicate? {collection : String} (hfixed : labels collection = collection)
    (term : String) (f : Field) :
    (searchPredicate? collection term f).map (Expr.relabelled labels) =
      searchPredicate? collection term f := by
  unfold searchPredicate?
  dsimp only
  split
  · rfl
  · split
    · simp [Expr.relabelled, hfixed]
    · rw [Option.map_map]
      refine congrArg (Option.map · _) (funext fun value => ?_)
      simp [hfixed]

theorem relabelled_searchCondition {collection : String} (hfixed : labels collection = collection)
    (term : String) (fields : List Field) :
    (searchCondition collection term fields).relabelled labels =
      searchCondition collection term fields := by
  have hparts : (fields.filterMap (searchPredicate? collection term)).map
      (Expr.relabelled labels) = fields.filterMap (searchPredicate? collection term) := by
    rw [List.map_filterMap]
    exact congrArg (List.filterMap · fields) (funext (relabelled_searchPredicate? hfixed term))
  have hsame : disjunction? ((fields.filterMap (searchPredicate? collection term)).map
        (Expr.relabelled labels)) =
      (disjunction? (fields.filterMap (searchPredicate? collection term))).map
        (Expr.relabelled labels) := relabelled_disjunction? _
  rw [hparts] at hsame
  unfold searchCondition
  cases hfound : disjunction? (fields.filterMap (searchPredicate? collection term)) with
  | none => simp
  | some e =>
    rw [hfound] at hsame
    exact (Option.some.inj hsame).symm

end JsonSql
