import JsonSql.Proofs.Compiled

set_option autoImplicit false

/-!
# Scopes of column references

A column names its table by the label of the table or, without one, by the name of it.  `InScope`
says that every table that is named is one that SQL lets the place refer to: the tables of the same
`SELECT`, in the condition of a join only those up to that join, and in a subquery that gives one
value also a table of the `SELECT` around it.  Every compiled statement is in scope.
-/

namespace JsonSql

open JsonSql.Sql

namespace Sql

/-! ## References in scope -/

/-- The tables that a `SELECT` brings into scope: the one it reads and its joins. -/
def Query.ownNames (q : Query) : List String :=
  joinNames q.joins ++ q.source.toList.map TableRef.referenceName

mutual
/-- Every column of an expression refers to one of the tables. -/
def Expr.InScope (names : List String) : Expr → Prop
  | .column none _ => False
  | .column (some table) _ => table ∈ names
  | .literal _ => True
  | .binary _ left right => left.InScope names ∧ right.InScope names
  | .not inner => inner.InScope names
  | .call _ args _ => exprsInScope names args
  -- a value per row: one table of its own, and one around it that it may refer to
  | .subquery query => (∃ own, query.ownNames = [own]) ∧ ∃ table ∈ names, query.InScope [table]
  | .inList subject items _ => subject.InScope names ∧ exprsInScope names items
  -- a list of keys, the same for every row
  | .inQuery subject query _ => subject.InScope names ∧ query.InScope []
  | .between subject low high _ =>
    subject.InScope names ∧ low.InScope names ∧ high.InScope names
  | .isNull subject _ => subject.InScope names
  | .allColumns none => True
  | .allColumns (some table) => table ∈ names
  | .paren inner => inner.InScope names
  | .cast subject _ => subject.InScope names
  | .raw _ => True

/-- Every column of the expressions refers to one of the tables. -/
def exprsInScope (names : List String) : List Expr → Prop
  | [] => True
  | e :: rest => e.InScope names ∧ exprsInScope names rest

/-- Every column of a projection refers to one of the tables. -/
def Item.InScope (names : List String) : Item → Prop
  | ⟨expr, _⟩ => expr.InScope names

/-- Every column of the projections refers to one of the tables. -/
def itemsInScope (names : List String) : List Item → Prop
  | [] => True
  | item :: rest => item.InScope names ∧ itemsInScope names rest

/-- The condition of a join refers to the table itself and to those before it. -/
def Join.InScope (names : List String) : Join → Prop
  | ⟨target, condition⟩ => condition.InScope (target.referenceName :: names)

/-- Each join refers to the joins before it. -/
def joinsInScope (names : List String) : List Join → Prop
  | [] => True
  | join :: rest => join.InScope names ∧ joinsInScope (join.target.referenceName :: names) rest

/-- Every column of an ordering refers to one of the tables. -/
def OrderItem.InScope (names : List String) : OrderItem → Prop
  | ⟨expr, _⟩ => expr.InScope names

/-- Every column of the orderings refers to one of the tables. -/
def ordersInScope (names : List String) : List OrderItem → Prop
  | [] => True
  | item :: rest => item.InScope names ∧ ordersInScope names rest

/-- Every column of a condition, if there is one, refers to one of the tables. -/
def conditionInScope (names : List String) : Option Expr → Prop
  | none => True
  | some e => e.InScope names

/-- Every column of a query refers to a table of the query or of those around it. -/
def Query.InScope (outer : List String) : Query → Prop
  | ⟨items, source, joins, condition, groups, orders, _⟩ =>
    let tables := source.toList.map TableRef.referenceName ++ outer
    let names := joinNames joins ++ tables
    itemsInScope names items ∧ joinsInScope tables joins ∧ conditionInScope names condition ∧
      exprsInScope names groups ∧ ordersInScope names orders
end

variable {names : List String}

theorem exprsInScope_iff {es : List Expr} :
    exprsInScope names es ↔ ∀ e ∈ es, e.InScope names := by
  induction es with
  | nil => simp [exprsInScope]
  | cons e rest ih => simp [exprsInScope, ih]

theorem itemsInScope_iff {items : List Item} :
    itemsInScope names items ↔ ∀ item ∈ items, item.expr.InScope names := by
  induction items with
  | nil => simp [itemsInScope]
  | cons item rest ih =>
    cases item
    simp [itemsInScope, Item.InScope, ih]

theorem ordersInScope_iff {orders : List OrderItem} :
    ordersInScope names orders ↔ ∀ o ∈ orders, o.expr.InScope names := by
  induction orders with
  | nil => simp [ordersInScope]
  | cons o rest ih =>
    cases o
    simp [ordersInScope, OrderItem.InScope, ih]

end Sql

/-! ## Expressions of compiled statements -/

section Shapes

variable {names : List String} {e : Expr}

-- each of these unfolds one case
attribute [local simp] Expr.InScope exprsInScope

theorem inScope_of {table : String} (name : String) (h : table ∈ names) :
    (Expr.of table name).InScope names := by
  simpa [Expr.of] using h

theorem inScope_refersTo {table : String} (column field collection : String) {key : Expr}
    (htable : table ∈ names) (hkey : key.InScope names) :
    (refersTo table column field collection key).InScope names := by
  simp [refersTo, Expr.both, Expr.equals, Expr.string, Expr.of, htable, hkey]

theorem IsLink.inScope (h : IsLink names e) : e.InScope names := by
  cases h with
  | keys a b ht hu => exact ⟨inScope_of a ht, inScope_of b hu⟩
  | polymorphic column field collection key ht hu =>
    exact inScope_refersTo column field collection ht (inScope_of key hu)

theorem AreLinked.inScope {joins : List Join} (h : AreLinked names joins) :
    joinsInScope names joins := by
  induction joins generalizing names with
  | nil => trivial
  | cons join rest ih =>
    obtain ⟨target, condition⟩ := join
    obtain ⟨hcondition, hrest⟩ := h
    exact ⟨hcondition.inScope, ih hrest⟩

theorem IsCount.inScope {table : String} {q : Query} (h : IsCount table q) :
    q.InScope [table] := by
  cases h with
  | mk collection name hcondition =>
    refine ⟨?_, trivial, hcondition.inScope, trivial, trivial⟩
    simp [itemsInScope, Item.InScope, Expr.countRows, Expr.count, Expr.apply]

theorem IsColumn.inScope (h : IsColumn names e) : e.InScope names := by
  cases h with
  | plain name ht => exact inScope_of name ht
  | part d part kind name ht =>
    have hcolumn := inScope_of name ht
    cases d <;> cases kind <;>
      simp [Dialect.datePart, Expr.apply, Expr.string, Expr.int, hcolumn]
  | jsonLength d name ht he =>
    have hcolumn := inScope_of name ht
    cases d <;> cases he <;> exact ⟨hcolumn, trivial⟩
  | count ht hq =>
    refine ⟨?_, _, ht, hq.inScope⟩
    cases hq with
    | mk collection name hcondition => exact ⟨name, rfl⟩

theorem IsKey.inScope (h : IsKey names e) : e.InScope names := by
  cases h with
  | plain name ht => exact inScope_of name ht
  | text name ht => exact inScope_of name ht

theorem IsPredicate.inScope {column : Expr} (hcolumn : column.InScope names)
    (h : IsPredicate column e) : e.InScope names := by
  cases h with
  | null negated => exact hcolumn
  | compare value _ => exact ⟨hcolumn, trivial⟩
  | compareLower value _ => exact ⟨⟨hcolumn, trivial⟩, trivial⟩
  | oneOf values negated =>
    refine ⟨hcolumn, exprsInScope_iff.mpr ?_⟩
    intro e he
    obtain ⟨value, -, rfl⟩ := List.mem_map.mp he
    trivial
  | between low high negated => exact ⟨hcolumn, trivial, trivial⟩
  | @intersects d geojson boxes negated e he =>
    have hcall : e.InScope names := by
      cases d <;> cases boxes <;> cases he <;>
        simp [Dialect.geometry, Expr.apply, Expr.string, hcolumn]
    cases negated with
    | false => exact hcall
    | true => exact hcall

theorem IsCondition.inScope (h : IsCondition names e) : e.InScope names := by
  induction h with
  | predicate hcolumn he => exact he.inScope hcolumn.inScope
  | never names => exact ⟨trivial, trivial⟩
  | both _ _ _ _ ihl ihr => exact ⟨ihl, ihr⟩
  | either _ _ ihl ihr => exact ⟨ihl, ihr⟩
  | paren _ ih => exact ih
  | existential collection field negated hkey hjoins _ ih =>
    refine ⟨hkey.inScope, ?_, hjoins.inScope, ih, trivial, trivial⟩
    exact ⟨inScope_of field (List.mem_append_right _ List.mem_cons_self), trivial⟩

theorem IsItem.inScope (h : IsItem names e) : e.InScope names := by
  cases h with
  | table ht => exact ht
  | column he => exact he.inScope
  | rows => exact ⟨trivial, trivial⟩
  | aggregation a he => cases a <;> exact ⟨he.inScope, trivial⟩

end Shapes

/-! ## Compiled statements -/

theorem IsStatement.inScope {collection : String} {q : Query} (h : IsStatement collection q) :
    q.InScope [] := by
  obtain ⟨items, source, joins, condition, groups, orders, window⟩ := q
  obtain ⟨rfl, hjoins, hitems, hcondition, hgroups, horders⟩ := h
  refine ⟨?_, hjoins.inScope, ?_, ?_, ?_⟩
  · exact itemsInScope_iff.mpr fun item hitem => (hitems item hitem).inScope
  · cases condition with
    | none => trivial
    | some e => exact (hcondition e rfl).inScope
  · exact exprsInScope_iff.mpr fun e he => (hgroups e he).inScope
  · exact ordersInScope_iff.mpr fun o ho => (horders o ho).inScope

/-- Every column of a compiled statement, at any depth, refers to a table in scope. -/
theorem inScope_of_compile {s : Schema} {options : Options} {names : Nat → String}
    {collection : String} {r : Request} {q : Query}
    (h : Compiler.compile { provider := s.provider, options, names } collection r = .ok q) :
    q.InScope [] :=
  (isStatement_of_compile h).inScope

theorem inScope_of_compile_blog :
    ∃ q, (Compiler.blog .postgres).compile "articles" Request.blog = .ok q ∧ q.InScope [] := by
  obtain ⟨q, hq⟩ := exists_compile_blog .postgres
  exact ⟨q, hq, inScope_of_compile hq⟩

end JsonSql
