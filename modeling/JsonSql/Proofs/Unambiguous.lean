import JsonSql.Proofs.ConcealedRows
import JsonSql.Proofs.Introductions
import JsonSql.Proofs.RelatedRows
import JsonSql.Proofs.Scoping
import JsonSql.Schema.Validity

set_option autoImplicit false

/-!
# Qualifiers that denote one table

`Query.scopes` lists, for every `SELECT` of a statement, the names of the tables that a column there
may refer to.  A qualifier denotes one table if no name stands twice in such a list.  Aliases are
never issued twice, so the names differ unless an alias is spelled like a table that is read by its
own name: no collection is looked at when aliases are issued.
-/

namespace JsonSql

open JsonSql.Sql

namespace Sql

/-! ## The names in scope -/

mutual
/-- The names in scope in each `SELECT` of an expression, below tables of these names. -/
def Expr.scopes (names : List String) : Expr → List (List String)
  | .column _ _ | .literal _ | .allColumns _ | .raw _ => []
  | .binary _ left right => left.scopes names ++ right.scopes names
  | .not inner | .paren inner => inner.scopes names
  | .call _ args _ => exprsScopes names args
  -- a value per row may refer to the tables around it, a list of keys may not
  | .subquery query => query.scopes names
  | .inList subject items _ => subject.scopes names ++ exprsScopes names items
  | .inQuery subject query _ => subject.scopes names ++ query.scopes []
  | .between subject low high _ => subject.scopes names ++ low.scopes names ++ high.scopes names
  | .isNull subject _ | .cast subject _ => subject.scopes names

/-- The names in scope in each `SELECT` of expressions. -/
def exprsScopes (names : List String) : List Expr → List (List String)
  | [] => []
  | e :: rest => e.scopes names ++ exprsScopes names rest

/-- The names in scope in each `SELECT` of a projection. -/
def Item.scopes (names : List String) : Item → List (List String)
  | ⟨expr, _⟩ => expr.scopes names

/-- The names in scope in each `SELECT` of projections. -/
def itemsScopes (names : List String) : List Item → List (List String)
  | [] => []
  | item :: rest => item.scopes names ++ itemsScopes names rest

/-- The names in scope in each `SELECT` of the condition of a join. -/
def Join.scopes (names : List String) : Join → List (List String)
  | ⟨_, condition⟩ => condition.scopes names

/-- The names in scope in each `SELECT` of the conditions of joins. -/
def joinsScopes (names : List String) : List Join → List (List String)
  | [] => []
  | join :: rest => join.scopes names ++ joinsScopes names rest

/-- The names in scope in each `SELECT` of an ordering. -/
def OrderItem.scopes (names : List String) : OrderItem → List (List String)
  | ⟨expr, _⟩ => expr.scopes names

/-- The names in scope in each `SELECT` of orderings. -/
def ordersScopes (names : List String) : List OrderItem → List (List String)
  | [] => []
  | item :: rest => item.scopes names ++ ordersScopes names rest

/-- The names in scope in each `SELECT` of a condition, if there is one. -/
def conditionScopes (names : List String) : Option Expr → List (List String)
  | none => []
  | some e => e.scopes names

/-- The names in scope in a statement, its own tables before those around it, and in each `SELECT`
in it. -/
def Query.scopes (outer : List String) : Query → List (List String)
  | ⟨items, source, joins, condition, groups, orders, _⟩ =>
    let names := joinNames joins ++ source.toList.map TableRef.referenceName ++ outer
    names :: (itemsScopes names items ++ joinsScopes names joins ++
      conditionScopes names condition ++ exprsScopes names groups ++ ordersScopes names orders)
end

variable {names : List String}

theorem exprsScopes_eq (es : List Expr) :
    exprsScopes names es = es.flatMap (Expr.scopes names) := by
  induction es with
  | nil => rw [exprsScopes, List.flatMap_nil]
  | cons e rest ih => rw [exprsScopes, ih, List.flatMap_cons]

theorem itemsScopes_eq (items : List Item) :
    itemsScopes names items = (items.map Item.expr).flatMap (Expr.scopes names) := by
  induction items with
  | nil => rw [itemsScopes, List.map_nil, List.flatMap_nil]
  | cons item rest ih =>
    obtain ⟨expr, label⟩ := item
    rw [itemsScopes, ih, Item.scopes, List.map_cons, List.flatMap_cons]

theorem joinsScopes_eq (joins : List Join) :
    joinsScopes names joins = (joins.map Join.condition).flatMap (Expr.scopes names) := by
  induction joins with
  | nil => rw [joinsScopes, List.map_nil, List.flatMap_nil]
  | cons join rest ih =>
    obtain ⟨target, condition⟩ := join
    rw [joinsScopes, ih, Join.scopes, List.map_cons, List.flatMap_cons]

theorem ordersScopes_eq (orders : List OrderItem) :
    ordersScopes names orders = (orders.map OrderItem.expr).flatMap (Expr.scopes names) := by
  induction orders with
  | nil => rw [ordersScopes, List.map_nil, List.flatMap_nil]
  | cons o rest ih =>
    obtain ⟨expr, direction⟩ := o
    rw [ordersScopes, ih, OrderItem.scopes, List.map_cons, List.flatMap_cons]

/-- The scopes of a condition are those of its predicates. -/
theorem scopes_predicates (e : Expr) :
    e.predicates.flatMap (Expr.scopes names) = e.scopes names := by
  induction e using Expr.predicates.induct with
  | case1 left right ihl ihr => simp [Expr.predicates, Expr.scopes, ihl, ihr]
  | case2 left right ihl ihr => simp [Expr.predicates, Expr.scopes, ihl, ihr]
  | case3 inner ih => simp [Expr.predicates, Expr.scopes, ih]
  | case4 e hand hor hparen =>
    rw [Expr.predicates, List.flatMap_singleton]
    · exact hand
    · exact hor
    · exact hparen

/-- The expressions that a statement is made of, its condition predicate by predicate. -/
def Query.parts (q : Query) : List Expr :=
  q.items.map Item.expr ++ q.joins.map Join.condition ++
    q.condition.toList.flatMap Expr.predicates ++ q.groups ++ q.orders.map OrderItem.expr

theorem Query.introduced_parts (q : Query) :
    q.introduced = q.ownAliases ++ q.parts.flatMap Expr.introduced := by
  rw [Query.introduced_eq, parts]
  simp only [List.flatMap_append]

theorem Query.selects_parts (q : Query) : q.selects = q :: q.parts.flatMap Expr.selects := by
  obtain ⟨items, source, joins, condition, groups, orders, window⟩ := q
  have hcondition : conditionSelects condition =
      (condition.toList.flatMap Expr.predicates).flatMap Expr.selects := by
    cases condition with
    | none => rfl
    | some e =>
      rw [conditionSelects, Option.toList_some, List.flatMap_singleton, selects_predicates]
  rw [selects, itemsSelects_eq, joinsSelects_eq, hcondition, exprsSelects_eq, ordersSelects_eq]
  simp only [parts, List.flatMap_append]

theorem Query.scopes_parts (q : Query) (outer : List String) :
    q.scopes outer = (q.ownNames ++ outer) ::
      q.parts.flatMap (Expr.scopes (q.ownNames ++ outer)) := by
  obtain ⟨items, source, joins, condition, groups, orders, window⟩ := q
  have hcondition (names : List String) : conditionScopes names condition =
      (condition.toList.flatMap Expr.predicates).flatMap (Expr.scopes names) := by
    cases condition with
    | none => rfl
    | some e => rw [conditionScopes, Option.toList_some, List.flatMap_singleton, scopes_predicates]
  rw [scopes, itemsScopes_eq, joinsScopes_eq, hcondition, exprsScopes_eq, ordersScopes_eq]
  simp only [parts, ownNames, List.flatMap_append]

/-- No scope in an expression names a table twice, wherever the aliases that it introduces are new
to the tables around it. -/
def Expr.IsUnambiguous (e : Expr) : Prop :=
  ∀ names : List String, names.Nodup → (∀ name ∈ e.introduced, name ∉ names) →
    ∀ scope ∈ e.scopes names, scope.Nodup

/-- No scope in a statement names a table twice if its own does not, and its parts introduce aliases
that are new to it. -/
theorem Query.nodup_scopes {q : Query} (hown : q.ownNames.Nodup)
    (hparts : ∀ e ∈ q.parts, e.IsUnambiguous ∧ ∀ name ∈ e.introduced, name ∉ q.ownNames) :
    ∀ scope ∈ q.scopes [], scope.Nodup := by
  intro scope hscope
  rw [scopes_parts, List.append_nil, List.mem_cons, List.mem_flatMap] at hscope
  rcases hscope with rfl | ⟨e, he, hscope⟩
  · exact hown
  · obtain ⟨hclear, hnew⟩ := hparts e he
    exact hclear q.ownNames hown hnew scope hscope

theorem Expr.isUnambiguous_of_scopes {e : Expr} (h : ∀ names, e.scopes names = []) :
    e.IsUnambiguous := by
  intro names _ _ scope hscope
  rw [h] at hscope
  cases hscope

end Sql

/-! ## Shapes -/

section Shapes

variable {names around : List String} {e : Expr}

-- each of these unfolds one case
attribute [local simp] Expr.scopes exprsScopes

theorem IsLink.scopes (h : IsLink names e) : e.scopes around = [] := by
  cases h with
  | keys a b _ _ => simp [Expr.equals, Expr.of]
  | polymorphic column field collection key _ _ =>
    simp [refersTo, Expr.both, Expr.equals, Expr.string, Expr.of]

theorem IsKey.scopes (h : IsKey names e) : e.scopes around = [] := by
  cases h with
  | plain name _ => simp [Expr.of]
  | text name _ => simp [Expr.of]

theorem IsReferring.scopes {collection : String} {link : Link} {r : Relation}
    {polymorphic : Bool} (h : IsReferring collection link r polymorphic e) :
    e.scopes around = [] := by
  cases h with
  | plain r => simp [Expr.of]
  | polymorphic r hcolumn =>
    simp [Expr.both, Expr.equals, Expr.string, Expr.of]

/-- A column that counts rows has its one alias beside the names around it. -/
theorem IsColumn.scopes (h : IsColumn names e) :
    e.scopes around = e.introduced.map fun name => name :: around := by
  cases h with
  | plain name _ => simp [Expr.of, Expr.introduced, Expr.selects]
  | @part t d part kind name _ =>
    rw [Expr.introduced_eq_nil (selects_datePart d part kind t name)]
    cases d <;> cases kind <;>
      simp [Dialect.datePart, Expr.apply, Expr.string, Expr.int, Expr.of]
  | @jsonLength t d name e _ he =>
    rw [Expr.introduced_eq_nil (selects_jsonArrayLength? he)]
    cases d <;> cases he <;> simp [Expr.apply, Expr.of]
  | count _ hq =>
    cases hq with
    | mk collection name hlink =>
      rw [Expr.scopes, introduced_subquery, Query.scopes_parts, Query.introduced_parts]
      simp [Query.parts, Query.ownNames, Query.ownAliases, joinNames, TableRef.referenceName,
        scopes_predicates, introduced_predicates, hlink.scopes, hlink.introduced, Expr.countRows,
        Expr.count, Expr.apply]

theorem IsColumn.isUnambiguous (h : IsColumn names e) : e.IsUnambiguous := by
  intro around haround hnew scope hscope
  rw [h.scopes, List.mem_map] at hscope
  obtain ⟨name, hname, rfl⟩ := hscope
  exact List.nodup_cons.mpr ⟨hnew name hname, haround⟩

/-- A projection has the scopes of its column. -/
theorem IsItem.isUnambiguous (h : IsItem names e) : e.IsUnambiguous := by
  cases h with
  | table _ => exact Expr.isUnambiguous_of_scopes fun around => by simp
  | column he => exact he.isUnambiguous
  | rows =>
    exact Expr.isUnambiguous_of_scopes fun around => by
      simp [Expr.countRows, Expr.count, Expr.apply]
  | @aggregation column a he =>
    intro around haround hnew
    have hscopes : (a.apply column).scopes around = column.scopes around := by
      cases a <;>
        simp [Aggregation.apply, Expr.count, Expr.countDistinct, Expr.apply]
    rw [Context.introduced_aggregation] at hnew
    rw [hscopes]
    exact he.isUnambiguous around haround hnew

/-- A predicate has the scopes of its column. -/
theorem IsPredicate.scopes {column : Expr} (h : IsPredicate column e) :
    e.scopes around = column.scopes around := by
  have hliterals (values : List Literal) : exprsScopes around (values.map Expr.literal) = [] := by
    rw [exprsScopes_eq, List.flatMap_eq_nil_iff]
    intro value hvalue
    obtain ⟨v, -, rfl⟩ := List.mem_map.mp hvalue
    rw [Expr.scopes]
  cases h with
  | null negated => rw [Expr.scopes]
  | compare value _ => simp
  | compareLower value _ => simp [Expr.lower, Expr.apply]
  | oneOf values negated => rw [Expr.scopes, hliterals, List.append_nil]
  | between low high negated => simp
  | @intersects d geojson boxes negated e he =>
    have hcall : e.scopes around = column.scopes around := by
      cases d <;> cases boxes <;> cases he <;>
        simp [Dialect.geometry, Expr.apply, Expr.string]
    cases negated with
    | false => exact hcall
    | true => exact hcall

theorem IsPredicate.isUnambiguous {column : Expr} (h : IsPredicate column e)
    (hcolumn : IsColumn names column) : e.IsUnambiguous := by
  intro around haround hnew
  rw [h.introduced] at hnew
  rw [h.scopes]
  exact hcolumn.isUnambiguous around haround hnew

theorem AreLinked.scopes {joins : List Join} (h : AreLinked names joins) :
    ∀ e ∈ joins.map Join.condition, e.scopes around = [] := by
  induction joins generalizing names with
  | nil => simp
  | cons join rest ih =>
    obtain ⟨target, condition⟩ := join
    obtain ⟨hlink, hrest⟩ := h
    intro e he
    rcases List.mem_cons.mp he with rfl | he
    · exact hlink.scopes
    · exact ih hrest e he

end Shapes

/-! ## Conditions -/

/-- No alias is spelled like a table that is read by its own name. -/
def Sql.SpelledApart (aliases : List String) (selects : List Query) : Prop :=
  ∀ select ∈ selects, ∀ name ∈ aliases, select.source ≠ some ⟨name, none⟩

instance (aliases : List String) (selects : List Query) :
    Decidable (SpelledApart aliases selects) :=
  inferInstanceAs (Decidable (∀ select ∈ selects, ∀ name ∈ aliases, _ ≠ _))

theorem Sql.SpelledApart.mono {aliases fewer : List String} {selects some : List Query}
    (h : SpelledApart aliases selects) (haliases : fewer ⊆ aliases) (hselects : some ⊆ selects) :
    SpelledApart fewer some :=
  fun select hselect name hname => h select (hselects hselect) name (haliases hname)

theorem parts_keysWith (r : Relation) (joins : List Join) (known : Expr) (e? : Option Expr) :
    (r.keysWith joins (known.and? e?)).parts = .of r.collection r.field ::
      (joins.map Join.condition ++ (known.predicates ++ e?.toList.flatMap Expr.predicates)) := by
  simp [Query.parts, Relation.keysWith, predicates_and?]

/-- The keys of related rows are unambiguous if the filter inside is. -/
theorem nodup_scopes_keysWith {collection : String} {link : Link} {r : Relation}
    {polymorphic : Bool} {known : Expr} {joins : List Join} {e? : Option Expr}
    (hreferring : IsReferring collection link r polymorphic known)
    (hlinked : AreLinked [r.collection] joins)
    (hown : (joinNames joins ++ [r.collection]).Nodup)
    (hinside : ∀ e ∈ e?.toList.flatMap Expr.predicates, e.IsUnambiguous ∧
      ∀ name ∈ e.introduced, name ∉ joinNames joins ++ [r.collection]) :
    ∀ scope ∈ (r.keysWith joins (known.and? e?)).scopes [], scope.Nodup := by
  have hplain : ∀ e : Expr, (∀ names, e.scopes names = []) → e.introduced = [] →
      e.IsUnambiguous ∧ ∀ name ∈ e.introduced, name ∉ joinNames joins ++ [r.collection] := by
    intro e hscopes hintroduced
    rw [hintroduced]
    exact ⟨Expr.isUnambiguous_of_scopes hscopes, fun name hname => by cases hname⟩
  refine Query.nodup_scopes hown fun e he => ?_
  rw [parts_keysWith, List.mem_cons, List.mem_append, List.mem_append] at he
  rcases he with rfl | he | he | he
  · exact hplain _ (fun names => by simp [Expr.of, Expr.scopes]) (introduced_of _ _)
  · exact hplain e (fun names => hlinked.scopes e he)
      (List.flatMap_eq_nil_iff.mp hlinked.introduced e he)
  · refine hplain e (fun names => ?_) (List.flatMap_eq_nil_iff.mp ?_ e he)
    · have hscopes : known.predicates.flatMap (Expr.scopes names) = [] := by
        rw [scopes_predicates, hreferring.scopes]
      exact List.flatMap_eq_nil_iff.mp hscopes e he
    · rw [introduced_predicates, hreferring.introduced]
  · exact hinside e he

/-- The conditions of leaves whose aliases differ are unambiguous. -/
theorem LeavesIntroduce.isUnambiguous {c : Context} {hops : Hops} {collection : String}
    {leaves : List Leaf} {predicates : List Expr} {aliases : List String}
    (h : LeavesIntroduce c hops collection leaves predicates aliases) (hnodup : aliases.Nodup)
    (hapart : SpelledApart aliases (predicates.flatMap Expr.selects)) :
    ∀ e ∈ predicates, e.IsUnambiguous := by
  induction h with
  | nil => simp
  | @compared hops collection parents key comparisons leaves column parts predicates aliases
      hreads hparts hrest ih =>
    obtain ⟨place, -, hcolumn⟩ := hreads
    rw [List.flatMap_append] at hapart
    intro e he
    rcases List.mem_append.mp he with he | he
    · exact (hparts e he).isUnambiguous hcolumn
    · exact ih (List.nodup_append.mp hnodup).2.1
        (hapart.mono (List.subset_append_right _ _) (List.subset_append_right _ _)) e he
  | @related hops collection parents key quantifier f leaves names owner link r polymorphic subject
      known scope e? predicates inner aliases hkey hreferring hlinked hjoins hinner hrest ihinner
      ihrest =>
    let keys := r.keysWith scope.query.joins (known.and? e?)
    rw [List.flatMap_cons] at hapart
    obtain ⟨hinside, hothers, -⟩ := List.nodup_append.mp hnodup
    have hkeys : SpelledApart (joinNames scope.query.joins ++ inner) keys.selects := by
      refine hapart.mono (List.subset_append_left _ _) fun select hselect => ?_
      rw [Expr.selects]
      exact List.mem_append_left _ (List.mem_append_right _ hselect)
    rw [Query.selects_parts, parts_keysWith, List.flatMap_cons, List.flatMap_append,
      List.flatMap_append] at hkeys
    -- the statement of the keys reads the related collection by its own name
    have hcollection : r.collection ∉ joinNames scope.query.joins ++ inner := fun hname =>
      hkeys keys List.mem_cons_self r.collection hname rfl
    have hall : (joinNames scope.query.joins ++ [r.collection] ++ inner).Nodup := by
      rw [← List.append_cons]
      exact List.perm_middle.nodup_iff.mpr (List.nodup_cons.mpr ⟨hcollection, hinside⟩)
    obtain ⟨hown, hinnerNodup, hdisjoint⟩ := List.nodup_append.mp hall
    have hpredicates : ∀ e ∈ e?.toList.flatMap Expr.predicates, e.IsUnambiguous := by
      refine ihinner hinnerNodup (hkeys.mono (List.subset_append_right _ _) ?_)
      intro select hselect
      simp only [List.mem_cons, List.mem_append]
      exact .inr (.inr (.inr (.inr hselect)))
    intro e he
    rcases List.mem_cons.mp he with rfl | he
    · intro around haround hnew names hnames
      rw [Expr.scopes, hkey.scopes, List.nil_append] at hnames
      refine nodup_scopes_keysWith hreferring hlinked hown (fun e he => ⟨hpredicates e he, ?_⟩)
        names hnames
      intro name hname htable
      have hissued := (hinner.mem_iff name).mp (List.mem_flatMap.mpr ⟨e, he, hname⟩)
      exact hdisjoint name htable name hissued rfl
    · exact ihrest hothers
        (hapart.mono (List.subset_append_right _ _) (List.subset_append_right _ _)) e he

/-! ## Statements -/

/-- The parts of a statement are unambiguous if the predicates of its condition are. -/
theorem IsStatement.isUnambiguous {collection : String} {q : Query} (h : IsStatement collection q)
    (hcondition : ∀ e ∈ q.condition.toList.flatMap Expr.predicates, e.IsUnambiguous) :
    ∀ e ∈ q.parts, e.IsUnambiguous := by
  intro e he
  simp only [Query.parts, List.mem_append] at he
  rcases he with (((he | he) | he) | he) | he
  · obtain ⟨item, hitem, rfl⟩ := List.mem_map.mp he
    exact (h.items item hitem).isUnambiguous
  · exact Expr.isUnambiguous_of_scopes fun names => h.joins.scopes e he
  · exact hcondition e he
  · exact (h.groups e he).isUnambiguous
  · obtain ⟨o, ho, rfl⟩ := List.mem_map.mp he
    exact (h.orders o ho).isUnambiguous

/-- The parts of a statement introduce other aliases than its joins. -/
theorem Introductions.notMem_joinNames {c : Context} {collection : String} {base : List Expr}
    {paths : List (List String)} {r : Request} {scope : Scope}
    (i : Introductions c collection base paths r scope) (hnodup : i.aliases.Nodup)
    (hlinked : AreLinked [collection] scope.query.joins)
    (hbase : base.flatMap Expr.introduced = []) :
    ∀ e ∈ scope.query.parts, ∀ name ∈ e.introduced, name ∉ joinNames scope.query.joins := by
  intro e he name hname hjoined
  have hmem : name ∈ scope.query.parts.flatMap Expr.introduced :=
    List.mem_flatMap.mpr ⟨e, he, hname⟩
  simp only [Query.parts, List.flatMap_append, hlinked.introduced, i.items, i.condition, hbase,
    i.search, List.nil_append, List.append_nil, List.mem_append, i.filter.mem_iff] at hmem
  simp only [aliases, List.append_assoc] at hnodup
  refine (List.nodup_append.mp hnodup).2.2 name hjoined name ?_ rfl
  simp only [List.mem_append]
  tauto

/-- The statement that a request starts with introduces no alias. -/
theorem introduced_target (collection : String) (r : Request) :
    ((Compiler.target collection r).items.map Item.expr).flatMap Expr.introduced = [] := by
  unfold Compiler.target
  dsimp only
  split
  · rfl
  · simp [Query.selectAllOf]

/-- The predicates of the search and of the filter of a request are unambiguous. -/
theorem isUnambiguous_of_apply {s : Schema} {options : Options} {names : Nat → String}
    {collection : String} {q : Query} {r : Request} {applied : Applied} {k : Nat}
    (hinjective : Function.Injective names) (hcondition : q.condition = none)
    (hapart : SpelledApart applied.query.introduced applied.query.selects)
    (h : ((s.context options names).apply collection q r false).Gives 0 applied k) :
    ∀ e ∈ applied.query.condition.toList.flatMap Expr.predicates, e.IsUnambiguous := by
  obtain ⟨filtered, hpredicates, hnone, hsome⟩ := filtered_of_apply hcondition h
  intro e he
  rw [hpredicates, List.mem_append] at he
  rcases he with he | he
  · rcases Schema.mem_searched he with rfl | ⟨field, -, -, hpredicate⟩
    · exact Expr.isUnambiguous_of_scopes fun around => by simp [Expr.equals, Expr.int, Expr.scopes]
    · exact hpredicate.isUnambiguous (.plain field.name (List.mem_singleton_self collection))
  cases hfilter : r.filter with
  | none =>
    rw [hnone hfilter] at he
    cases he
  | some f =>
    obtain ⟨hops, e?, k₁, k₂, -, hgives, rfl⟩ := hsome f hfilter
    obtain ⟨aliases, hintroduce, hissued⟩ := Context.leavesIntroduce_of_leavesGive
      (sizeOf f.unfolded)
      (Context.isUnfolded_of_mem_leaves f.unfolded isPath_nil (isUnfolded_unfolded f))
      (fun parents key quantifier g hg => Context.sizeOf_lt_of_mem_leaves f.unfolded hg)
      (Context.leavesGive_condition? [] f.unfolded hgives)
    have hparts : e?.toList.flatMap Expr.predicates ⊆ applied.query.parts := fun p hp => by
      simp only [Query.parts, List.mem_append]
      exact .inl (.inl (.inr (hpredicates ▸ List.mem_append_right _ hp)))
    refine hintroduce.isUnambiguous (hissued.nodup hinjective)
      (hapart.mono (fun name hname => ?_) fun select hselect => ?_) e he
    · obtain ⟨p, hp, hintroduced⟩ := List.mem_flatMap.mp ((hintroduce.mem_iff name).mpr hname)
      rw [Query.introduced_parts]
      exact List.mem_append_right _ (List.mem_flatMap.mpr ⟨p, hparts hp, hintroduced⟩)
    · obtain ⟨p, hp, hselected⟩ := List.mem_flatMap.mp hselect
      rw [Query.selects_parts]
      exact List.mem_cons_of_mem _ (List.mem_flatMap.mpr ⟨p, hparts hp, hselected⟩)

/-- In a compiled statement the names in scope in each `SELECT`, at any depth, all differ, unless an
alias is spelled like a table that a `SELECT` reads by its own name. -/
theorem nodup_scopes_of_compile {s : Schema} {options : Options} {letters : Alias.Letters}
    {collection : String} {r : Request} {q : Query}
    (h : (s.compiler options letters).compile collection r = .ok q)
    (hapart : SpelledApart q.introduced q.selects) : ∀ scope ∈ q.scopes [], scope.Nodup := by
  have hstatement := isStatement_of_compile h
  obtain ⟨hops, i, hnodup, haliases⟩ := introductions_of_compile h
  obtain ⟨applied, happlied, rfl⟩ := Compiler.compile_eq_ok h
  obtain ⟨relations, k, hrelations, happly⟩ := Compiler.apply_eq_ok happlied
  obtain rfl : s.relations = relations := Except.ok.inj hrelations
  have hpredicates := isUnambiguous_of_apply (Alias.names_injective _ _ _)
    (Compiler.target_condition collection r) hapart happly
  -- the statement reads its collection by its own name
  have hcollection : ∀ name ∈ applied.query.introduced, name ≠ collection := by
    rintro name hname rfl
    refine hapart applied.query ?_ name hname hstatement.source
    rw [Query.selects_parts]
    exact List.mem_cons_self
  have hown : applied.query.ownNames = joinNames applied.query.joins ++ [collection] := by
    rw [Query.ownNames, hstatement.source]
    rfl
  refine Query.nodup_scopes ?_ fun e he => ⟨hstatement.isUnambiguous hpredicates e he, ?_⟩
  · rw [hown, List.nodup_append]
    refine ⟨?_, List.nodup_singleton _, fun name hname other hother => ?_⟩
    · simp only [Introductions.aliases, List.append_assoc] at hnodup
      exact (List.nodup_append.mp hnodup).1
    · rw [List.mem_singleton.mp hother]
      refine hcollection name ((haliases name).mpr ?_)
      simp only [Introductions.aliases, List.append_assoc]
      exact List.mem_append_left _ hname
  · intro name hname
    rw [hown, List.mem_append, List.mem_singleton, not_or]
    refine ⟨i.notMem_joinNames hnodup hstatement.joins (introduced_target collection r) e he name
      hname, hcollection name ?_⟩
    rw [Query.introduced_parts]
    exact List.mem_append_right _ (List.mem_flatMap.mpr ⟨e, he, hname⟩)

theorem nodup_scopes_of_compile_blog :
    ∃ q, (Schema.blog.compiler {} fun _ => 0).compile "articles" Request.blog = .ok q ∧
      SpelledApart q.introduced q.selects ∧ ∀ scope ∈ q.scopes [], scope.Nodup := by
  obtain ⟨q, hq, htables⟩ : ∃ q, (Schema.blog.compiler {} fun _ => 0).compile "articles"
      Request.blog = .ok q ∧ (q.selects.all fun select =>
        select.source.all fun t => (Schema.blog.collection? t.table).isSome) = true :=
    Compiler.exists_compile_with (by decide +kernel)
  have hapart : SpelledApart q.introduced q.selects := by
    intro select hselect name hname hsource
    obtain ⟨j, rfl⟩ := exists_of_mem_introduced hq hname
    have htable := List.all_eq_true.mp htables select hselect
    rw [hsource, Option.all_some, collection?_names_blog] at htable
    cases htable
  exact ⟨q, hq, hapart, nodup_scopes_of_compile hq hapart⟩

/-- A collection that is spelled like the first alias is joined under its own name. -/
theorem scopes_of_compile_hidden :
    Schema.hidden.validate.isOk = true ∧
      ∃ q, (Schema.hidden.compiler { aliasStyle := .sequential } fun _ => 0).compile "j1"
          { filter := some Filter.byAnn, limit := some (-1) } = .ok q ∧
        q.scopes [] = [["j1", "j1"]] ∧ ¬∀ scope ∈ q.scopes [], scope.Nodup := by
  obtain ⟨q, hq, hscopes⟩ : ∃ q, (Schema.hidden.compiler { aliasStyle := .sequential }
      fun _ => 0).compile "j1" { filter := some Filter.byAnn, limit := some (-1) } = .ok q ∧
        q.scopes [] = [["j1", "j1"]] :=
    Compiler.exists_compile_with (by decide +kernel)
  refine ⟨by decide +kernel, q, hq, hscopes, fun hall => ?_⟩
  rw [hscopes] at hall
  exact absurd (hall _ List.mem_cons_self) (by decide)

end JsonSql
