import JsonSql.Proofs.Parts

set_option autoImplicit false

/-!
# Projections of groups and aggregations

What a request projects.  Each field that is grouped by is projected under its key (`GroupsBy`), the
other stages before the aggregations leave the projections as they are (`SameShape`), and the
aggregations put theirs behind them when all is joined (`grouped_of_apply`).  Those that go by the
name of a count of whole rows are such a count (`expr_of_aggregateItems`), which looks at the joins
of the whole statement (`countOf`).
-/

namespace JsonSql

open JsonSql.Sql

variable {options : Options} {collection : String} {r : Request} {k k' : Nat}

/-- Only a count of whole rows goes by this name. -/
theorem Aggregation.eq_count_of_resultName {aggregation : Aggregation} {field : String}
    (h : aggregation.resultName field = "count") : aggregation = .count ∧ field = "*" := by
  unfold resultName at h
  split at h
  · exact absurd h (by decide)
  · split at h
    · next hwhole => exact hwhole
    · -- the names of other results have an arrow in them
      have harrow : '-' ∈ (aggregation.key ++ "->." ++ field).toList := by
        simp [String.toList_append]
      rw [h] at harrow
      exact absurd harrow (by decide)

namespace Context

variable {c : Context}

/-- The count of whole rows of a statement: where there are joins, of the different primary keys. -/
def countOf (info : CollectionInfo) (q : Query) : Expr :=
  if q.hasJoins then .countDistinct (.of info.name info.primary) else .countRows

/-- Rows are counted as they come only where nothing is joined. -/
theorem joins_eq_nil_of_countOf {info : CollectionInfo} {q : Query}
    (h : countOf info q = .countRows) : q.joins = [] := by
  rw [countOf] at h
  split at h
  · cases h
  · next hnone => simpa [Query.hasJoins] using hnone

/-- A count of whole rows sums up its group, and is no row itself. -/
theorem isAggregate_countOf (info : CollectionInfo) (q : Query) (label : Option String) :
    Item.isAggregate ⟨countOf info q, label⟩ = true ∧ (countOf info q).wholeRow? = none := by
  rw [countOf]
  cases q.hasJoins <;> exact ⟨rfl, rfl⟩

/-- The projections of an aggregation that go by the name of a count of whole rows are such. -/
theorem expr_of_aggregateItems {info : CollectionInfo} {scope : Scope}
    {entry : Aggregation × List String} {items : List Item}
    (h : (c.aggregateItems info scope entry).Gives k items k') :
    ∀ item ∈ items, item.label = some "count" → item.expr = countOf info scope.query := by
  obtain ⟨aggregation, fields⟩ := entry
  unfold aggregateItems at h
  dsimp only at h
  split at h
  · next hall =>
    obtain ⟨rfl, -⟩ := Compile.gives_pure.mp h
    intro item hitem hlabel
    rw [List.mem_singleton.mp hitem, Option.some.injEq] at hlabel
    have hcount := (Aggregation.eq_count_of_resultName hlabel).1
    rw [hall] at hcount
    cases hcount
  · refine Compile.mapM_all (P := fun item => item.label = some "count" →
      item.expr = countOf info scope.query) (fun {field k item k'} hitem hlabel => ?_) h
    simp only [Compile.gives_bind, Compile.gives_pure] at hitem
    obtain ⟨e, k₁, he, rfl, -⟩ := hitem
    obtain ⟨rfl, rfl⟩ := Aggregation.eq_count_of_resultName (Option.some.inj hlabel)
    rw [aggregateExpr, if_pos rfl, if_pos rfl, Compile.gives_pure] at he
    exact he.1

/-- A count of whole rows is projected. -/
theorem exists_item_of_aggregateItems {info : CollectionInfo} {scope : Scope}
    {fields : List String} {items : List Item} (hfield : "*" ∈ fields)
    (h : (c.aggregateItems info scope (.count, fields)).Gives k items k') :
    ∃ item ∈ items, item.label = some "count" := by
  unfold aggregateItems at h
  dsimp only at h
  rw [if_neg (by decide)] at h
  obtain ⟨item, hitem, j, j', hgives⟩ := Compile.exists_mem_of_mapM h hfield
  simp only [Compile.gives_bind, Compile.gives_pure] at hgives
  obtain ⟨e, k₁, he, rfl, -⟩ := hgives
  exact ⟨_, hitem, rfl⟩

/-- The projections, the groups and the row window of two statements are the same. -/
structure SameShape (q q' : Query) : Prop where
  items : q'.items = q.items
  groups : q'.groups = q.groups
  window : q'.window = q.window

theorem SameShape.refl (q : Query) : SameShape q q := ⟨rfl, rfl, rfl⟩

theorem SameShape.trans {q q₁ q₂ : Query} (h : SameShape q q₁) (h' : SameShape q₁ q₂) :
    SameShape q q₂ :=
  ⟨h'.items.trans h.items, h'.groups.trans h.groups, h'.window.trans h.window⟩

theorem sameShape_of_sameButJoins {q q' : Query} (h : sameButJoins q q') : SameShape q q' := by
  rw [h]
  exact ⟨rfl, rfl, rfl⟩

/-- An ordering joins along a path and orders by its column. -/
theorem sameShape_of_sortBy {collection entry : String} {scope scope' : Scope}
    (h : (c.sortBy collection scope entry).Gives k scope' k') :
    SameShape scope.query scope'.query := by
  simp only [sortBy, joinedColumn, Compile.gives_bind, Compile.gives_lift, Compile.gives_pure] at h
  obtain ⟨⟨direction, key⟩, k₁, -, ⟨scope₁, column⟩, k₂, ⟨⟨scope₂, several⟩, k₃, hjoin, found, k₄,
    -, hresult, -⟩, rfl, -⟩ := h
  cases hresult
  have hsame := sameShape_of_sameButJoins
    (sameButJoins_of_joinPath hjoin (sameButJoins_refl scope.query))
  exact ⟨hsame.items, hsame.groups, hsame.window⟩

/-- A search adds a condition. -/
theorem sameShape_of_searchStage {collection : String} {scope scope' : Scope}
    (h : (c.searchStage collection r scope).Gives k scope' k') :
    SameShape scope.query scope'.query := by
  unfold searchStage at h
  split at h
  · obtain ⟨rfl, -⟩ := Compile.gives_pure.mp h
    exact .refl _
  · simp only [Compile.gives_map, search, Compile.gives_bind, Compile.gives_pure] at h
    obtain ⟨q, ⟨fields, k₁, -, rfl, -⟩, rfl⟩ := h
    exact ⟨rfl, rfl, rfl⟩

/-- A filter joins along its paths and adds a condition. -/
theorem sameShape_of_filterStage {collection : String} {inner several : Bool}
    {scope scope' : Scope}
    (h : (c.filterStage collection inner r scope).Gives k (scope', several) k') :
    SameShape scope.query scope'.query := by
  rcases filterStage_gives h with ⟨-, rfl, -⟩ | ⟨f, -, hrestrict⟩
  · exact .refl _
  · obtain ⟨scope₁, k₁, e?, hjoin, -, -, hquery⟩ :=
      addFilter_gives (addFilter_of_restrict hrestrict)
    have hsame := sameShape_of_sameButJoins
      (sameButJoins_of_joinFilter hjoin (sameButJoins_refl scope.query))
    rw [hquery]
    cases e? <;> exact ⟨hsame.items, hsame.groups, hsame.window⟩

/-- The joins of aggregations are all that they need before they are projected. -/
theorem sameShape_of_joinAggregate {collection : String} {scope scope' : Scope}
    {aggregate : List (Aggregation × List String)}
    (h : (c.joinAggregate collection scope aggregate).Gives k scope' k') :
    SameShape scope.query scope'.query := by
  refine Compile.foldlM_keeps (P := fun joined _ => SameShape scope.query joined.query)
    (fun {joined field k joined' k'} hbefore hfield => hbefore.trans ?_) (.refl _) h
  obtain ⟨⟨scope₁, several⟩, hjoin, rfl⟩ := Compile.gives_map.mp hfield
  exact sameShape_of_sameButJoins (sameButJoins_of_joinPath hjoin (sameButJoins_refl _))

/-- A statement with more groups, each of which is projected under the key that asks for it. -/
structure GroupsBy (q : Query) (keys : List String) (grouped : List Item) (q' : Query) : Prop where
  items : q'.items = q.items ++ grouped
  groups : q'.groups = q.groups ++ grouped.map Item.expr
  labels : grouped.map Item.label = keys.map some
  window : q'.window = q.window

theorem GroupsBy.nil (q : Query) : GroupsBy q [] [] q :=
  ⟨(List.append_nil _).symm, (List.append_nil _).symm, rfl, rfl⟩

/-- A group joins along the path of its field, and is projected. -/
theorem GroupsBy.groupBy {collection key : String} {q : Query} {keys : List String}
    {grouped : List Item} {scope scope' : Scope} (hbefore : GroupsBy q keys grouped scope.query)
    (h : (c.groupBy collection scope key).Gives k scope' k') :
    ∃ item, GroupsBy q (keys ++ [key]) (grouped ++ [item]) scope'.query := by
  simp only [Context.groupBy, joinedColumn, Compile.gives_bind, Compile.gives_pure] at h
  obtain ⟨⟨scope₁, column⟩, k₁, ⟨⟨scope₂, several⟩, k₂, hjoin, found, k₃, -, hresult, -⟩, rfl,
    -⟩ := h
  cases hresult
  have hsame := sameShape_of_sameButJoins
    (sameButJoins_of_joinPath hjoin (sameButJoins_refl scope.query))
  refine ⟨⟨column.expr, some key⟩, ?_, ?_, ?_, hsame.window.trans hbefore.window⟩
  · rw [← List.append_assoc, ← hbefore.items, ← hsame.items]
    rfl
  · rw [List.map_append, ← List.append_assoc, ← hbefore.groups, ← hsame.groups]
    rfl
  · rw [List.map_append, List.map_append, hbefore.labels]
    rfl

theorem GroupsBy.sameShape {q q₁ q₂ : Query} {keys : List String} {grouped : List Item}
    (h : GroupsBy q keys grouped q₁) (hsame : SameShape q₁ q₂) : GroupsBy q keys grouped q₂ :=
  ⟨hsame.items.trans h.items, hsame.groups.trans h.groups, h.labels, hsame.window.trans h.window⟩

/-- A request projects its groups and then its aggregations, after all that is joined, and keeps the
row window that it asks for. -/
theorem grouped_of_apply {collection : String} {q : Query} {applied : Applied}
    (h : (c.apply collection q r false).Gives k applied k') :
    ∃ info scope grouped items k₁ k₂, c.provider.collection collection = .ok (some info) ∧
      (r.aggregate.mapM (c.aggregateItems info scope)).Gives k₁ items k₂ ∧
      GroupsBy (Query.narrow q (c.options.window r)) r.group grouped scope.query ∧
      applied.query = items.flatten.foldl Query.addItem scope.query := by
  simp only [apply_eq, Compile.gives_bind, Compile.gives_pure] at h
  obtain ⟨info, k₁, hinfo, scope₁, k₂, horder, scope₂, k₃, hsearch, scope₃, k₄, hgroups,
    ⟨scope₄, repeatsRows⟩, k₅, hfilter, scope₅, k₆, haggregate, rfl, rfl⟩ := h
  obtain ⟨hfound, -⟩ := collection_gives.mp hinfo
  have h₁ : SameShape (Query.narrow q (c.options.window r)) scope₁.query := by
    rw [orderStage, if_neg Bool.false_ne_true] at horder
    exact Compile.foldlM_keeps
      (P := fun scope _ => SameShape (Query.narrow q (c.options.window r)) scope.query)
      (fun hbefore hsort => hbefore.trans (sameShape_of_sortBy hsort)) (.refl _) horder
  have h₂ : SameShape (Query.narrow q (c.options.window r)) scope₂.query :=
    h₁.trans (sameShape_of_searchStage hsearch)
  obtain ⟨grouped, h₃⟩ : ∃ grouped,
      GroupsBy (Query.narrow q (c.options.window r)) r.group grouped scope₃.query := by
    refine Compile.foldlM_builds (P := fun done scope _ => ∃ grouped,
        GroupsBy (Query.narrow q (c.options.window r)) done grouped scope.query)
      (fun hdone hgroup => ?_) ⟨[], (GroupsBy.nil _).sameShape h₂⟩ hgroups
    obtain ⟨grouped, hbefore⟩ := hdone
    obtain ⟨item, hafter⟩ := hbefore.groupBy hgroup
    exact ⟨grouped ++ [item], hafter⟩
  have h₄ := h₃.sameShape (sameShape_of_filterStage hfilter)
  unfold aggregateStage at haggregate
  split at haggregate
  · next hnone =>
    obtain ⟨rfl, rfl⟩ := Compile.gives_pure.mp haggregate
    rw [List.isEmpty_iff.mp hnone]
    exact ⟨info, scope₅, grouped, [], 0, 0, hfound, Compile.gives_pure.mpr ⟨rfl, rfl⟩, h₄, rfl⟩
  · simp only [addAggregate, Compile.gives_bind, Compile.gives_pure] at haggregate
    obtain ⟨joined, k₇, hjoin, items, k₈, hitems, rfl, -⟩ := haggregate
    exact ⟨info, joined, grouped, items, k₇, k₈, hfound, hitems,
      h₄.sameShape (sameShape_of_joinAggregate hjoin), rfl⟩

/-- A request without groups projects its aggregations, after all that is joined, and keeps the row
window that it asks for. -/
theorem projections_of_apply {collection : String} {q : Query} {applied : Applied}
    (hgroup : r.group = []) (h : (c.apply collection q r false).Gives k applied k') :
    ∃ info scope items k₁ k₂, c.provider.collection collection = .ok (some info) ∧
      (r.aggregate.mapM (c.aggregateItems info scope)).Gives k₁ items k₂ ∧
      applied.query.items = q.items ++ items.flatten ∧ applied.query.joins = scope.query.joins ∧
      applied.query.groups = q.groups ∧
      applied.query.window = (Query.narrow q (c.options.window r)).window := by
  obtain ⟨info, scope, grouped, items, k₁, k₂, hinfo, hitems, hgrouped, hquery⟩ :=
    grouped_of_apply h
  have hnone : grouped = [] := by
    have hlabels := hgrouped.labels
    rw [hgroup, List.map_nil, List.map_eq_nil_iff] at hlabels
    exact hlabels
  obtain ⟨window, hwindow⟩ := Query.narrow_eq q (c.options.window r)
  have hshape := hgrouped.groups
  have hbefore := hgrouped.items
  rw [hnone, List.map_nil, List.append_nil, hwindow] at hshape
  rw [hnone, List.append_nil, hwindow] at hbefore
  rw [hquery, foldl_addItem]
  exact ⟨info, scope, items, k₁, k₂, hinfo, hitems, by rw [hbefore], rfl, hshape, hgrouped.window⟩

end Context

end JsonSql
