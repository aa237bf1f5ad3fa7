import JsonSql.Proofs.Followed
import JsonSql.Proofs.SeveralRows

set_option autoImplicit false

/-!
# Parts of a request

A request that is compiled adds a search and a filter to a statement.  All the rest, before, between
and after them, joins along paths and leaves the condition of the statement alone
(`Context.Prepares`), so what joins keep is kept by all of it.
-/

namespace JsonSql

open JsonSql.Sql

namespace Context

variable {c : Context} {collection : String} {paths : List (List String)} {start scope : Scope}
  {k₀ k k' : Nat}

/-- What the orderings, groups and aggregations of a request make of a scope: they join along paths
and change other parts of the statement than its joins and its condition. -/
inductive Prepares (c : Context) (collection : String) (paths : List (List String))
    (start : Scope) (k₀ : Nat) : Scope → Nat → Prop
  | refl : Prepares c collection paths start k₀ start k₀
  | join {scope next : Scope} {path : List String} {several : Bool} {k k' : Nat} :
      Prepares c collection paths start k₀ scope k → path ∈ paths →
      (c.joinPath false collection scope path).Gives k (next, several) k' →
      Prepares c collection paths start k₀ next k'
  | rest {scope : Scope} {q : Query} {k k' : Nat} :
      Prepares c collection paths start k₀ scope k → q.joins = scope.query.joins →
      q.condition = scope.query.condition → k ≤ k' →
      Prepares c collection paths start k₀ { scope with query := q } k'

namespace Prepares

theorem mono {more : List (List String)} (h : c.Prepares collection paths start k₀ scope k)
    (hsub : paths ⊆ more) : c.Prepares collection more start k₀ scope k := by
  induction h with
  | refl => exact .refl
  | join _ hpath hjoin ih => exact .join ih (hsub hpath) hjoin
  | rest _ hjoins hcondition hle ih => exact .rest ih hjoins hcondition hle

/-- The condition of the statement stays. -/
theorem condition_eq (h : c.Prepares collection paths start k₀ scope k) :
    scope.query.condition = start.query.condition := by
  induction h with
  | refl => rfl
  | @join scope next path several k k' _ _ hjoin ih =>
    have hsame := sameButJoins_of_joinPath hjoin (sameButJoins_refl scope.query)
    rw [← ih, hsame]
  | rest _ _ hcondition _ ih => exact hcondition.trans ih

theorem grows (h : c.Prepares collection paths start k₀ scope k) : k₀ ≤ k := by
  induction h with
  | refl => exact Nat.le_refl k₀
  | join _ _ hjoin ih => exact Nat.le_trans ih (grows_joinPath _ _ _ hjoin)
  | rest _ _ _ hle ih => exact Nat.le_trans ih hle

theorem keeps (h : c.Prepares collection paths start k₀ scope k) : Keeps start.hops scope.hops := by
  induction h with
  | refl => exact fun _ _ hfound => hfound
  | join _ _ hjoin ih =>
    exact fun path hop hfound => keeps_of_joinPath hjoin path hop (ih path hop hfound)
  | rest _ _ _ _ ih => exact ih

theorem led (hpaths : ∀ path ∈ paths, IsPath path) (hstart : start.hops.Led c collection k₀)
    (h : c.Prepares collection paths start k₀ scope k) : scope.hops.Led c collection k := by
  induction h with
  | refl => exact hstart
  | join _ hpath hjoin ih => exact ih.joinPath (hpaths _ hpath) hjoin
  | rest _ _ _ hle ih => exact ih.mono hle

theorem leads (hpaths : ∀ path ∈ paths, IsPath path) (hstart : start.hops.Leads c collection)
    (h : c.Prepares collection paths start k₀ scope k) : scope.hops.Leads c collection := by
  induction h with
  | refl => exact hstart
  | join _ hpath hjoin ih => exact ih.joinPath (hpaths _ hpath) hjoin
  | rest _ _ _ _ ih => exact ih

/-- A column whose path is joined first. -/
theorem joinedColumn {scope' : Scope} {key : String} {column : Column}
    (h : c.Prepares collection paths start k₀ scope k)
    (hjoined : (c.joinedColumn collection scope key).Gives k (scope', column) k') :
    c.Prepares collection (paths ++ [fieldPath key]) start k₀ scope' k' := by
  simp only [Context.joinedColumn, Compile.gives_bind, Compile.gives_pure] at hjoined
  obtain ⟨⟨scope₁, several⟩, k₁, hjoin, found, k₂, hcolumn, hresult, rfl⟩ := hjoined
  cases hresult
  have hnext := (h.mono (List.subset_append_left _ _)).join
    (List.mem_append_right paths (List.mem_singleton_self (fieldPath key))) hjoin
  exact hnext.rest rfl rfl (grows_column _ _ _ hcolumn)

theorem sortBy {scope' : Scope} {entry : String}
    (h : c.Prepares collection paths start k₀ scope k)
    (hsort : (c.sortBy collection scope entry).Gives k scope' k') :
    c.Prepares collection (paths ++ [sortPath entry]) start k₀ scope' k' := by
  simp only [Context.sortBy, Compile.gives_bind, Compile.gives_lift, Compile.gives_pure] at hsort
  obtain ⟨⟨direction, key⟩, k₁, ⟨hkey, rfl⟩, ⟨scope₁, column⟩, k₂, hjoined, rfl, rfl⟩ := hsort
  have hnext := h.joinedColumn hjoined
  rw [fieldPath_of_sortKey hkey] at hnext
  exact hnext.rest rfl rfl (Nat.le_refl _)

theorem groupBy {scope' : Scope} {key : String} (h : c.Prepares collection paths start k₀ scope k)
    (hgroup : (c.groupBy collection scope key).Gives k scope' k') :
    c.Prepares collection (paths ++ [fieldPath key]) start k₀ scope' k' := by
  simp only [Context.groupBy, Compile.gives_bind, Compile.gives_pure] at hgroup
  obtain ⟨⟨scope₁, column⟩, k₁, hjoined, rfl, rfl⟩ := hgroup
  exact (h.joinedColumn hjoined).rest rfl rfl (Nat.le_refl _)

theorem addAggregate {info : CollectionInfo} {scope' : Scope}
    {aggregate : List (Aggregation × List String)}
    (h : c.Prepares info.name paths start k₀ scope k)
    (hadd : (c.addAggregate info scope aggregate).Gives k scope' k') :
    c.Prepares info.name (paths ++ (aggregate.flatMap Prod.snd).map fieldPath) start k₀
      scope' k' := by
  simp only [Context.addAggregate, Compile.gives_bind, Compile.gives_pure] at hadd
  obtain ⟨scope₁, k₁, hjoin, items, k₂, hitems, rfl, rfl⟩ := hadd
  have hjoined : c.Prepares info.name (paths ++ (aggregate.flatMap Prod.snd).map fieldPath) start
      k₀ scope₁ k₁ := by
    refine Compile.foldlM_builds
      (P := fun done s j => c.Prepares info.name (paths ++ done.map fieldPath) start k₀ s j)
      ?_ (h.mono (List.subset_append_left _ _)) hjoin
    intro done s field j s' j' hdone hstep
    obtain ⟨⟨s₁, several⟩, hpath, rfl⟩ := Compile.gives_map.mp hstep
    rw [List.map_append, List.map_singleton, ← List.append_assoc]
    exact (hdone.mono (List.subset_append_left _ _)).join
      (List.mem_append_right _ (List.mem_singleton_self (fieldPath field))) hpath
  rw [Context.foldl_addItem]
  exact hjoined.rest rfl rfl (areSummaries_of_aggregate hitems).2.grows

/-- The row window and the ordering. -/
theorem of_orderStage {q : Query} {r : Request}
    (h : (c.orderStage collection false r q).Gives k₀ scope k) :
    c.Prepares collection (r.sort.map sortPath) { query := q } k₀ scope k := by
  rw [orderStage, if_neg Bool.false_ne_true] at h
  obtain ⟨window, hwindow⟩ := Query.narrow_eq q (c.options.window r)
  rw [hwindow] at h
  have hstart : c.Prepares collection [] { query := q } k₀ { query := { q with window } } k₀ :=
    .rest .refl rfl rfl (Nat.le_refl k₀)
  refine Compile.foldlM_builds
    (P := fun done s j => c.Prepares collection (done.map sortPath) { query := q } k₀ s j)
    ?_ hstart h
  intro done s entry j s' j' hdone hstep
  rw [List.map_append, List.map_singleton]
  exact hdone.sortBy hstep

theorem of_groupStage {r : Request}
    (h : (r.group.foldlM (c.groupBy collection) start).Gives k₀ scope k) :
    c.Prepares collection (r.group.map fieldPath) start k₀ scope k := by
  refine Compile.foldlM_builds
    (P := fun done s j => c.Prepares collection (done.map fieldPath) start k₀ s j) ?_ .refl h
  intro done s key j s' j' hdone hstep
  rw [List.map_append, List.map_singleton]
  exact hdone.groupBy hstep

end Prepares

/-- A request adds its search between two such parts, and its filter before a third one.  In the end
the joins match the prefixes of its paths. -/
theorem parts_of_apply {q : Query} {r : Request} {applied : Applied}
    (hnamed : ∀ info, c.provider.collection collection = .ok (some info) →
      info.name = collection)
    (h : (c.apply collection q r false).Gives 0 applied k) :
    ∃ scope₁ k₁ scope₂ scope₃ k₃ scope₄ several k₄ scope₅,
      c.Prepares collection (c.walkedPaths collection r) { query := q } 0 scope₁ k₁ ∧
      (c.searchStage collection r scope₁).Gives k₁ scope₂ k₁ ∧
      c.Prepares collection (c.walkedPaths collection r) scope₂ k₁ scope₃ k₃ ∧
      (c.filterStage collection false r scope₃).Gives k₃ (scope₄, several) k₄ ∧
      c.Prepares collection (c.walkedPaths collection r) scope₄ k₄ scope₅ k ∧
      applied.query = scope₅.query ∧
      (q.joins = [] → c.JoinsAlong false collection (c.walkedPaths collection r) scope₅) := by
  simp only [apply_eq, Compile.gives_bind, Compile.gives_pure] at h
  obtain ⟨info, k₁, hinfo, scope₁, k₂, horder, scope₂, k₃, hsearch, scope₃, k₄, hgroup,
    ⟨scope₄, repeatsRows⟩, k₅, hfilter, scope₅, k₆, haggregate, rfl, rfl⟩ := h
  obtain ⟨hfound, rfl⟩ := collection_gives.mp hinfo
  have hsort := Prepares.of_orderStage horder
  have hsearched : k₃ = k₂ := by
    unfold searchStage at hsearch
    split at hsearch
    · exact (Compile.gives_pure.mp hsearch).2
    · simp only [Compile.gives_map, search, Compile.gives_bind, ask_gives, Compile.gives_pure]
        at hsearch
      obtain ⟨sought, ⟨fields, k, ⟨-, rfl⟩, -, rfl⟩, -⟩ := hsearch
      rfl
  subst hsearched
  have hgrouped := Prepares.of_groupStage hgroup
  have haggregated : c.Prepares collection ((r.aggregate.flatMap Prod.snd).map fieldPath) scope₄
      k₅ scope₅ k := by
    unfold aggregateStage at haggregate
    split at haggregate
    · obtain ⟨rfl, rfl⟩ := Compile.gives_pure.mp haggregate
      exact .refl
    · obtain rfl : info.name = collection := hnamed info hfound
      have hstart : c.Prepares info.name [] scope₄ k₅ scope₄ k₅ := .refl
      have hadded := hstart.addAggregate haggregate
      rw [List.nil_append] at hadded
      exact hadded
  have hjoined (hjoins : q.joins = []) :
      c.JoinsAlong false collection (c.walkedPaths collection r) scope₅ := by
    obtain rfl : info.name = collection := hnamed info hfound
    exact joinsAlong_aggregateStage (joinsAlong_filterStage (joinsAlong_groupStage
      (joinsAlong_searchStage (joinsAlong_orderStage hjoins horder) hsearch) hgroup) hfilter)
      haggregate
  have hwalked : r.sort.map sortPath ++ r.group.map fieldPath ⊆ c.walkedPaths collection r :=
    List.Subset.trans (List.subset_append_left _ _) (List.subset_append_left _ _)
  exact ⟨scope₁, k₃, scope₂, scope₃, k₄, scope₄, repeatsRows, k₅, scope₅,
    hsort.mono (List.Subset.trans (List.subset_append_left _ _) hwalked), hsearch,
    hgrouped.mono (List.Subset.trans (List.subset_append_right _ _) hwalked), hfilter,
    haggregated.mono (List.subset_append_right _ _), rfl, hjoined⟩

/-- The paths that a request walks are paths of segments. -/
theorem isPath_of_mem_walkedPaths {r : Request} :
    ∀ path ∈ c.walkedPaths collection r, IsPath path := by
  intro path hpath
  simp only [walkedPaths, List.mem_append, List.mem_map, requestPaths, List.mem_flatMap] at hpath
  rcases hpath with ((⟨entry, -, rfl⟩ | ⟨key, -, rfl⟩) | ⟨f, -, hpath⟩) | ⟨field, -, rfl⟩
  · exact isPath_fieldPath _
  · exact isPath_fieldPath key
  · exact isPath_of_mem_filterPaths isPath_nil (isUnfolded_unfolded f) path hpath
  · exact isPath_fieldPath field

theorem filterStage_gives {r : Request} {inner several : Bool} {scope' : Scope}
    (h : (c.filterStage collection inner r scope).Gives k (scope', several) k') :
    (r.filter = none ∧ scope' = scope ∧ k' = k) ∨ ∃ f, r.filter = some f ∧
      (c.restrict inner collection scope f).Gives k (scope', several) k' := by
  unfold filterStage at h
  split at h
  · next hnone =>
    obtain ⟨hresult, rfl⟩ := Compile.gives_pure.mp h
    cases hresult
    exact .inl ⟨hnone, rfl, rfl⟩
  · next f hsome => exact .inr ⟨f, hsome, h⟩

theorem grows_filterStage {r : Request} {inner several : Bool} {scope' : Scope}
    (h : (c.filterStage collection inner r scope).Gives k (scope', several) k') : k ≤ k' := by
  rcases filterStage_gives h with ⟨-, -, rfl⟩ | ⟨f, -, hrestrict⟩
  · exact Nat.le_refl k'
  · obtain ⟨scope₁, k₁, e?, hjoin, he, -, -⟩ := addFilter_gives (addFilter_of_restrict hrestrict)
    exact Nat.le_trans (grows_joinFilter _ _ _ _ hjoin) (grows_condition? _ _ _ _ he)

/-- A filter joins its paths, and adds the predicates of its condition. -/
theorem restrict_gives {inner several : Bool} {f : Filter} {scope' : Scope}
    (h : (c.restrict inner collection scope f).Gives k (scope', several) k') :
    ∃ scope₁ k₁ e?, (c.joinFilter inner collection [] scope f.unfolded).Gives k
        (scope₁, several) k₁ ∧
      (c.condition? scope₁.hops collection [] f.unfolded).Gives k₁ e? k' ∧
      scope'.hops = scope₁.hops ∧ scope'.query.joins = scope₁.query.joins ∧
      scope'.query.condition.toList.flatMap Expr.predicates =
        scope.query.condition.toList.flatMap Expr.predicates ++
          e?.toList.flatMap Expr.predicates := by
  obtain ⟨scope₁, k₁, e?, hjoin, he, hhops, hquery⟩ :=
    addFilter_gives (addFilter_of_restrict h)
  have hsame := sameButJoins_of_joinFilter hjoin (sameButJoins_refl scope.query)
  have hcondition : scope₁.query.condition = scope.query.condition := by rw [hsame]
  refine ⟨scope₁, k₁, e?, hjoin, he, hhops, ?_, ?_⟩
  · rw [hquery]
    cases e? <;> rfl
  · rw [hquery, ← hcondition]
    cases e? with
    | none => rw [Option.toList_none, List.flatMap_nil, List.append_nil]
    | some e => rw [predicates_addCondition, Option.toList_some, List.flatMap_singleton]

end Context

end JsonSql
