import JsonSql.Proofs.ConcealedRows
import JsonSql.Proofs.Projections
import JsonSql.Proofs.Recorded
import JsonSql.Proofs.Renamed

set_option autoImplicit false

/-!
# Counts of whole rows

A request that counts whole rows next to other aggregations counts each row of the collection once
that its filter and its search select, whatever is joined for the other aggregations: left joins
keep every row, and where there are joins the different primary keys are counted.
-/

namespace JsonSql

open JsonSql.Sql

variable {E : Engine} {s : Schema} {db : Database E} {options : Options}
  {names names' : Nat → String} {collection : String} {declared : Collection} {r : Request}
  {k k' : Nat}

/-! ## Different values -/

namespace Sql.Engine

theorem mem_of_mem_distinct {v : E.Datum} {values : List E.Datum} (h : v ∈ E.distinct values) :
    v ∈ values := by
  induction values with
  | nil => cases h
  | cons w rest ih =>
    rcases List.mem_cons.mp h with rfl | h
    · exact List.mem_cons_self
    · exact List.mem_cons_of_mem _ (ih (List.mem_of_mem_filter h))

/-- Copies of one value in front of values that differ from it count once. -/
theorem distinct_copies {β : Type} {v : E.Datum} {others : List E.Datum} (copies : List β)
    (hself : E.equals v v = true) (hothers : ∀ w ∈ others, E.equals v w = false) :
    E.distinct (copies.map (fun _ => v) ++ others) =
      if copies.isEmpty then E.distinct others else v :: E.distinct others := by
  have hkept : (E.distinct others).filter (fun w => !E.equals v w) = E.distinct others :=
    List.filter_eq_self.mpr fun w hw => by rw [hothers w (E.mem_of_mem_distinct hw)]; rfl
  induction copies with
  | nil => rfl
  | cons copy rest ih =>
    rw [List.map_cons, List.cons_append, distinct, ih]
    cases rest <;> simp [hkept, hself]

/-- Items with different keys, each in any number of copies: the different keys are those of the
items that there are copies of. -/
theorem length_distinct_keys {α β : Type} {key : α → E.Value} {copies : α → List β}
    (hself : ∀ v : E.Datum, E.equals v v = true) {items : List α}
    (hknown : ∀ a ∈ items, (key a).isSome)
    (hdifferent : items.Pairwise fun a b => E.same (key a) (key b) ≠ .yes) :
    (E.distinct ((items.flatMap fun a => (copies a).map fun _ => key a).filterMap id)).length =
      (items.filter fun a => !(copies a).isEmpty).length := by
  induction items with
  | nil => rfl
  | cons item rest ih =>
    obtain ⟨hitem, hrest⟩ := List.pairwise_cons.mp hdifferent
    obtain ⟨v, hv⟩ := Option.isSome_iff_exists.mp (hknown item List.mem_cons_self)
    have hcopies : ((copies item).map fun _ => key item).filterMap id =
        (copies item).map fun _ => v := by
      rw [hv, List.filterMap_map]
      exact List.filterMap_eq_map.symm ▸ rfl
    have hothers : ∀ w ∈ (rest.flatMap fun a => (copies a).map fun _ => key a).filterMap id,
        E.equals v w = false := by
      intro w hw
      obtain ⟨found, hfound, hw⟩ := List.mem_filterMap.mp hw
      obtain ⟨a, ha, hcopy⟩ := List.mem_flatMap.mp hfound
      obtain ⟨copy, -, rfl⟩ := List.mem_map.mp hcopy
      have hkey : key a = some w := hw
      have hne := hitem a ha
      rw [hv, hkey] at hne
      simpa [same, compare, Truth.ofBool] using hne
    rw [List.flatMap_cons, List.filterMap_append, hcopies,
      E.distinct_copies (copies item) (hself v) hothers, List.filter_cons]
    have hnext := ih (fun a ha => hknown a (List.mem_cons_of_mem _ ha)) hrest
    cases (copies item).isEmpty with
    | true => exact hnext
    | false => exact congrArg Nat.succ hnext

end Sql.Engine

/-! ## Selected rows -/

/-- Rows with different keys are different. -/
theorem Sql.Query.nodup_selected {q : Query} (hkeys : s.HasKeys db)
    (hself : ∀ v : E.Datum, E.equals v v = true) (hc : s.collection? collection = some declared) :
    (q.selected db collection).Nodup := by
  obtain ⟨hknown, hdifferent⟩ := hkeys collection declared hc
  refine List.Nodup.filter _ (hdifferent.imp_of_mem fun {row other} hrow _ hne hsame => hne ?_)
  obtain ⟨v, hv⟩ := Option.isSome_iff_exists.mp (hknown row hrow)
  rw [← hsame, hv, Engine.same, Engine.compare, hself]
  rfl

/-- The search of a request as a condition. -/
def Schema.sought? (s : Schema) (collection : String) (r : Request) : Option Expr :=
  r.search.map fun term => searchCondition collection (Text.trim term) (s.fieldsOf collection)

/-- One more condition is to hold as well. -/
theorem truthOn_addCondition (q : Query) (e : Expr) (tables : Tables E) :
    (q.addCondition e).condition.map (Expr.truthOn db tables) =
      Truth.all? ((q.condition.map (Expr.truthOn db tables)).toList ++
        [e.truthOn db tables]) := by
  rw [Query.addCondition]
  cases q.condition <;> simp [Truth.all?]

/-- Before the filter, the condition of a statement is that of the search. -/
theorem truthOn_searchStage {scope scope' : Scope} (hnone : scope.query.condition = none)
    (h : ((s.context options names).searchStage collection r scope).Gives k scope' k')
    (tables : Tables E) : scope'.query.condition.map (Expr.truthOn db tables) =
      (s.sought? collection r).map (Expr.truthOn db tables) := by
  unfold Context.searchStage at h
  unfold Schema.sought?
  split at h
  · next hsearch =>
    obtain ⟨rfl, -⟩ := Compile.gives_pure.mp h
    rw [hsearch, hnone]
    rfl
  · next term hterm =>
    simp only [Compile.gives_map, Context.search, Compile.gives_bind, Context.ask_gives,
      Compile.gives_pure] at h
    obtain ⟨q, ⟨fields, k₁, ⟨hfields, -⟩, rfl, -⟩, rfl⟩ := h
    obtain rfl : s.fieldsOf collection = fields := Except.ok.inj hfields
    rw [hterm, Option.map_some, Option.map_some, truthOn_addCondition, hnone]
    simp [Truth.all?]

/-- What a compiled request selects: its joins put all rows side by side that fit together, and its
condition is its search and that of its filter, on joins that it records.  The joins match the
prefixes of its paths. -/
theorem selects_of_apply {q : Query} {applied : Applied}
    (hinjective : Function.Injective names) (hc : s.collection? collection = some declared)
    (havoids : s.AvoidsAliases names k) (hjoins : q.joins = []) (hcondition : q.condition = none)
    (h : ((s.context options names).apply collection q r false).Gives 0 applied k) :
    ∃ hops asked e? m m',
      Scope.Recorded (s.context options names) collection ⟨applied.query, hops⟩ k ∧
      Context.Keeps asked hops ∧ asked.Led (s.context options names) collection m ∧ m' ≤ k ∧
      (r.filter = none → e? = none) ∧
      (∀ f ∈ r.filter, ((s.context options names).condition? asked collection [] f.unfolded).Gives m
        e? m') ∧
      (s.context options names).JoinsAlong false collection
        ((s.context options names).walkedPaths collection r) ⟨applied.query, hops⟩ ∧
      ∀ {E : Engine} (db : Database E), Scope.Joins s db collection ⟨applied.query, hops⟩ ∧
        ∀ tables : Tables E, applied.query.condition.map (Expr.truthOn db tables) =
          Truth.all? (((s.sought? collection r).map (Expr.truthOn db tables)).toList ++
            (e?.map (Expr.truthOn db tables)).toList) := by
  obtain ⟨scope₁, k₁, scope₂, scope₃, k₃, scope₄, several, k₄, scope₅, hbefore, hsearch, hbetween,
    hfilter, hafter, hquery, halong⟩ :=
    Context.parts_of_apply (fun info hinfo => s.name_of_collection hinfo) h
  obtain ⟨hhops₂, hjoins₂, -⟩ := searchStage_gives hsearch
  have hpaths : ∀ path ∈ (s.context options names).walkedPaths collection r, IsPath path :=
    Context.isPath_of_mem_walkedPaths
  have havoids₄ := havoids.mono hafter.grows
  have havoids₃ := havoids₄.mono (Context.grows_filterStage hfilter)
  have hrecorded₁ : scope₁.Recorded (s.context options names) collection k₁ :=
    (Scope.Recorded.ofNil hjoins).prepares hinjective hpaths hbefore
  have hrecorded₂ : scope₂.Recorded (s.context options names) collection k₁ :=
    hrecorded₁.congr hjoins₂ hhops₂
  have hrecorded₃ := hrecorded₂.prepares hinjective hpaths hbetween
  have halong₅ : (s.context options names).JoinsAlong false collection
      ((s.context options names).walkedPaths collection r) ⟨applied.query, scope₅.hops⟩ := by
    rw [hquery]
    exact halong hjoins
  have h₃ {E : Engine} (db : Database E) : Scope.Joins s db collection scope₃ := by
    have hstart : Scope.Joins s db collection { query := q } := .ofNil hjoins
    have h₁ := hstart.prepares hinjective hc (havoids₃.mono hbetween.grows) hpaths (.empty 0)
      hbefore
    exact (h₁.congr hjoins₂ hhops₂).prepares hinjective hc havoids₃ hpaths hrecorded₂.led hbetween
  have hsought {E : Engine} (db : Database E) (tables : Tables E) :
      scope₃.query.condition.map (Expr.truthOn db tables) =
        (s.sought? collection r).map (Expr.truthOn db tables) := by
    rw [hbetween.condition_eq]
    exact truthOn_searchStage (hbefore.condition_eq.trans hcondition) hsearch tables
  rcases Context.filterStage_gives hfilter with ⟨hnone, rfl, rfl⟩ | ⟨f, hf, hrestrict⟩
  · have hrecorded₅ := hrecorded₃.prepares hinjective hpaths hafter
    refine ⟨scope₅.hops, scope₄.hops, none, k₄, k₄, hquery ▸ hrecorded₅, hafter.keeps,
      hrecorded₃.led, hafter.grows, fun _ => rfl, fun f hf => ?_, halong₅, fun db => ⟨?_, ?_⟩⟩
    · rw [hnone] at hf
      cases hf
    · exact hquery ▸ (h₃ db).prepares hinjective hc havoids hpaths hrecorded₃.led hafter
    · intro tables
      rw [hquery, hafter.condition_eq, hsought]
      cases s.sought? collection r <;> simp [Truth.all?]
  · obtain ⟨joined, m, e?, hjoin, he, hhops, hjoined⟩ :=
      Context.addFilter_gives (Context.addFilter_of_restrict hrestrict)
    have hasked := Context.grows_condition? _ _ _ _ he
    have hunfolded := isUnfolded_unfolded f
    have hrecorded := hrecorded₃.joinFilter hinjective hunfolded hjoin
    have hsame : joined.query.condition = scope₃.query.condition := by
      have hrest := Context.sameButJoins_of_joinFilter hjoin
        (Context.sameButJoins_refl scope₃.query)
      rw [hrest]
    have hjoins₄ : scope₄.query.joins = joined.query.joins := by
      rw [hjoined]
      cases e? <;> rfl
    have hrecorded₄ := (hrecorded.congr hjoins₄ hhops).mono hasked
    have hrecorded₅ := hrecorded₄.prepares hinjective hpaths hafter
    refine ⟨scope₅.hops, scope₄.hops, e?, m, k₄, hquery ▸ hrecorded₅, hafter.keeps,
      hhops ▸ hrecorded.led, hafter.grows, fun hnone => ?_, fun g hg => ?_, halong₅,
      fun db => ⟨?_, ?_⟩⟩
    · rw [hnone] at hf
      cases hf
    · obtain rfl : f = g := Option.some.inj (hf.symm.trans hg)
      rw [hhops]
      exact he
    · have h₄ := (h₃ db).joinFilter hinjective hc (havoids₄.mono hasked) hunfolded hrecorded₃.led
        hjoin
      exact hquery ▸ (h₄.congr hjoins₄ hhops).prepares hinjective hc havoids hpaths hrecorded₄.led
        hafter
    · intro tables
      rw [hquery, hafter.condition_eq, hjoined, ← hsought, ← hsame]
      cases e? with
      | none => cases joined.query.condition <;> simp [Truth.all?]
      | some e => exact truthOn_addCondition joined.query e tables

/-- A search holds alike beside the same row. -/
theorem truthOn_sought?_eq {tables tables' : Tables E}
    (hroot : rowOf tables collection = rowOf tables' collection) :
    (s.sought? collection r).map (Expr.truthOn db tables) =
      (s.sought? collection r).map (Expr.truthOn db tables') := by
  have hagree : AgreeOn [collection] tables tables' := by
    intro name hname
    rw [List.mem_singleton.mp hname]
    exact hroot
  rw [Schema.sought?, Option.map_map, Option.map_map]
  refine Option.map_congr fun term _ => ?_
  have hshape := Context.isCondition_searchCondition (Text.trim term) (s.fieldsOf collection)
    (List.mem_singleton_self collection)
  exact hshape.truthOn_eq hagree

/-- Two filters, if there are any, mean the same: from whatever joins they are compiled to
conditions with the same truth value on the same rows. -/
def FiltersAgree (s : Schema) (options : Options) (names names' : Nat → String) (db : Database E)
    (collection : String) (f? f'? : Option Filter) : Prop :=
  ∀ {declared : Collection} {asked asked' : Hops} {m m' n n' : Nat} {e? e'? : Option Expr}
    {tables tables' : Tables E}, s.collection? collection = some declared →
    s.AvoidsAliases names n → s.AvoidsAliases names' n' →
    Paired s options names names' collection asked m asked' m' tables tables' →
    (f? = none → e? = none) → (f'? = none → e'? = none) →
    (∀ f ∈ f?, ((s.context options names).condition? asked collection [] f.unfolded).Gives m e? n) →
    (∀ f ∈ f'?, ((s.context options names').condition? asked' collection [] f.unfolded).Gives m'
      e'? n') →
    e?.map (Expr.truthOn db tables) = e'?.map (Expr.truthOn db tables')

theorem filtersAgree_refl (hinjective : Function.Injective names)
    (hinjective' : Function.Injective names') (f? : Option Filter) :
    FiltersAgree s options names names' db collection f? f? := by
  intro declared asked asked' m m' n n' e? e'? tables tables' hc havoids havoids' hpaired hnone
    hnone' hsome hsome'
  cases f? with
  | none =>
    rw [hnone rfl, hnone' rfl]
    rfl
  | some f =>
    exact truthOn_condition?_same hinjective hinjective' (isUnfolded_unfolded f) hc havoids havoids'
      hpaired (hsome f rfl) (hsome' f rfl)

/-- Requests with the same search and with filters that mean the same have conditions with the same
truth values on the same rows. -/
theorem alike_of_apply {r' : Request} {q q' : Query} {applied applied' : Applied}
    (hinjective : Function.Injective names) (hinjective' : Function.Injective names')
    (hc : s.collection? collection = some declared) (havoids : s.AvoidsAliases names k)
    (havoids' : s.AvoidsAliases names' k') (hjoins : q.joins = []) (hjoins' : q'.joins = [])
    (hcondition : q.condition = none) (hcondition' : q'.condition = none)
    (hsearch : r'.search = r.search)
    (hfilters : FiltersAgree s options names names' db collection r.filter r'.filter)
    (h : ((s.context options names).apply collection q r false).Gives 0 applied k)
    (h' : ((s.context options names').apply collection q' r' false).Gives 0 applied' k') :
    ∃ hops hops', Scope.Joins s db collection ⟨applied.query, hops⟩ ∧
      Scope.Joins s db collection ⟨applied'.query, hops'⟩ ∧
      (s.context options names).JoinsAlong false collection
        ((s.context options names).walkedPaths collection r) ⟨applied.query, hops⟩ ∧
      (s.context options names').JoinsAlong false collection
        ((s.context options names').walkedPaths collection r') ⟨applied'.query, hops'⟩ ∧
      ∀ tables tables' : Tables E, SameRows collection hops hops' tables tables' →
        applied.query.condition.map (Expr.truthOn db tables) =
          applied'.query.condition.map (Expr.truthOn db tables') := by
  obtain ⟨hops, asked, e?, m, n, -, hkeeps, hled, hn, hnone, hsome, halong, hselects⟩ :=
    selects_of_apply hinjective hc havoids hjoins hcondition h
  obtain ⟨hops', asked', e'?, m', n', -, hkeeps', hled', hn', hnone', hsome', halong',
    hselects'⟩ := selects_of_apply hinjective' hc havoids' hjoins' hcondition' h'
  obtain ⟨hall, htruth⟩ := hselects db
  obtain ⟨hall', htruth'⟩ := hselects' db
  refine ⟨hops, hops', hall, hall', halong, halong', fun tables tables' hsame => ?_⟩
  have hsought : s.sought? collection r' = s.sought? collection r := by
    rw [Schema.sought?, hsearch, Schema.sought?]
  rw [htruth, htruth', hsought, truthOn_sought?_eq hsame.root,
    hfilters hc (havoids.mono hn) (havoids'.mono hn')
      ⟨hled, hled', hsame.mono hkeeps hkeeps'⟩ hnone hnone' hsome hsome']

/-- Requests with the same filter and the same search select the same rows, whatever else they ask
for and whatever their aliases are. -/
theorem selected_eq_of_apply {r' : Request} {q q' : Query} {applied applied' : Applied}
    (hinjective : Function.Injective names) (hinjective' : Function.Injective names')
    (hc : s.collection? collection = some declared) (havoids : s.AvoidsAliases names k)
    (havoids' : s.AvoidsAliases names' k') (hjoins : q.joins = []) (hjoins' : q'.joins = [])
    (hcondition : q.condition = none) (hcondition' : q'.condition = none)
    (hfilter : r'.filter = r.filter) (hsearch : r'.search = r.search)
    (h : ((s.context options names).apply collection q r false).Gives 0 applied k)
    (h' : ((s.context options names').apply collection q' r' false).Gives 0 applied' k') :
    applied.query.selected db collection = applied'.query.selected db collection := by
  have hfilters : FiltersAgree s options names names' db collection r.filter r'.filter := by
    rw [hfilter]
    exact filtersAgree_refl hinjective hinjective' r.filter
  obtain ⟨hops, hops', hall, hall', -, -, halike⟩ := alike_of_apply hinjective hinjective' hc
    havoids havoids' hjoins hjoins' hcondition hcondition' hsearch hfilters h h'
  exact selected_eq_of_meets hall hall' fun tables tables' hsame =>
    meets_eq_of_truthOn (halike tables tables' hsame)

/-! ## Counts -/

/-- The rows that the condition of a statement keeps. -/
def Sql.Query.kept (q : Query) (db : Database E) (collection : String) : List (Tables E) :=
  (db collection).flatMap fun row =>
    (joinTables db [(collection, row)] q.joins).filter fun tables => meets db tables q.condition

/-- A statement that sums up all its rows returns one row. -/
theorem output_of_isAggregate (db : Database E) {q : Query}
    (hsource : q.source = some ⟨collection, none⟩) (hgroups : q.groups = [])
    (haggregate : ∃ item ∈ q.items, item.isAggregate = true) :
    q.output db [] = [q.items.map
      (Item.cell db (q.kept db collection) ((q.kept db collection).headD []))] := by
  obtain ⟨items, source, joins, condition, groups, orders, window⟩ := q
  obtain rfl : source = some ⟨collection, none⟩ := hsource
  obtain rfl : groups = [] := hgroups
  have hany : items.any Item.isAggregate = true := List.any_eq_true.mpr haggregate
  rw [Query.output]
  simp [hany, sourceTables, TableRef.referenceName, List.flatMap_map, itemCells_eq_map, Query.kept,
    List.filter_flatMap]

/-- Without joins each selected row is kept once. -/
theorem length_kept_of_joins_eq_nil {q : Query} (hjoins : q.joins = []) :
    (q.kept db collection).length = (q.selected db collection).length := by
  rw [Query.kept, Query.selected, hjoins]
  simp only [joinTables_nil, List.any_cons, List.any_nil, Bool.or_false]
  induction db collection with
  | nil => rfl
  | cons row rest ih =>
    rw [List.flatMap_cons, List.length_append, ih, List.filter_cons, List.filter_cons]
    split <;> simp [Nat.add_comm]

/-- The different keys of the rows that are kept are those of the selected rows. -/
theorem length_distinct_kept {q : Query} {hops : Hops} (hkeys : s.HasKeys db)
    (hself : ∀ v : E.Datum, E.equals v v = true) (hc : s.collection? collection = some declared)
    (hjoins : Scope.Joins s db collection ⟨q, hops⟩) :
    (E.distinct (((q.kept db collection).map fun tables =>
      rowOf tables collection declared.info.primary).filterMap id)).length =
        (q.selected db collection).length := by
  obtain ⟨hknown, hdifferent⟩ := hkeys collection declared hc
  have hcopies : ((q.kept db collection).map fun tables =>
      rowOf tables collection declared.info.primary) =
        (db collection).flatMap fun row => ((joinTables db [(collection, row)] q.joins).filter
          fun tables => meets db tables q.condition).map fun _ => row declared.info.primary := by
    rw [Query.kept, List.map_flatMap]
    refine List.flatMap_congr fun row _ => List.map_congr_left fun tables htables => ?_
    rw [(hjoins.fits [] row tables (List.mem_of_mem_filter htables)).1]
  rw [hcopies, E.length_distinct_keys hself hknown hdifferent, Query.selected]
  refine congrArg List.length (List.filter_congr fun row _ => ?_)
  rw [Bool.eq_iff_iff, List.any_eq_true, Bool.not_eq_true', List.isEmpty_eq_false_iff_exists_mem]
  simp only [List.mem_filter]

/-- The different values of an expression on the rows of a group. -/
theorem value_countDistinct (group : List (Tables E)) (tables : Tables E) (table name : String) :
    (Expr.countDistinct (.of table name)).value db group tables =
      some (E.ofCount (E.distinct ((group.map fun tables => rowOf tables table name).filterMap
        id)).length) := by
  have hvalues : group.flatMap (fun tables => exprValues db [] tables [.of table name]) =
      group.map fun tables => rowOf tables table name := by
    simp only [exprValues_eq_map, List.map_cons, List.map_nil, value_of]
    exact List.map_eq_flatMap.symm
  have hcount : Engine.aggregates.contains "COUNT" = true := by decide
  have hwhole : areWholeRows [.of table name] = false := rfl
  rw [Expr.countDistinct, Expr.value, hcount, hwhole, hvalues]
  rfl

/-- The value of a count of whole rows is the number of selected rows. -/
theorem value_countOf {q : Query} {hops : Hops} (tables : Tables E)
    (hkeys : s.HasKeys db) (hself : ∀ v : E.Datum, E.equals v v = true)
    (hc : s.collection? collection = some declared) (hname : declared.info.name = collection)
    (hjoins : Scope.Joins s db collection ⟨q, hops⟩) :
    (Context.countOf declared.info q).value db (q.kept db collection) tables =
      some (E.ofCount (q.selected db collection).length) := by
  by_cases hjoined : q.hasJoins = true
  · rw [Context.countOf, if_pos hjoined, value_countDistinct, hname,
      length_distinct_kept hkeys hself hc hjoins]
  · have hnil : q.joins = [] := by simpa [Query.hasJoins] using hjoined
    rw [Context.countOf, if_neg hjoined, ← length_kept_of_joins_eq_nil hnil]
    rfl

/-- So is its cell, whatever it is called. -/
theorem cell_countOf {q : Query} {hops : Hops} (label : Option String) (tables : Tables E)
    (hkeys : s.HasKeys db) (hself : ∀ v : E.Datum, E.equals v v = true)
    (hc : s.collection? collection = some declared) (hname : declared.info.name = collection)
    (hjoins : Scope.Joins s db collection ⟨q, hops⟩) :
    Item.cell db (q.kept db collection) tables ⟨Context.countOf declared.info q, label⟩ =
      .value (some (E.ofCount (q.selected db collection).length)) := by
  rw [Item.cell, (Context.isAggregate_countOf declared.info q label).2]
  exact congrArg Cell.value (value_countOf tables hkeys hself hc hname hjoins)

/-- A request that counts whole rows and has no groups projects such counts. -/
theorem counts_of_apply {q : Query} {applied : Applied} {fields : List String}
    (hc : s.collection? collection = some declared) (hitems : q.items = [])
    (hgroup : r.group = []) (hcounts : (.count, fields) ∈ r.aggregate) (hwhole : "*" ∈ fields)
    (h : ((s.context options names).apply collection q r false).Gives k applied k') :
    applied.query.groups = q.groups ∧ (∃ item ∈ applied.query.items, item.label = some "count") ∧
      ∀ item ∈ applied.query.items, item.label = some "count" →
        item.expr = Context.countOf declared.info applied.query := by
  obtain ⟨info, scope, items, k₁, k₂, hinfo, hprojected, hresult, hjoins, hgroups, -⟩ :=
    Context.projections_of_apply hgroup h
  obtain ⟨found, hfound, rfl⟩ := Option.map_eq_some_iff.mp (Except.ok.inj hinfo)
  obtain rfl : declared = found := Option.some.inj (hc.symm.trans hfound)
  rw [hitems, List.nil_append] at hresult
  refine ⟨hgroups, ?_, fun item hitem hlabel => ?_⟩
  · obtain ⟨own, hown, j, j', hgives⟩ := Compile.exists_mem_of_mapM hprojected hcounts
    obtain ⟨item, hitem, hlabel⟩ := Context.exists_item_of_aggregateItems hwhole hgives
    exact ⟨item, hresult ▸ List.mem_flatten.mpr ⟨own, hown, hitem⟩, hlabel⟩
  · obtain ⟨own, hown, hitem⟩ := List.mem_flatten.mp (hresult ▸ hitem)
    rw [Compile.mapM_all Context.expr_of_aggregateItems hprojected own hown item hitem hlabel,
      Context.countOf, Query.hasJoins, ← hjoins]
    rfl

/-- The read of the rows that a request filters and searches. -/
def Request.plain (r : Request) (limit : Option Int) : Request :=
  { filter := r.filter, search := r.search, limit }

/-- A plain read projects whole rows. -/
theorem items_of_apply_plain {limit : Option Int} {applied : Applied}
    (h : ((s.context options names).apply collection (Compiler.target collection (r.plain limit))
      (r.plain limit) false).Gives k applied k') :
    applied.query.items = [⟨.allColumns (some collection), none⟩] ∧ applied.query.groups = [] := by
  obtain ⟨info, scope, items, k₁, k₂, -, hprojected, hitems, -, hgroups, -⟩ :=
    Context.projections_of_apply rfl h
  obtain ⟨rfl, -⟩ := Compile.gives_pure.mp hprojected
  exact ⟨hitems, hgroups⟩

/-- A request that counts whole rows and has no groups returns one row.  Where no alias is spelled
like a collection, the count of whole rows in it is the number of different rows that a plain read
with the same filter and search returns, and it counts keys unless the statement has no joins. -/
theorem count_of_compile {letters letters' : Alias.Letters} {fields : List String}
    {limit : Option Int} {q p : Query} (hkeys : s.HasKeys db)
    (hself : ∀ v : E.Datum, E.equals v v = true) (hgroup : r.group = [])
    (hcounts : (.count, fields) ∈ r.aggregate) (hwhole : "*" ∈ fields)
    (havoids : ∀ name ∈ (s.compiler options letters).issued collection r,
      s.collection? name = none)
    (havoids' : ∀ name ∈ (s.compiler options letters').issued collection (r.plain limit),
      s.collection? name = none)
    (h : (s.compiler options letters).compile collection r = .ok q)
    (h' : (s.compiler options letters').compile collection (r.plain limit) = .ok p) :
    ∃ (rows : List (Row E)) (cell : Item → Cell E), rows.Nodup ∧
      (∀ cells, cells ∈ p.output db [] ↔ ∃ row ∈ rows, cells = [.row row]) ∧
      q.output db [] = [q.items.map cell] ∧ (∃ item ∈ q.items, item.label = some "count") ∧
      ∀ item ∈ q.items, item.label = some "count" →
        cell item = .value (some (E.ofCount rows.length)) ∧
          (item.expr = .countRows → q.joins = []) := by
  have hsource := (isStatement_of_compile h).source
  have hsource' := (isStatement_of_compile h').source
  obtain ⟨applied, k, happly, hfresh, rfl⟩ := apply_of_compile havoids h
  obtain ⟨applied', k', happly', hfresh', rfl⟩ := apply_of_compile havoids' h'
  obtain ⟨info, hinfo⟩ := Context.collection_of_apply happly
  obtain ⟨declared, hc, -⟩ := Option.map_eq_some_iff.mp (Except.ok.inj hinfo)
  have hname : declared.info.name = collection := by simpa using List.find?_some hc
  have hinjective := Alias.names_injective options.aliasStyle options.aliasLength
  have hjoins := Compiler.target_joins collection
  have hcondition := Compiler.target_condition collection
  obtain ⟨hops, _, _, _, _, -, -, -, -, -, -, -, hselects⟩ :=
    selects_of_apply (hinjective letters) hc hfresh (hjoins r) (hcondition r) happly
  obtain ⟨hops', _, _, _, _, -, -, -, -, -, -, -, hselects'⟩ :=
    selects_of_apply (hinjective letters') hc hfresh' (hjoins _) (hcondition _) happly'
  have hall := (hselects db).1
  have hall' := (hselects' db).1
  have hfilter : (r.plain limit).filter = r.filter := rfl
  have hsearch : (r.plain limit).search = r.search := rfl
  have hsame : applied.query.selected db collection = applied'.query.selected db collection :=
    selected_eq_of_apply (hinjective letters) (hinjective letters') hc hfresh hfresh' (hjoins r)
      (hjoins _) (hcondition r) (hcondition _) hfilter hsearch happly happly'
  -- the count projects its aggregations alone
  have hsummary : r.isSummary = true := by
    simp [Request.isSummary, List.ne_nil_of_mem hcounts]
  have htarget : (Compiler.target collection r).items = [] := by
    rw [Compiler.target, hsummary]
    rfl
  obtain ⟨hgroups, hexists, hexpr⟩ := counts_of_apply hc htarget hgroup hcounts hwhole happly
  obtain ⟨hitems, hgroups'⟩ := items_of_apply_plain happly'
  have haggregate : ∃ item ∈ applied.query.items, item.isAggregate = true := by
    obtain ⟨⟨e, label⟩, hitem, hlabel⟩ := hexists
    obtain rfl : e = Context.countOf declared.info applied.query := hexpr _ hitem hlabel
    exact ⟨_, hitem, (Context.isAggregate_countOf declared.info applied.query label).1⟩
  have houtput := output_of_isAggregate db hsource
    (hgroups.trans (Compiler.target_groups collection r)) haggregate
  refine ⟨applied.query.selected db collection, _, Query.nodup_selected hkeys hself hc,
    fun cells => ?_, houtput, hexists, ?_⟩
  · rw [mem_output_iff_selected hall' hitems hsource' hgroups', hsame]
  · rintro ⟨e, label⟩ hitem hlabel
    obtain rfl : e = Context.countOf declared.info applied.query := hexpr _ hitem hlabel
    exact ⟨cell_countOf label _ hkeys hself hc hname hall, Context.joins_eq_nil_of_countOf⟩

/-- The articles that the filter of the blog selects, counted and with the last of their authors. -/
def Request.counted : Request where
  filter := some Filter.blog
  aggregate := [(.count, ["*"]), (.max, ["author.name"])]

theorem count_of_compile_blog :
    ∃ q p, (Schema.blog.compiler {} fun _ => 0).compile "articles" Request.counted = .ok q ∧
      (Schema.blog.compiler {} fun _ => 0).compile "articles"
        (Request.counted.plain (some (-1))) = .ok p ∧
      ∃ (rows : List (Row Engine.literals)) (cell : Item → Cell Engine.literals), rows.Nodup ∧
        (∀ cells, cells ∈ p.output Database.blog [] ↔ ∃ row ∈ rows, cells = [.row row]) ∧
        q.output Database.blog [] = [q.items.map cell] ∧
        (∃ item ∈ q.items, item.label = some "count") ∧
        ∀ item ∈ q.items, item.label = some "count" →
          cell item = .value (some (Engine.literals.ofCount rows.length)) ∧
            (item.expr = .countRows → q.joins = []) := by
  obtain ⟨q, hq⟩ : ∃ q, (Schema.blog.compiler {} fun _ => 0).compile "articles" Request.counted =
    .ok q := Compiler.exists_compile (by decide +kernel)
  obtain ⟨p, hp⟩ : ∃ p, (Schema.blog.compiler {} fun _ => 0).compile "articles"
    (Request.counted.plain (some (-1))) = .ok p := Compiler.exists_compile (by decide +kernel)
  have hkeys : Schema.blog.HasKeys Database.blog :=
    Schema.hasKeys_of_forall (by decide +kernel)
  have hcounts : (Aggregation.count, ["*"]) ∈ Request.counted.aggregate := List.mem_cons_self
  have hself (v : Literal) : Engine.literals.equals v v = true := decide_eq_true rfl
  exact ⟨q, p, hq, hp, count_of_compile hkeys hself rfl hcounts (List.mem_singleton_self "*")
    (collection?_issued_blog _ _) (collection?_issued_blog _ _) hq hp⟩

/-- Comments on articles, counted and with the first of their authors. -/
def Request.discussed : Request where
  filter := some (.of (.field "article" (.compare [⟨.null true, none⟩])))
  aggregate := [(.count, ["*"]), (.min, ["author.name"])]

/-- A join under the name of the collection hides its rows: there is one, and none is counted. -/
theorem count_of_compile_hidden :
    Schema.hidden.validate.isOk = true ∧ Schema.hidden.HasKeys Database.hidden ∧
      ∃ q p, (Schema.hidden.compiler { aliasStyle := .sequential } fun _ => 0).compile "j1"
          Request.discussed = .ok q ∧
        (Schema.hidden.compiler { aliasStyle := .sequential } fun _ => 0).compile "j1"
          (Request.discussed.plain (some (-1))) = .ok p ∧
        q.items.map Item.label = [some "count", some "min->.author.name"] ∧
        (q.output Database.hidden []).map firstValue = [some (Engine.literals.ofCount 0)] ∧
        (p.output Database.hidden []).length = 1 := by
  obtain ⟨q, hq, hzero⟩ : ∃ q, (Schema.hidden.compiler { aliasStyle := .sequential }
      fun _ => 0).compile "j1" Request.discussed = .ok q ∧ (q.items.map Item.label,
        ((q.output Database.hidden []).map firstValue : List (Option Literal))) =
          ([some "count", some "min->.author.name"], [some (.int 0)]) :=
    Compiler.exists_compile_with (by decide +kernel)
  obtain ⟨p, hp, hone⟩ : ∃ p, (Schema.hidden.compiler { aliasStyle := .sequential }
      fun _ => 0).compile "j1" (Request.discussed.plain (some (-1))) = .ok p ∧
        (p.output Database.hidden []).length = 1 :=
    Compiler.exists_compile_with (by decide +kernel)
  obtain ⟨hlabels, hvalues⟩ := Prod.mk.inj hzero
  exact ⟨by decide +kernel, Schema.hasKeys_of_forall (by decide +kernel), q, p, hq, hp, hlabels,
    hvalues, hone⟩

end JsonSql
