import JsonSql.Proofs.Counts
import JsonSql.Proofs.Walks

set_option autoImplicit false

/-!
# Rows of joined tables

The joins of a plain filter put exactly one row beside each row of the collection: primary keys are
unique, so a left join on one finds at most one row, and a row of nulls stands for none.  Every
alias is new, so later joins hide no earlier table, and the alias of a join stands for the row that
its path leads to.
-/

namespace JsonSql

open JsonSql.Sql

variable {E : Engine} {s : Schema} {db : Database E} {options : Options} {names : Nat → String}
  {collection : String}

/-! ## Fresh aliases -/

/-- No collection is spelled like one of the first aliases. -/
def Schema.AvoidsAliases (s : Schema) (names : Nat → String) (k : Nat) : Prop :=
  ∀ j < k, s.collection? (names j) = none

theorem Schema.AvoidsAliases.mono {j k : Nat} (h : s.AvoidsAliases names k) (hle : j ≤ k) :
    s.AvoidsAliases names j := by
  intro i hi
  exact h i (Nat.lt_of_lt_of_le hi hle)

theorem Schema.AvoidsAliases.ne {j k : Nat} {c : Collection} (h : s.AvoidsAliases names k)
    (hj : j < k) (hc : s.collection? collection = some c) : collection ≠ names j := by
  intro hsame
  rw [hsame, h j hj] at hc
  cases hc

/-! ## Questions to a schema -/

/-- The primary key of a collection of a schema. -/
theorem primary_context_gives {name primary : String} {k k' : Nat}
    (h : ((s.context options names).primary name).Gives k primary k') :
    ∃ c, s.collection? name = some c ∧ primary = c.info.primary ∧ primary = s.primaryOf name ∧
      k' = k := by
  obtain ⟨info, hinfo, rfl, rfl⟩ := Context.primary_gives.mp h
  have hfound : (s.collection? name).map Collection.info = some info := Except.ok.inj hinfo
  obtain ⟨c, hc, rfl⟩ := Option.map_eq_some_iff.mp hfound
  exact ⟨c, hc, rfl, by rw [Schema.primaryOf, hc]; rfl, rfl⟩

/-- The join of a key that refers to a row. -/
theorem joinTarget_manyToOne_gives {place : Place} {segment table target target' : String}
    {r : Relation} {condition : Expr} {k k' : Nat} (hrelated : r.related = some target')
    (h : ((s.context options names).joinTarget place segment table (.manyToOne r)).Gives k
      (target, condition) k') :
    target = target' ∧
      condition = .equals (.of place.table r.field) (.of table (s.primaryOf target)) ∧
      (∃ c, s.collection? target = some c) ∧ k' = k := by
  unfold Context.joinTarget at h
  dsimp only at h
  rw [hrelated] at h
  simp only [Compile.gives_bind, Compile.gives_pure] at h
  obtain ⟨primary, k₁, hprimary, hresult, rfl⟩ := h
  obtain ⟨c, hc, -, rfl, rfl⟩ := primary_context_gives hprimary
  cases hresult
  exact ⟨rfl, rfl, ⟨c, hc⟩, rfl⟩

/-! ## One row for each key -/

/-- Where at most one item is as asked, the items that are so are the first one. -/
theorem filter_eq_find? {α : Type} {asked : α → Bool} {items : List α}
    (h : items.Pairwise fun a b => ¬ (asked a = true ∧ asked b = true)) :
    items.filter asked = (items.find? asked).toList := by
  induction items with
  | nil => rfl
  | cons item rest ih =>
    obtain ⟨hitem, hrest⟩ := List.pairwise_cons.mp h
    cases hasked : asked item with
    | false => simp [hasked, ih hrest]
    | true =>
      have hnone : rest.filter asked = [] :=
        List.filter_eq_nil_iff.mpr fun other hother hboth => hitem other hother ⟨hasked, hboth⟩
      simp [hasked, hnone]

/-- A left join on a primary key puts the row beside a row that it refers to. -/
theorem orOne_filter_primary {c : Collection} {target : String} (hkeys : s.HasKeys db)
    (hc : s.collection? target = some c) (r : Relation) (row : Row E) :
    orOne (nullRow E) ((db target).filter fun other =>
      E.same (row r.field) (other (s.primaryOf target)) = .yes) =
        [referencedRow s db r target row] := by
  have hprimary : s.primaryOf target = c.info.primary := by
    rw [Schema.primaryOf, hc]
    rfl
  rw [referencedRow, filter_eq_find?]
  · cases (db target).find? _ <;> rfl
  · refine (hkeys target c hc).2.imp fun {a b} hdifferent hboth => hdifferent ?_
    simp only [decide_eq_true_eq, hprimary] at hboth
    -- two rows with the key that is referred to share it
    exact E.same_trans ((E.same_symm _ _).trans hboth.1) hboth.2

/-! ## Joined rows -/

/-- The tables in scope for a row of a collection: the collection stands for the row, and each join
for the row that its path leads to. -/
structure Stands (s : Schema) (db : Database E) (collection : String) (hops : Hops)
    (row : Row E) (tables : Tables E) : Prop where
  root : rowOf tables collection = row
  hop : ∀ path hop, path ≠ [] → IsPath path → hops.get? path = some hop →
    walk s db (collection, row) path = some (hop.collection, rowOf tables hop.name)

/-- The joins of a statement put one row of tables beside each row of its collection, and go by
aliases that are issued. -/
structure Scope.Tracks (s : Schema) (db : Database E) (names : Nat → String)
    (collection : String) (scope : Scope) (k : Nat) : Prop where
  issued : ∀ path hop, scope.hops.get? path = some hop → ∃ j < k, hop.name = names j
  joined : ∀ (outer : Tables E) (row : Row E), ∃ tables,
    joinTables db ((collection, row) :: outer) scope.query.joins = [tables] ∧
      Stands s db collection scope.hops row tables

/-- Without joins, a row stands beside itself only. -/
theorem Scope.tracks_of_joins_eq_nil {q : Query} (hjoins : q.joins = []) (k : Nat) :
    Scope.Tracks s db names collection { query := q } k := by
  refine ⟨fun path hop hfound => (by cases hfound), fun outer row => ?_⟩
  refine ⟨(collection, row) :: outer, ?_, rowOf_cons_self collection row outer, ?_⟩
  · rw [hjoins, joinTables_nil]
  · intro path hop _ _ hfound
    cases hfound

theorem IsPath.ofPrefix {path before : List String} (h : IsPath path)
    (hbefore : before <+: path.dropLast) : IsPath before := by
  intro segment hsegment
  exact h segment ((List.dropLast_sublist path).subset (hbefore.subset hsegment))

theorem Leads.ofPrefix {target : String} {path before : List String}
    (h : Leads s db collection path target) (hbefore : before <+: path) (row : Row E) :
    ∃ there, walk s db (collection, row) before = some there := by
  obtain ⟨rest, rfl⟩ := hbefore
  obtain ⟨there, hthere⟩ := h row
  rw [walk_append] at hthere
  obtain ⟨stop, hstop, -⟩ := Option.bind_eq_some_iff.mp hthere
  exact ⟨stop, hstop⟩

/-- The table of a place that is reached stands for the row that the path to it leads to. -/
theorem Stands.reached {scope : Scope} {before : List String} {place : Place} {row : Row E}
    {tables : Tables E} (h : Stands s db collection scope.hops row tables) (hpath : IsPath before)
    (hreach : scope.Reaches collection before place) :
    walk s db (collection, row) before = some (place.collection, rowOf tables place.table) := by
  cases hreach with
  | root => exact congrArg (fun here => some (collection, here)) h.root.symm
  | hop hfound => exact h.hop _ _ (by simp) hpath hfound

/-- A join on the way along a path that leads from row to row goes along a key that refers to a
row. -/
theorem JoinStep.refers {path before : List String} {scope scope' : Scope}
    {segment target stop : String} {place : Place} {condition : Expr} {k k' : Nat}
    (hpath : IsPath path) (hleads : Leads s db collection path.dropLast stop)
    (h : scope.Tracks s db names collection k)
    (hstep : JoinStep (s.context options names) collection path scope k before segment place
      target condition scope' k') :
    ∃ r c, link s.relations place.collection segment = .manyToOne r ∧ r.related = some target ∧
      condition = .equals (.of place.table r.field) (.of (names k) (s.primaryOf target)) ∧
      s.collection? target = some c ∧ k' = k + 1 := by
  obtain ⟨halong, hreach, -, hjoined, -⟩ := hstep
  have hbefore : IsPath before := fun s hs =>
    hpath.ofPrefix halong s (List.mem_append_left _ hs)
  obtain ⟨tables, -, hstands⟩ := h.joined [] (nullRow E)
  obtain ⟨there, hthere⟩ := hleads.ofPrefix halong (nullRow E)
  obtain ⟨here, hhere, hfollow⟩ := walk_concat_eq_some hthere
  rw [hstands.reached hbefore hreach] at hhere
  cases hhere
  obtain ⟨r, target', hlink, hrelated, -⟩ := follow_eq_some hfollow
  have hjoin : ((s.context options names).joinTarget place segment (names k)
      (.manyToOne r)).Gives (k + 1) (target, condition) k' := hlink ▸ hjoined
  obtain ⟨rfl, hcondition, ⟨c, hc⟩, hk⟩ := joinTarget_manyToOne_gives hrelated hjoin
  exact ⟨r, c, hlink, hrelated, hcondition, hc, hk⟩

/-- A left join on a primary key puts the row that is referred to in front of the others. -/
theorem joinTables_refers {c : Collection} {target : String} (hkeys : s.HasKeys db)
    (hc : s.collection? target = some c) (r : Relation) {table name : String}
    (hne : table ≠ name) (tables : Tables E) :
    joinTables db tables [⟨⟨target, some name⟩,
        .equals (.of table r.field) (.of name (s.primaryOf target))⟩] =
      [(name, referencedRow s db r target (rowOf tables table)) :: tables] := by
  have hmeets (other : Row E) :
      meets db ((name, other) :: tables)
        (some (.equals (.of table r.field) (.of name (s.primaryOf target)))) =
      decide (E.same (rowOf tables table r.field) (other (s.primaryOf target)) = .yes) := by
    rw [Bool.eq_iff_iff, meets_eq_true, truthOn_equals, value_of, value_of,
      rowOf_cons_of_ne hne, rowOf_cons_self, decide_eq_true_eq]
  rw [joinTables_singleton, join_tables_eq]
  simp only [TableRef.referenceName, Option.getD_some, hmeets]
  rw [orOne_filter_primary hkeys hc, List.map_singleton]

/-- A row in front of the others, under an alias of none of them, stands for what a path one
segment longer leads to. -/
theorem Stands.insert {hops : Hops} {row : Row E} {tables : Tables E} {before : List String}
    {segment target name : String} {place : Place} {r : Relation}
    (h : Stands s db collection hops row tables) (hnext : IsPath (before ++ [segment]))
    (hroot : collection ≠ name)
    (hother : ∀ path hop, hops.get? path = some hop → hop.name ≠ name)
    (hreached : walk s db (collection, row) before =
      some (place.collection, rowOf tables place.table))
    (hlink : link s.relations place.collection segment = .manyToOne r)
    (hrelated : r.related = some target) :
    Stands s db collection (hops.insert (before ++ [segment]) ⟨name, target⟩) row
      ((name, referencedRow s db r target (rowOf tables place.table)) :: tables) := by
  refine ⟨?_, ?_⟩
  · rw [rowOf_cons_of_ne hroot]
    exact h.root
  · intro path hop hne hpath hfound
    rcases Hops.get?_insert_eq_some hfound with ⟨hkey, rfl⟩ | ⟨-, hold⟩
    · obtain rfl := Hops.key_injective hpath hnext hne (by simp) hkey
      rw [walk_append, hreached, Option.bind_some, rowOf_cons_self, walk, List.foldlM_cons,
        follow, hlink]
      simp [hrelated]
    · rw [rowOf_cons_of_ne (hother path hop hold)]
      exact h.hop path hop hne hpath hold

/-- One more such join, under a new alias, puts one more row beside each row. -/
theorem Scope.Tracks.joinStep {c : Collection} {path before : List String}
    {scope scope' : Scope} {segment target stop : String} {place : Place} {condition : Expr}
    {k k' : Nat} (hinjective : Function.Injective names) (hkeys : s.HasKeys db)
    (hc : s.collection? collection = some c) (hpath : IsPath path)
    (hleads : Leads s db collection path.dropLast stop) (havoids : s.AvoidsAliases names k')
    (h : scope.Tracks s db names collection k)
    (hstep : JoinStep (s.context options names) collection path scope k before segment place
      target condition scope' k') :
    scope'.Tracks s db names collection k' := by
  obtain ⟨r, c', hlink, hrelated, rfl, hc', rfl⟩ := hstep.refers hpath hleads h
  obtain ⟨halong, hreach, hnew, -, hresult⟩ := hstep
  rw [Schema.context_names] at hresult
  subst hresult
  have hnext : IsPath (before ++ [segment]) := hpath.ofPrefix halong
  have hbefore : IsPath before := fun s hs => hnext s (List.mem_append_left _ hs)
  -- the new alias hides no table
  have hroot : collection ≠ names k := havoids.ne (Nat.lt_succ_self k) hc
  have hother : ∀ path hop, scope.hops.get? path = some hop → hop.name ≠ names k := by
    intro path hop hfound hname
    obtain ⟨j, hj, hissued⟩ := h.issued path hop hfound
    exact absurd (hinjective (hissued.symm.trans hname)) (Nat.ne_of_lt hj)
  have hplace : place.table ≠ names k := by
    cases hreach with
    | root => exact hroot
    | hop hfound => exact hother _ _ hfound
  refine ⟨?_, fun outer row => ?_⟩
  · intro path hop hfound
    rcases Hops.get?_insert_eq_some hfound with ⟨-, rfl⟩ | ⟨-, hold⟩
    · exact ⟨k, Nat.lt_succ_self k, rfl⟩
    · obtain ⟨j, hj, hname⟩ := h.issued path hop hold
      exact ⟨j, Nat.lt_succ_of_lt hj, hname⟩
  · obtain ⟨tables, htables, hstands⟩ := h.joined outer row
    refine ⟨_, ?_, hstands.insert hnext hroot hother (hstands.reached hbefore hreach) hlink
      hrelated⟩
    rw [Query.addJoin_joins, joinTables_append, htables, List.flatMap_singleton,
      joinTables_refers hkeys hc' r hplace]

/-- The joins along a path that leads from row to row put one row beside each row. -/
theorem Scope.Tracks.joinPath {c : Collection} {inner several : Bool} {scope scope' : Scope}
    {path : List String} {stop : String} {k k' : Nat} (hinjective : Function.Injective names)
    (hkeys : s.HasKeys db) (hc : s.collection? collection = some c) (hpath : IsPath path)
    (hleads : Leads s db collection path.dropLast stop) (havoids : s.AvoidsAliases names k')
    (h : scope.Tracks s db names collection k)
    (hjoin : ((s.context options names).joinPath inner collection scope path).Gives k
      (scope', several) k') :
    scope'.Tracks s db names collection k' := by
  refine Context.joinPath_keeps
    (P := fun scope k => s.AvoidsAliases names k → scope.Tracks s db names collection k)
    ?_ (fun _ => h) hjoin havoids
  intro scope k before segment place target condition scope' k' htracks hstep havoids
  have hgrows := Context.grows_joinTarget _ _ _ _ hstep.joined
  exact (htracks (havoids.mono (by omega))).joinStep hinjective hkeys hc hpath hleads havoids hstep

/-- The joins of a plain filter put one row beside each row. -/
theorem Scope.Tracks.joinFilter {c : Collection} {inner several : Bool} {scope scope' : Scope}
    {f : Filter} {k k' : Nat} (hinjective : Function.Injective names) (hkeys : s.HasKeys db)
    (hc : s.collection? collection = some c) (hplain : f.isPlain s.relations collection true = true)
    (hsegments : f.IsUnfolded) (havoids : s.AvoidsAliases names k')
    (h : scope.Tracks s db names collection k)
    (hjoin : ((s.context options names).joinFilter inner collection [] scope f).Gives k
      (scope', several) k') :
    scope'.Tracks s db names collection k' := by
  rw [Context.joinFilter_eq] at hjoin
  refine Context.joinPaths_keeps
    (P := fun scope k => s.AvoidsAliases names k → scope.Tracks s db names collection k)
    ?_ (fun _ => h) hjoin havoids
  intro path hmem scope scope' several k k' htracks hjoin havoids
  have hstart : Leads s db collection [] collection := fun row => ⟨row, rfl⟩
  obtain ⟨hpath, stop, hleads⟩ := leads_of_filterPaths [] f hstart
    (fun segment hsegment => by cases hsegment) hplain hsegments path hmem
  have hgrows := Context.grows_joinPath _ _ _ hjoin
  exact (htracks (havoids.mono hgrows)).joinPath hinjective hkeys hc hpath hleads havoids hjoin

end JsonSql
