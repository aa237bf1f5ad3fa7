import JsonSql.Proofs.Issued
import JsonSql.Proofs.Prefixes
import JsonSql.Proofs.Selection

set_option autoImplicit false

/-!
# One join for each prefix, one name for each join

What a compiled statement introduces, part by part.  Each `SELECT` joins the prefixes of the paths
that are walked there, once each, and each column that is resolved reads the join that is recorded
for the parents of its path.  Every alias is introduced by one join or one resolved column, so no
two of them go by one name, at any depth and in all parts together.
-/

namespace JsonSql

open JsonSql.Sql

/-! ## Conditions -/

/-- What the conditions of leaves introduce.  The comparisons of one leaf share one column, which is
resolved once; the condition of rows that are related is a statement with joins of its own. -/
inductive LeavesIntroduce (c : Context) :
    Hops → String → List Leaf → List Expr → List String → Prop
  | nil (hops : Hops) (collection : String) : LeavesIntroduce c hops collection [] [] []
  | compared {hops : Hops} {collection : String} {parents : List String} {key : String}
      {comparisons : List Comparison} {leaves : List Leaf} {column : Expr}
      {parts predicates : List Expr} {aliases : List String} :
      Context.Reads hops collection (parents ++ [Text.trim key]) column →
      (∀ e ∈ parts, IsPredicate column e) →
      LeavesIntroduce c hops collection leaves predicates aliases →
      LeavesIntroduce c hops collection (.compared parents key comparisons :: leaves)
        (parts ++ predicates) ((if parts = [] then [] else column.introduced) ++ aliases)
  | related {hops : Hops} {collection : String} {parents : List String} {key : String}
      {quantifier : Quantifier} {f : Filter} {leaves : List Leaf} {names : List String}
      {owner : String} {link : Link} {r : Relation} {polymorphic : Bool} {subject known : Expr}
      {scope : Scope} {e? : Option Expr} {predicates : List Expr} {inner aliases : List String} :
      IsKey names subject →
      IsReferring owner link r polymorphic known →
      AreLinked [r.collection] scope.query.joins →
      c.JoinsAlong true r.collection (c.filterPaths r.collection [] f) scope →
      LeavesIntroduce c scope.hops r.collection (c.leaves r.collection [] f)
        (e?.toList.flatMap Expr.predicates) inner →
      LeavesIntroduce c hops collection leaves predicates aliases →
      LeavesIntroduce c hops collection (.related parents key quantifier f :: leaves)
        (.inQuery subject (r.keysWith scope.query.joins (known.and? e?)) (quantifier = .none) ::
          predicates)
        (joinNames scope.query.joins ++ inner ++ aliases)

theorem IsReferring.introduced {collection : String} {link : Link} {r : Relation}
    {polymorphic : Bool} {known : Expr} (h : IsReferring collection link r polymorphic known) :
    known.introduced = [] := by
  cases h with
  | plain r => simp
  | polymorphic r hcolumn => simp [Expr.both, Expr.equals, Expr.string]

theorem predicates_and? (known : Expr) (e? : Option Expr) :
    (known.and? e?).predicates = known.predicates ++ e?.toList.flatMap Expr.predicates := by
  cases e? with
  | none => simp [Expr.and?]
  | some e => simp [Expr.and?]

/-- The aliases of joins that match prefixes. -/
theorem Context.JoinsAlong.aliases {c : Context} {inner : Bool} {collection : String}
    {paths : List (List String)} {scope : Scope}
    (h : c.JoinsAlong inner collection paths scope) :
    scope.query.joins.filterMap (fun join => join.target.label) =
      joinNames scope.query.joins := by
  obtain ⟨walked, hmatches⟩ := h
  have htargets := hmatches.joined
  have hlabels : scope.query.joins.filterMap (fun join => join.target.label) =
      (scope.query.joins.map Join.target).filterMap TableRef.label := by
    rw [List.filterMap_map]
    rfl
  have hnames : joinNames scope.query.joins =
      (scope.query.joins.map Join.target).map TableRef.referenceName := by
    rw [joinNames, List.map_map]
    rfl
  rw [hlabels, hnames, htargets, List.filterMap_map, List.map_map]
  exact congrFun List.filterMap_eq_map walked

/-- The aliases of the keys of related rows are those of its joins and of the filter. -/
theorem introduced_keysWith {c : Context} {collection : String} {link : Link} {r : Relation}
    {polymorphic : Bool} {known : Expr} {scope : Scope} {e? : Option Expr}
    {paths : List (List String)} (hreferring : IsReferring collection link r polymorphic known)
    (hlinked : AreLinked [r.collection] scope.query.joins)
    (hjoins : c.JoinsAlong true r.collection paths scope) :
    (r.keysWith scope.query.joins (known.and? e?)).introduced =
      joinNames scope.query.joins ++
        (e?.toList.flatMap Expr.predicates).flatMap Expr.introduced := by
  rw [Query.introduced_eq]
  simp [Relation.keysWith, Query.ownAliases, hjoins.aliases, hlinked.introduced, predicates_and?,
    introduced_predicates, hreferring.introduced]

/-- The listed aliases are those that the predicates introduce. -/
theorem LeavesIntroduce.mem_iff {c : Context} {hops : Hops} {collection : String}
    {leaves : List Leaf} {predicates : List Expr} {aliases : List String}
    (h : LeavesIntroduce c hops collection leaves predicates aliases) (name : String) :
    name ∈ predicates.flatMap Expr.introduced ↔ name ∈ aliases := by
  induction h with
  | nil => simp
  | @compared hops collection parents key comparisons leaves column parts predicates aliases
      hreads hparts hrest ih =>
    rw [List.flatMap_append, List.mem_append, List.mem_append, ih]
    refine or_congr_left ?_
    have hcopies : ∀ e ∈ parts, e.introduced = column.introduced :=
      fun e he => (hparts e he).introduced
    rw [List.mem_flatMap]
    constructor
    · rintro ⟨e, he, hname⟩
      rw [if_neg (List.ne_nil_of_mem he), ← hcopies e he]
      exact hname
    · intro hname
      split at hname
      · cases hname
      · next hne =>
        obtain ⟨e, he⟩ := List.exists_mem_of_ne_nil parts hne
        exact ⟨e, he, (hcopies e he).symm ▸ hname⟩
  | related hkey hreferring hlinked hjoins hinner hrest ihinner ihrest =>
    rw [List.flatMap_cons, List.mem_append, ihrest, introduced_inQuery, hkey.introduced,
      List.nil_append, introduced_keysWith hreferring hlinked hjoins]
    simp only [List.mem_append, ihinner]

theorem LeavesIntroduce.eq_nil {c : Context} {hops : Hops} {collection : String}
    {predicates : List Expr} {aliases : List String}
    (h : LeavesIntroduce c hops collection [] predicates aliases) :
    predicates = [] ∧ aliases = [] := by
  cases h
  exact ⟨rfl, rfl⟩

/-- Joins that are recorded later do not count. -/
theorem LeavesIntroduce.mono {c : Context} {hops hops' : Hops} {collection : String}
    {leaves : List Leaf} {predicates : List Expr} {aliases : List String}
    (h : LeavesIntroduce c hops collection leaves predicates aliases)
    (hkeeps : Context.Keeps hops hops') :
    LeavesIntroduce c hops' collection leaves predicates aliases := by
  induction h with
  | nil hops collection => exact .nil hops' collection
  | compared hreads hparts hrest ih => exact .compared (hreads.mono hkeeps) hparts (ih hkeeps)
  | related hkey hreferring hlinked hjoins hinner hrest ihinner ihrest =>
    exact .related hkey hreferring hlinked hjoins hinner (ihrest hkeeps)

namespace Context

variable {c : Context} {collection : String}

/-- The comparisons of a leaf introduce what their column does. -/
theorem compared_introduces {hops : Hops} {parents : List String} {key : String}
    {comparisons : List Comparison} {e? : Option Expr} {k k' : Nat}
    (h : (c.fieldCondition? hops collection parents key (.compare comparisons)).Gives k e? k') :
    ∃ column : Expr, Reads hops collection (parents ++ [Text.trim key]) column ∧
      Issued c.names k column.introduced k' ∧
      ∀ e ∈ e?.toList.flatMap Expr.predicates, IsPredicate column e := by
  obtain ⟨column, hcolumn, hall⟩ := compared_gives h
  obtain ⟨hreads, hissued⟩ := column_issued hcolumn
  exact ⟨column.expr, hreads, hissued, predicates_of_compareAll? hall⟩

/-- The conditions of leaves introduce new aliases only.  The induction is on the size of the
filters about related rows, and within it on the list of leaves. -/
theorem leavesIntroduce_of_leavesGive (size : Nat) :
    ∀ {leaves : List Leaf} {hops : Hops} {collection : String} {predicates : List Expr}
      {k k' : Nat}, (∀ leaf ∈ leaves, leaf.IsUnfolded) →
      (∀ parents key quantifier f, .related parents key quantifier f ∈ leaves → sizeOf f < size) →
      c.LeavesGive hops collection leaves k predicates k' →
      ∃ aliases, LeavesIntroduce c hops collection leaves predicates aliases ∧
        Issued c.names k aliases k' := by
  induction size using Nat.strongRecOn with
  | ind size ihsize =>
  intro leaves
  induction leaves with
  | nil =>
    intro hops collection predicates k k' _ _ h
    obtain ⟨parts, hparts, rfl⟩ := h
    rw [List.mapM_nil, Compile.gives_pure] at hparts
    obtain ⟨rfl, rfl⟩ := hparts
    exact ⟨[], .nil hops collection, .nil (Nat.le_refl k')⟩
  | cons leaf rest ihrest =>
    intro hops collection predicates k k' hunfolded hsize h
    obtain ⟨e?, k₁, others, hleaf, hrest, rfl⟩ := h.cons_gives
    obtain ⟨aliases, hintroduce, hissued⟩ := ihrest
      (fun l hl => hunfolded l (List.mem_cons_of_mem _ hl))
      (fun parents key quantifier f hf =>
        hsize parents key quantifier f (List.mem_cons_of_mem _ hf)) hrest
    have hleafUnfolded := hunfolded leaf List.mem_cons_self
    cases leaf with
    | compared parents key comparisons =>
      obtain ⟨column, hreads, hcolumn, hparts⟩ := compared_introduces hleaf
      refine ⟨_, .compared hreads hparts hintroduce, ?_⟩
      split
      · exact (Issued.nil hcolumn.grows).append hissued
      · exact hcolumn.append hissued
    | related parents key quantifier f =>
      obtain ⟨owner, table, link, e, rfl, -, he⟩ := quantified_gives hleaf
      obtain ⟨r, polymorphic, known, scope, several, inner?, primary, k₂, hreferring, -, hjoin,
        hinner, -, rfl⟩ := existential_eq he
      have hlinked : AreLinked [r.collection] scope.query.joins :=
        (isSound_of_joinFilter (.ofStatement hreferring.isStatement) hjoin).statement.joins
      have hextends := extends_of_joinFilter hjoin
      rw [joinFilter_eq] at hjoin
      have hjoins := joinsAlong_joinPaths
        (isPath_of_mem_filterPaths isPath_nil hleafUnfolded.2.2) (joinsAlong_nil rfl) hjoin
      rw [List.nil_append] at hjoins
      -- the filter about related rows is smaller, and so are those in its leaves
      obtain ⟨inner, hinside, hinnerIssued⟩ := ihsize (sizeOf f)
        (hsize parents key quantifier f List.mem_cons_self)
        (isUnfolded_of_mem_leaves f isPath_nil hleafUnfolded.2.2)
        (fun parents key quantifier g hg => sizeOf_lt_of_mem_leaves f hg)
        (leavesGive_condition? [] f hinner)
      have hsubject : IsKey [table]
          (if polymorphic then .cast (.of table primary) .text else .of table primary) := by
        cases polymorphic with
        | false => exact .plain primary List.mem_cons_self
        | true => exact .text primary List.mem_cons_self
      refine ⟨_, .related hsubject hreferring hlinked hjoins hinside hintroduce, ?_⟩
      obtain ⟨more, hmore, hjoinsIssued⟩ := hextends
      rw [hmore]
      exact (hjoinsIssued.append hinnerIssued).append hissued

end Context

/-! ## Statements -/

/-- The path of a sort entry. -/
def sortPath (entry : String) : List String := fieldPath ((Text.after? "-" entry).getD entry)

theorem fieldPath_of_sortKey {entry key : String} {direction : Direction}
    (h : Context.sortKey entry = .ok (direction, key)) : fieldPath key = sortPath entry := by
  have hkey : key = (Text.after? "-" entry).getD entry := by
    unfold Context.sortKey at h
    cases hminus : Text.after? "-" entry with
    | none =>
      rw [hminus] at h
      dsimp only at h
      split at h
      · cases h
      · cases h
        rfl
    | some rest =>
      rw [hminus] at h
      dsimp only at h
      split at h
      · cases h
      · cases h
        rfl
  rw [hkey, sortPath]

theorem isPath_fieldPath (key : String) : IsPath (fieldPath key) := by
  intro segment hsegment
  obtain ⟨piece, hpiece, rfl⟩ := List.mem_map.mp hsegment
  obtain ⟨chars, hchars, rfl⟩ := List.mem_map.mp hpiece
  refine IsSegment.trim ?_
  rw [IsSegment, String.toList_ofList]
  exact Text.notMem_of_mem_splitChars hchars

namespace Context

/-- The paths of the filter of a request that are walked in the statement of the request itself. -/
def requestPaths (c : Context) (collection : String) (r : Request) : List (List String) :=
  r.filter.toList.flatMap fun f => c.filterPaths collection [] f.unfolded

/-- The paths that are walked in the statement of a request itself. -/
def walkedPaths (c : Context) (collection : String) (r : Request) : List (List String) :=
  r.sort.map sortPath ++ r.group.map fieldPath ++ c.requestPaths collection r ++
    (r.aggregate.flatMap Prod.snd).map fieldPath

/-- The leaves of the filter of a request. -/
def requestLeaves (c : Context) (collection : String) (r : Request) : List Leaf :=
  r.filter.toList.flatMap fun f => c.leaves collection [] f.unfolded

/-- An aggregation of whole rows, which introduces nothing, or of the column of a path. -/
def IsSummary (hops : Hops) (collection : String) (aggregation : Aggregation) (field : String)
    (e : Expr) : Prop :=
  field = "*" ∧ e.introduced = [] ∨
    ∃ column, Reads hops collection (fieldPath field) column ∧ e = aggregation.apply column

/-- The expressions of an entry of an aggregate, one for each field. -/
def AreSummaries (hops : Hops) (collection : String) (entry : Aggregation × List String)
    (es : List Expr) : Prop :=
  entry.1 = .countAll ∧ es = [.countRows] ∨
    List.Forall₂ (IsSummary hops collection entry.1) entry.2 es

variable {c : Context}

theorem introduced_aggregation (aggregation : Aggregation) (e : Expr) :
    (aggregation.apply e).introduced = e.introduced := by
  cases aggregation <;> simp [Aggregation.apply, Expr.count, Expr.countDistinct, Expr.apply]

theorem introduced_countRows : Expr.countRows.introduced = [] := by
  simp [Expr.countRows, Expr.count, Expr.apply]

/-- An aggregation introduces what its column does. -/
theorem isSummary_of_aggregateExpr {info : CollectionInfo} {scope : Scope}
    {aggregation : Aggregation} {field : String} {e : Expr} {k k' : Nat}
    (h : (c.aggregateExpr info scope aggregation field).Gives k e k') :
    IsSummary scope.hops info.name aggregation field e ∧ Issued c.names k e.introduced k' := by
  unfold aggregateExpr at h
  split at h
  · next hrows =>
    split at h
    · obtain ⟨rfl, rfl⟩ := Compile.gives_pure.mp h
      have hnone : (if scope.query.hasJoins then .countDistinct (.of info.name info.primary)
          else .countRows : Expr).introduced = [] := by
        split
        · simp [Expr.countDistinct]
        · exact introduced_countRows
      exact ⟨.inl ⟨hrows, hnone⟩, hnone ▸ .nil (Nat.le_refl k')⟩
    · exact absurd h Compile.not_gives_throw
  · simp only [Compile.gives_bind, Compile.gives_pure] at h
    obtain ⟨column, k₁, hcolumn, rfl, rfl⟩ := h
    obtain ⟨hreads, hissued⟩ := column_issued hcolumn
    rw [introduced_aggregation]
    exact ⟨.inr ⟨column.expr, hreads, rfl⟩, hissued⟩

/-- The fields of an aggregation are summed up one by one. -/
theorem areSummaries_of_aggregateItems {info : CollectionInfo} {scope : Scope}
    {entry : Aggregation × List String} {items : List Item} {k k' : Nat}
    (h : (c.aggregateItems info scope entry).Gives k items k') :
    AreSummaries scope.hops info.name entry (items.map Item.expr) ∧
      Issued c.names k ((items.map Item.expr).flatMap Expr.introduced) k' := by
  obtain ⟨aggregation, fields⟩ := entry
  unfold aggregateItems at h
  dsimp only at h
  split at h
  · next hall =>
    obtain ⟨rfl, rfl⟩ := Compile.gives_pure.mp h
    refine ⟨.inl ⟨hall, rfl⟩, ?_⟩
    rw [List.map_singleton, List.flatMap_singleton, introduced_countRows]
    exact .nil (Nat.le_refl k')
  · have hbuilt := Compile.mapM_builds
      (P := fun done results j =>
        List.Forall₂ (IsSummary scope.hops info.name aggregation) done (results.map Item.expr) ∧
          Issued c.names k ((results.map Item.expr).flatMap Expr.introduced) j)
      (fun {done results field j item j'} hdone hitem => by
        simp only [Compile.gives_bind, Compile.gives_pure] at hitem
        obtain ⟨e, j₁, he, rfl, rfl⟩ := hitem
        obtain ⟨hsummary, hissued⟩ := isSummary_of_aggregateExpr he
        rw [List.map_append, List.map_singleton, List.flatMap_append, List.flatMap_singleton]
        exact ⟨List.rel_append hdone.1 (.cons hsummary .nil), hdone.2.append hissued⟩)
      ⟨.nil, .nil (Nat.le_refl k)⟩ h
    exact ⟨.inr hbuilt.1, hbuilt.2⟩

/-- The entries of an aggregate are summed up one by one. -/
theorem areSummaries_of_aggregate {info : CollectionInfo} {scope : Scope}
    {aggregate : List (Aggregation × List String)} {items : List (List Item)} {k k' : Nat}
    (h : (aggregate.mapM (c.aggregateItems info scope)).Gives k items k') :
    List.Forall₂ (AreSummaries scope.hops info.name) aggregate
        (items.map (List.map Item.expr)) ∧
      Issued c.names k ((items.map (List.map Item.expr)).flatten.flatMap Expr.introduced) k' := by
  have hbuilt := Compile.mapM_builds
    (P := fun done (results : List (List Item)) j =>
      List.Forall₂ (AreSummaries scope.hops info.name) done
          (results.map (List.map Item.expr)) ∧
        Issued c.names k ((results.map (List.map Item.expr)).flatten.flatMap Expr.introduced) j)
    ?_ ⟨.nil, .nil (Nat.le_refl k)⟩ h
  · exact hbuilt
  · intro done results entry j found j' hdone hfound
    obtain ⟨hsummaries, hnew⟩ := areSummaries_of_aggregateItems hfound
    rw [List.map_append, List.map_singleton, List.flatten_append, List.flatten_singleton,
      List.flatMap_append]
    exact ⟨List.rel_append hdone.1 (.cons hsummaries .nil), hdone.2.append hnew⟩

theorem foldl_addItem (items : List Item) (q : Query) :
    items.foldl Query.addItem q = { q with items := q.items ++ items } := by
  induction items generalizing q with
  | nil =>
    cases q
    simp
  | cons item rest ih =>
    rw [List.foldl_cons, ih]
    simp [Query.addItem]

end Context

/-- What a statement introduces for a request: joins that match the prefixes of the walked paths,
and one resolved column for each entry of the ordering, the groups, the leaves of the filter and the
aggregations.  The expressions `base` stand in front of the projections; a projected group repeats
the column of the group. -/
structure Introductions (c : Context) (collection : String) (base : List Expr)
    (paths : List (List String)) (r : Request) (scope : Scope) where
  summaries : List (List Expr)
  searched : List Expr
  filtered : List Expr
  conditionAliases : List String
  joins : c.JoinsAlong false collection paths scope
  orders : List.Forall₂ (fun entry o => Context.Reads scope.hops collection (sortPath entry) o.expr)
    r.sort scope.query.orders
  groups : List.Forall₂ (fun key e => Context.Reads scope.hops collection (fieldPath key) e)
    r.group scope.query.groups
  items : scope.query.items.map Item.expr = base ++ scope.query.groups ++ summaries.flatten
  aggregate : List.Forall₂ (Context.AreSummaries scope.hops collection) r.aggregate summaries
  condition : scope.query.condition.toList.flatMap Expr.predicates = searched ++ filtered
  search : searched.flatMap Expr.introduced = []
  filter : LeavesIntroduce c scope.hops collection (c.requestLeaves collection r) filtered
    conditionAliases

/-- The aliases of joins and of resolved columns. -/
def Introductions.aliases {c : Context} {collection : String} {base : List Expr}
    {paths : List (List String)} {r : Request} {scope : Scope}
    (i : Introductions c collection base paths r scope) : List String :=
  joinNames scope.query.joins ++ (scope.query.orders.map OrderItem.expr).flatMap Expr.introduced ++
    scope.query.groups.flatMap Expr.introduced ++ i.summaries.flatten.flatMap Expr.introduced ++
    i.conditionAliases

/-- Without a filter no condition comes from one. -/
theorem Introductions.filter_of_none {c : Context} {collection : String} {base : List Expr}
    {paths : List (List String)} {r : Request} {scope : Scope}
    (i : Introductions c collection base paths r scope) (h : r.filter = none) :
    i.filtered = [] ∧ i.conditionAliases = [] := by
  have hfilter := i.filter
  rw [Context.requestLeaves, h] at hfilter
  exact hfilter.eq_nil

/-- A statement whose introductions are all issued before `k`. -/
def Introduces (c : Context) (collection : String) (base : List Expr)
    (paths : List (List String)) (r : Request) (scope : Scope) (k : Nat) : Prop :=
  ∃ i : Introductions c collection base paths r scope, Issued c.names 0 i.aliases k

namespace Introduces

variable {c : Context} {collection : String} {base : List Expr} {paths : List (List String)}
  {r : Request} {scope : Scope} {k k' : Nat}

/-- A statement to start with introduces nothing. -/
theorem start {q : Query} (hjoins : q.joins = []) (hcondition : q.condition = none)
    (hgroups : q.groups = []) (horders : q.orders = []) :
    Introduces c collection (q.items.map Item.expr) [] {} { query := q } 0 := by
  refine ⟨⟨[], [], [], [], Context.joinsAlong_nil hjoins, ?_, ?_, ?_, .nil, ?_, rfl,
    .nil {} collection⟩, ?_⟩
  · rw [horders]
    exact .nil
  · rw [hgroups]
    exact .nil
  · rw [hgroups]
    simp
  · rw [hcondition]
    rfl
  · simp only [Introductions.aliases, hjoins, horders, hgroups]
    exact .nil (Nat.le_refl 0)

/-- More joins, which match more paths. -/
theorem join {more : List (List String)} {scope' : Scope}
    (h : Introduces c collection base paths r scope k)
    (hsame : Context.sameButJoins scope.query scope'.query)
    (hkeeps : Context.Keeps scope.hops scope'.hops)
    (hextends : c.Extends scope.query.joins k scope' k')
    (hjoins : c.JoinsAlong false collection (paths ++ more) scope') :
    Introduces c collection base (paths ++ more) r scope' k' := by
  obtain ⟨i, hissued⟩ := h
  obtain ⟨added, hadded, hnew⟩ := hextends
  rw [Context.sameButJoins] at hsame
  have horders : scope'.query.orders = scope.query.orders := by rw [hsame]
  have hgroups : scope'.query.groups = scope.query.groups := by rw [hsame]
  have hitems : scope'.query.items = scope.query.items := by rw [hsame]
  have hcondition : scope'.query.condition = scope.query.condition := by rw [hsame]
  refine ⟨⟨i.summaries, i.searched, i.filtered, i.conditionAliases, hjoins, ?_, ?_, ?_, ?_, ?_,
    i.search, i.filter.mono hkeeps⟩, ?_⟩
  · rw [horders]
    exact i.orders.imp fun _ _ hreads => hreads.mono hkeeps
  · rw [hgroups]
    exact i.groups.imp fun _ _ hreads => hreads.mono hkeeps
  · rw [hitems, hgroups]
    exact i.items
  · refine i.aggregate.imp fun entry es hes => ?_
    rcases hes with hrows | hes
    · exact .inl hrows
    · refine .inr (hes.imp fun field e he => ?_)
      rcases he with hrows | ⟨column, hreads, hcolumn⟩
      · exact .inl hrows
      · exact .inr ⟨column, hreads.mono hkeeps, hcolumn⟩
  · rw [hcondition]
    exact i.condition
  · refine (hissued.append hnew).perm ?_
    rw [List.perm_iff_count]
    intro name
    simp only [Introductions.aliases, horders, hgroups, hadded, joinNames_append,
      List.count_append]
    omega

theorem joinPath {path : List String} {scope' : Scope} {several : Bool}
    (h : Introduces c collection base paths r scope k) (hpath : IsPath path)
    (hjoin : (c.joinPath false collection scope path).Gives k (scope', several) k') :
    Introduces c collection base (paths ++ [path]) r scope' k' := by
  obtain ⟨i, hissued⟩ := h
  exact join ⟨i, hissued⟩ (Context.sameButJoins_of_joinPath hjoin (Context.sameButJoins_refl _))
    (Context.keeps_of_joinPath hjoin) (Context.extends_of_joinPath hjoin)
    (Context.joinsAlong_joinPath hpath i.joins hjoin)

theorem joinFilter {f : Filter} {scope' : Scope} {several : Bool}
    (h : Introduces c collection base paths r scope k) (hunfolded : f.IsUnfolded)
    (hjoin : (c.joinFilter false collection [] scope f).Gives k (scope', several) k') :
    Introduces c collection base (paths ++ c.filterPaths collection [] f) r scope' k' := by
  obtain ⟨i, hissued⟩ := h
  refine join ⟨i, hissued⟩
    (Context.sameButJoins_of_joinFilter hjoin (Context.sameButJoins_refl _))
    (Context.keeps_of_joinFilter hjoin) (Context.extends_of_joinFilter hjoin) ?_
  rw [Context.joinFilter_eq] at hjoin
  exact Context.joinsAlong_joinPaths
    (Context.isPath_of_mem_filterPaths isPath_nil hunfolded) i.joins hjoin

/-- A joined column reads its path. -/
theorem joinedColumn {key : String} {scope' : Scope} {column : Column}
    (h : Introduces c collection base paths r scope k)
    (hjoined : (c.joinedColumn collection scope key).Gives k (scope', column) k') :
    ∃ k₁, Introduces c collection base (paths ++ [fieldPath key]) r scope' k₁ ∧
      Context.Reads scope'.hops collection (fieldPath key) column.expr ∧
      Issued c.names k₁ column.expr.introduced k' := by
  simp only [Context.joinedColumn, Compile.gives_bind, Compile.gives_pure] at hjoined
  obtain ⟨⟨scope₁, several⟩, k₁, hjoin, found, k₂, hcolumn, hresult, rfl⟩ := hjoined
  cases hresult
  exact ⟨k₁, h.joinPath (isPath_fieldPath key) hjoin, Context.column_issued hcolumn⟩

/-- One more sort entry resolves one more column. -/
theorem sortBy {entry : String} {scope' : Scope}
    (h : Introduces c collection base paths r scope k)
    (hsort : (c.sortBy collection scope entry).Gives k scope' k') :
    Introduces c collection base (paths ++ [sortPath entry])
      { r with sort := r.sort ++ [entry] } scope' k' := by
  simp only [Context.sortBy, Compile.gives_bind, Compile.gives_lift, Compile.gives_pure] at hsort
  obtain ⟨⟨direction, key⟩, k₁, ⟨hkey, rfl⟩, ⟨scope₁, column⟩, k₂, hjoined, rfl, rfl⟩ := hsort
  obtain ⟨k₃, hintroduces, hreads, hcolumn⟩ := h.joinedColumn hjoined
  rw [fieldPath_of_sortKey hkey] at hintroduces hreads
  obtain ⟨i, hissued⟩ := hintroduces
  refine ⟨⟨i.summaries, i.searched, i.filtered, i.conditionAliases, i.joins, ?_, i.groups,
    i.items, i.aggregate, i.condition, i.search, i.filter⟩, ?_⟩
  · exact List.rel_append i.orders (.cons hreads .nil)
  · refine (hissued.append hcolumn).perm ?_
    rw [List.perm_iff_count]
    intro name
    simp only [Introductions.aliases, Query.addOrder, List.map_append, List.map_singleton,
      List.flatMap_append, List.flatMap_singleton, List.count_append]
    omega

/-- One more group resolves one more column, which is projected as well. -/
theorem groupBy {key : String} {scope' : Scope} (h : Introduces c collection base paths r scope k)
    (haggregate : r.aggregate = [])
    (hgroup : (c.groupBy collection scope key).Gives k scope' k') :
    Introduces c collection base (paths ++ [fieldPath key])
      { r with group := r.group ++ [key] } scope' k' := by
  simp only [Context.groupBy, Compile.gives_bind, Compile.gives_pure] at hgroup
  obtain ⟨⟨scope₁, column⟩, k₁, hjoined, rfl, rfl⟩ := hgroup
  obtain ⟨k₂, ⟨i, hissued⟩, hreads, hcolumn⟩ := h.joinedColumn hjoined
  have hsummaries : i.summaries = [] := by
    have hnone := i.aggregate
    rw [haggregate] at hnone
    exact List.forall₂_nil_left_iff.mp hnone
  refine ⟨⟨i.summaries, i.searched, i.filtered, i.conditionAliases, i.joins, i.orders, ?_, ?_,
    i.aggregate, i.condition, i.search, i.filter⟩, ?_⟩
  · exact List.rel_append i.groups (.cons hreads .nil)
  · have hitems := i.items
    rw [hsummaries] at hitems
    simp only [Query.addItem, Query.addGroup, List.map_append, hitems, hsummaries,
      List.map_singleton, List.flatten_nil, List.append_nil, List.append_assoc]
  · refine (hissued.append hcolumn).perm ?_
    rw [List.perm_iff_count]
    intro name
    simp only [Introductions.aliases, Query.addItem, Query.addGroup, List.flatMap_append,
      List.flatMap_singleton, List.count_append]
    omega

/-- A search adds a condition that introduces nothing. -/
theorem search {term : String} {q : Query} (h : Introduces c collection base paths r scope k)
    (hfilter : r.filter = none)
    (hsearch : (c.search collection scope.query term).Gives k q k') :
    Introduces c collection base paths r { scope with query := q } k' := by
  simp only [Context.search, Compile.gives_bind, Context.ask_gives, Compile.gives_pure] at hsearch
  obtain ⟨fields, k₁, ⟨-, rfl⟩, rfl, rfl⟩ := hsearch
  obtain ⟨i, hissued⟩ := h
  obtain ⟨hfiltered, haliases⟩ := i.filter_of_none hfilter
  let sought := searchCondition collection (Text.trim term) fields
  refine ⟨⟨i.summaries, i.searched ++ sought.predicates, i.filtered, i.conditionAliases, i.joins,
    i.orders, i.groups, i.items, i.aggregate, ?_, ?_, i.filter⟩, hissued⟩
  · rw [predicates_addCondition, i.condition, hfiltered, List.append_nil, List.append_nil]
  · rw [List.flatMap_append, i.search, List.nil_append, List.flatMap_eq_nil_iff]
    intro e he
    rcases predicates_searchCondition he with rfl | ⟨f, -, -, hpredicate⟩
    · simp [Expr.equals, Expr.int]
    · rw [hpredicate.introduced, introduced_of]

/-- A filter joins its paths and adds the conditions of its leaves. -/
theorem restrict {f : Filter} {scope' : Scope} {several : Bool}
    (h : Introduces c collection base paths r scope k) (hfilter : r.filter = none)
    (hrestrict : (c.restrict false collection scope f).Gives k (scope', several) k') :
    Introduces c collection base (paths ++ c.filterPaths collection [] f.unfolded)
      { r with filter := some f } scope' k' := by
  obtain ⟨scope₁, k₁, e?, hjoin, he, hhops, hquery⟩ :=
    Context.addFilter_gives (Context.addFilter_of_restrict hrestrict)
  obtain ⟨i, hissued⟩ := h.joinFilter (isUnfolded_unfolded f) hjoin
  obtain ⟨hfiltered, haliases⟩ := i.filter_of_none hfilter
  obtain ⟨aliases, hintroduce, hnew⟩ := Context.leavesIntroduce_of_leavesGive
    (sizeOf f.unfolded)
    (Context.isUnfolded_of_mem_leaves f.unfolded isPath_nil (isUnfolded_unfolded f))
    (fun parents key quantifier g hg => Context.sizeOf_lt_of_mem_leaves f.unfolded hg)
    (Context.leavesGive_condition? [] f.unfolded he)
  obtain ⟨query, hops⟩ := scope'
  obtain rfl : hops = scope₁.hops := hhops
  have hleaves : c.requestLeaves collection { r with filter := some f } =
      c.leaves collection [] f.unfolded := List.flatMap_singleton _ _
  -- the condition is all that the filter changes besides the joins
  have hsame : query = { scope₁.query with condition := query.condition } ∧
      query.condition.toList.flatMap Expr.predicates =
        i.searched ++ e?.toList.flatMap Expr.predicates := by
    have hbefore := i.condition
    rw [hfiltered, List.append_nil] at hbefore
    dsimp only at hquery
    rw [hquery]
    cases e? with
    | none =>
      refine ⟨?_, by simp [hbefore]⟩
      cases scope₁.query
      rfl
    | some e => exact ⟨rfl, by rw [predicates_addCondition, hbefore]; simp⟩
  obtain ⟨hquery, hcondition⟩ := hsame
  generalize query.condition = condition at hquery hcondition
  subst hquery
  refine ⟨⟨i.summaries, i.searched, e?.toList.flatMap Expr.predicates, aliases, i.joins, i.orders,
    i.groups, i.items, i.aggregate, hcondition, i.search, ?_⟩, ?_⟩
  · rw [hleaves]
    exact hintroduce
  · have hall := hissued.append hnew
    simp only [Introductions.aliases, haliases, List.append_nil] at hall
    exact hall

/-- The aggregations join the paths of their fields first. -/
theorem joinAggregate {aggregate : List (Aggregation × List String)} {scope' : Scope}
    (h : Introduces c collection base paths r scope k)
    (hjoin : (c.joinAggregate collection scope aggregate).Gives k scope' k') :
    Introduces c collection base (paths ++ (aggregate.flatMap Prod.snd).map fieldPath) r
      scope' k' := by
  have hstart : Introduces c collection base (paths ++ ([] : List String).map fieldPath) r
      scope k := by
    rw [List.map_nil, List.append_nil]
    exact h
  refine Compile.foldlM_builds
    (P := fun done s j => Introduces c collection base (paths ++ done.map fieldPath) r s j)
    ?_ hstart hjoin
  intro done s field j s' j' hdone hstep
  obtain ⟨⟨s₁, several⟩, hpath, rfl⟩ := Compile.gives_map.mp hstep
  rw [List.map_append, List.map_singleton, ← List.append_assoc]
  exact hdone.joinPath (isPath_fieldPath field) hpath

/-- The aggregations resolve one column for each field. -/
theorem addAggregate {info : CollectionInfo} {aggregate : List (Aggregation × List String)}
    {scope' : Scope} (h : Introduces c info.name base paths r scope k)
    (haggregate : r.aggregate = [])
    (hadd : (c.addAggregate info scope aggregate).Gives k scope' k') :
    Introduces c info.name base (paths ++ (aggregate.flatMap Prod.snd).map fieldPath)
      { r with aggregate } scope' k' := by
  simp only [Context.addAggregate, Compile.gives_bind, Compile.gives_pure] at hadd
  obtain ⟨scope₁, k₁, hjoin, items, k₂, hitems, rfl, rfl⟩ := hadd
  obtain ⟨i, hissued⟩ := h.joinAggregate hjoin
  have hbuilt := Context.areSummaries_of_aggregate hitems
  have hsummaries : i.summaries = [] := by
    have hnone := i.aggregate
    rw [haggregate] at hnone
    exact List.forall₂_nil_left_iff.mp hnone
  rw [Context.foldl_addItem]
  refine ⟨⟨items.map (List.map Item.expr), i.searched, i.filtered, i.conditionAliases, i.joins,
    i.orders, i.groups, ?_, hbuilt.1, i.condition, i.search, i.filter⟩, ?_⟩
  · have hbefore := i.items
    rw [hsummaries, List.flatten_nil, List.append_nil] at hbefore
    rw [List.map_append, hbefore, List.map_flatten]
  · refine (hissued.append hbuilt.2).perm ?_
    rw [List.perm_iff_count]
    intro name
    simp only [Introductions.aliases, hsummaries, List.flatten_nil, List.flatMap_nil,
      List.count_append, List.count_nil]
    omega

/-- What a statement introduces depends on these parts of a request only. -/
theorem ofRequest {sort group : List String} {filter : Option Filter}
    {aggregate : List (Aggregation × List String)}
    (h : Introduces c collection base paths { sort, group, filter, aggregate } scope k)
    (hsort : sort = r.sort) (hgroup : group = r.group) (hfilter : filter = r.filter)
    (haggregate : aggregate = r.aggregate) : Introduces c collection base paths r scope k := by
  subst hsort hgroup hfilter haggregate
  obtain ⟨i, hissued⟩ := h
  exact ⟨⟨i.summaries, i.searched, i.filtered, i.conditionAliases, i.joins, i.orders, i.groups,
    i.items, i.aggregate, i.condition, i.search, i.filter⟩, hissued⟩

end Introduces

/-! ## Requests -/

theorem Query.narrow_eq (q : Query) (w : Window) :
    ∃ window, Query.narrow q w = { q with window } := by
  unfold Query.narrow
  cases w.limit <;> cases w.offset <;> cases q <;> exact ⟨_, rfl⟩

/-- Adding a request to a statement without joins introduces new aliases only. -/
theorem introduces_of_apply {c : Context} {collection : String} {q : Query} {r : Request}
    {applied : Applied} {k : Nat}
    (hnamed : ∀ info, c.provider.collection collection = .ok (some info) →
      info.name = collection)
    (hjoins : q.joins = []) (hcondition : q.condition = none) (hgroups : q.groups = [])
    (horders : q.orders = []) (h : (c.apply collection q r false).Gives 0 applied k) :
    ∃ hops, Introduces c collection (q.items.map Item.expr) (c.walkedPaths collection r) r
      { query := applied.query, hops } k := by
  simp only [Context.apply_eq, Compile.gives_bind, Compile.gives_pure] at h
  obtain ⟨info, k₁, hinfo, scope₁, k₂, horder, scope₂, k₃, hsearch, scope₃, k₄, hgroup,
    ⟨scope₄, repeatsRows⟩, k₅, hfilter, scope₅, k₆, haggregate, rfl, rfl⟩ := h
  obtain ⟨hfound, rfl⟩ := Context.collection_gives.mp hinfo
  have h₁ : Introduces c collection (q.items.map Item.expr) (r.sort.map sortPath)
      { sort := r.sort } scope₁ k₂ := by
    rw [Context.orderStage, if_neg Bool.false_ne_true] at horder
    obtain ⟨window, hwindow⟩ := Query.narrow_eq q (c.options.window r)
    rw [hwindow] at horder
    exact Compile.foldlM_builds (P := fun done s j => Introduces c collection
      (q.items.map Item.expr) (done.map sortPath) { sort := done } s j)
      (fun hdone hstep => by
        rw [List.map_append, List.map_singleton]
        exact hdone.sortBy hstep)
      (Introduces.start (q := { q with window }) hjoins hcondition hgroups horders) horder
  have h₂ : Introduces c collection (q.items.map Item.expr) (r.sort.map sortPath)
      { sort := r.sort } scope₂ k₃ := by
    unfold Context.searchStage at hsearch
    split at hsearch
    · obtain ⟨rfl, rfl⟩ := Compile.gives_pure.mp hsearch
      exact h₁
    · obtain ⟨sought, hsought, rfl⟩ := Compile.gives_map.mp hsearch
      exact h₁.search rfl hsought
  have h₃ : Introduces c collection (q.items.map Item.expr)
      (r.sort.map sortPath ++ r.group.map fieldPath)
      { sort := r.sort, group := r.group } scope₃ k₄ := by
    have hstart : Introduces c collection (q.items.map Item.expr)
        (r.sort.map sortPath ++ ([] : List String).map fieldPath)
        { sort := r.sort, group := [] } scope₂ k₃ := by
      rw [List.map_nil, List.append_nil]
      exact h₂
    exact Compile.foldlM_builds (P := fun done s j => Introduces c collection
      (q.items.map Item.expr) (r.sort.map sortPath ++ done.map fieldPath)
      { sort := r.sort, group := done } s j)
      (fun hdone hstep => by
        rw [List.map_append, List.map_singleton, ← List.append_assoc]
        exact hdone.groupBy rfl hstep)
      hstart hgroup
  have h₄ : Introduces c collection (q.items.map Item.expr)
      (r.sort.map sortPath ++ r.group.map fieldPath ++ c.requestPaths collection r)
      { sort := r.sort, group := r.group, filter := r.filter } scope₄ k₅ := by
    unfold Context.filterStage at hfilter
    split at hfilter
    · next hnone =>
      obtain ⟨hresult, rfl⟩ := Compile.gives_pure.mp hfilter
      cases hresult
      rw [Context.requestPaths, hnone, Option.toList_none, List.flatMap_nil, List.append_nil]
      exact h₃
    · next f hsome =>
      rw [Context.requestPaths, hsome, Option.toList_some, List.flatMap_singleton]
      exact h₃.restrict rfl hfilter
  refine ⟨scope₅.hops, ?_⟩
  unfold Context.aggregateStage at haggregate
  split at haggregate
  · next hempty =>
    obtain ⟨rfl, rfl⟩ := Compile.gives_pure.mp haggregate
    have hnone : r.aggregate = [] := List.isEmpty_iff.mp hempty
    rw [Context.walkedPaths, hnone, List.flatMap_nil, List.map_nil, List.append_nil]
    exact h₄.ofRequest rfl rfl rfl hnone.symm
  · obtain rfl : info.name = collection := hnamed info hfound
    exact (h₄.addAggregate rfl haggregate).ofRequest rfl rfl rfl rfl

/-- The aliases of a statement are those that it introduces at any depth. -/
theorem Introductions.mem_iff {c : Context} {collection : String} {base : List Expr}
    {paths : List (List String)} {r : Request} {scope : Scope}
    (i : Introductions c collection base paths r scope)
    (hstatement : IsStatement collection scope.query)
    (hbase : base.flatMap Expr.introduced = []) (name : String) :
    name ∈ scope.query.introduced ↔ name ∈ i.aliases := by
  have hown : scope.query.ownAliases = joinNames scope.query.joins := by
    rw [Query.ownAliases, hstatement.source, i.joins.aliases]
    rfl
  rw [Query.introduced_eq, hown, hstatement.joins.introduced, i.items, i.condition]
  simp only [List.flatMap_append, hbase, i.search, List.nil_append, List.append_nil,
    Introductions.aliases, List.mem_append, i.filter.mem_iff]
  -- a group is projected, and stands among the groups as well
  tauto

/-- What the statement of a request introduces is issued, one alias after another. -/
theorem issued_of_apply {s : Schema} {options : Options} {names : Nat → String}
    {collection : String} {r : Request} {applied : Applied} {k : Nat}
    (h : ((s.context options names).apply collection (Compiler.target collection r) r false).Gives 0
      applied k) :
    ∃ (hops : Hops) (i : Introductions (s.context options names) collection
        ((Compiler.target collection r).items.map Item.expr)
        ((s.context options names).walkedPaths collection r) r { query := applied.query, hops }),
      Issued names 0 i.aliases k ∧ ∀ name, name ∈ applied.query.introduced ↔ name ∈ i.aliases := by
  have hstatement : IsStatement collection applied.query := Context.isStatement_of_apply
    (fun info hinfo => s.name_of_collection hinfo) (Compiler.isStatement_target collection r) h
  have htarget : (Compiler.target collection r).groups = [] ∧
      (Compiler.target collection r).orders = [] ∧
      ((Compiler.target collection r).items.map Item.expr).flatMap Expr.introduced = [] := by
    unfold Compiler.target
    dsimp only
    split
    · exact ⟨rfl, rfl, rfl⟩
    · exact ⟨rfl, rfl, by simp [Query.selectAllOf]⟩
  obtain ⟨hgroups, horders, hbase⟩ := htarget
  obtain ⟨hops, i, hissued⟩ := introduces_of_apply (fun info hinfo => s.name_of_collection hinfo)
    (Compiler.target_joins collection r) (Compiler.target_condition collection r) hgroups horders h
  exact ⟨hops, i, hissued, i.mem_iff hstatement hbase⟩

/-- What a compiled statement introduces is issued, one alias after another. -/
theorem issued_of_compile {s : Schema} {options : Options} {letters : Alias.Letters}
    {collection : String} {r : Request} {q : Query}
    (h : (s.compiler options letters).compile collection r = .ok q) :
    ∃ (hops : Hops) (i : Introductions (s.context options (s.compiler options letters).names)
        collection ((Compiler.target collection r).items.map Item.expr)
        ((s.context options (s.compiler options letters).names).walkedPaths collection r) r
        { query := q, hops }) (k : Nat),
      Issued (s.compiler options letters).names 0 i.aliases k ∧
        ∀ name, name ∈ q.introduced ↔ name ∈ i.aliases := by
  obtain ⟨applied, happlied, rfl⟩ := Compiler.compile_eq_ok h
  obtain ⟨relations, k, hrelations, happly⟩ := Compiler.apply_eq_ok happlied
  obtain rfl : s.relations = relations := Except.ok.inj hrelations
  obtain ⟨hops, i, hissued, haliases⟩ := issued_of_apply happly
  exact ⟨hops, i, k, hissued, haliases⟩

theorem exists_of_mem_introduced {s : Schema} {options : Options} {letters : Alias.Letters}
    {collection name : String} {r : Request} {q : Query}
    (h : (s.compiler options letters).compile collection r = .ok q) (hname : name ∈ q.introduced) :
    ∃ j, name = (s.compiler options letters).names j := by
  obtain ⟨hops, i, k, ⟨-, numbers, hperm, -⟩, haliases⟩ := issued_of_compile h
  obtain ⟨j, -, rfl⟩ := List.mem_map.mp (hperm.mem_iff.mp ((haliases name).mp hname))
  exact ⟨j, rfl⟩

/-- In a compiled statement the joins of every `SELECT` match the prefixes that are joined there one
to one, and no two joins or resolved columns introduce the same alias. -/
theorem introductions_of_compile {s : Schema} {options : Options} {letters : Alias.Letters}
    {collection : String} {r : Request} {q : Query}
    (h : (s.compiler options letters).compile collection r = .ok q) :
    ∃ (hops : Hops) (i : Introductions (s.context options (s.compiler options letters).names)
        collection ((Compiler.target collection r).items.map Item.expr)
        ((s.context options (s.compiler options letters).names).walkedPaths collection r) r
        { query := q, hops }),
      i.aliases.Nodup ∧ ∀ name, name ∈ q.introduced ↔ name ∈ i.aliases := by
  obtain ⟨hops, i, k, hissued, haliases⟩ := issued_of_compile h
  exact ⟨hops, i, hissued.nodup (Alias.names_injective _ _ _), haliases⟩

theorem introductions_of_compile_blog :
    ∃ (q : Query) (hops : Hops) (i : Introductions
        (Schema.blog.context {} (Schema.blog.compiler {} fun _ => 0).names) "articles"
        ((Compiler.target "articles" Request.blog).items.map Item.expr)
        ((Schema.blog.context {} (Schema.blog.compiler {} fun _ => 0).names).walkedPaths
          "articles" Request.blog) Request.blog { query := q, hops }),
      (Schema.blog.compiler {} fun _ => 0).compile "articles" Request.blog = .ok q ∧
        i.aliases.Nodup ∧ ∀ name, name ∈ q.introduced ↔ name ∈ i.aliases := by
  obtain ⟨q, hq⟩ : ∃ q, (Schema.blog.compiler {} fun _ => 0).compile "articles" Request.blog =
      .ok q := Compiler.exists_compile (by decide +kernel)
  obtain ⟨hops, i, hdistinct, haliases⟩ := introductions_of_compile hq
  exact ⟨q, hops, i, hq, hdistinct, haliases⟩

end JsonSql
