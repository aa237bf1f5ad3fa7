import JsonSql.Proofs.Alongside
import JsonSql.Proofs.RespelledRequests
import JsonSql.Proofs.Settled

set_option autoImplicit false

/-!
# Requests without their orderings

An ordering orders, and does nothing else: without its orderings a request compiles to the same
statement but for the aliases, the joins that only the orderings need, and counts of whole rows,
which need not tell keys apart where nothing is joined (`compile_unsorted`).  There is one way in
which an ordering reaches further.  The join of the blank path is recorded under the key that stands
for no path at all, and a filter at the root may find it there.
-/

namespace JsonSql

open JsonSql.Sql
open Compile (Trails trails_pure trails_throw trails_foldlM trails_mapM)

/-! ## The same statement with an ordering -/

/-- An item is the same in two statements, or counts whole rows: plainly in the first one, and by
their different keys in the second one. -/
def Sql.Item.CountsAlike (key : Expr) (item item' : Item) : Prop :=
  item' = item ∨ item = ⟨.countRows, some (Aggregation.count.resultName "*")⟩ ∧
    item' = ⟨.countDistinct key, some (Aggregation.count.resultName "*")⟩

/-- A statement without an ordering, and the same statement with one: apart from that the second one
has more joins at most, and counts whole rows by their key. -/
structure Sql.Query.OrderedAs (key : Expr) (q q' : Query) : Prop where
  items : List.Forall₂ (Item.CountsAlike key) q.items q'.items
  source : q.source = q'.source
  joins : q.joins.Subperm q'.joins
  condition : q.condition = q'.condition
  groups : q.groups = q'.groups
  orders : q.orders = []
  window : q.window = q'.window

namespace Scope.Follows

variable {c : Context} {collection : String} {earlier paths : List (List String)}
  {scope scope' : Scope} {k : Nat} {aliases : List String}

/-- The second statement has no join twice, so its joins are so many of those of the first one. -/
theorem subperm (h : scope.Follows c collection earlier paths k scope' aliases) :
    scope'.query.joins.Subperm scope.query.joins := by
  have hnames := h.along'.nodup_joinNames fun path path' hop hop' hfound hfound' =>
    h.recorded.distinct path path' hop hop' (h.kept _ _ hfound) (h.kept _ _ hfound')
  exact (List.Nodup.of_map _ hnames).subperm h.joins

/-- With items that count alike, the statements are the same but for the ordering. -/
theorem orderedAs (h : scope.Follows c collection earlier paths k scope' aliases) {key : Expr}
    {items items' : List Item} (hitems : List.Forall₂ (Item.CountsAlike key) items' items) :
    (items'.foldl Query.addItem scope'.query).OrderedAs key
      (items.foldl Query.addItem scope.query) := by
  have hsame : List.Forall₂ (Item.CountsAlike key) scope.query.items scope.query.items :=
    List.forall₂_same.mpr fun item _ => .inl rfl
  have hsubperm := h.subperm
  rw [h.query] at hsubperm ⊢
  rw [Context.foldl_addItem, Context.foldl_addItem]
  exact ⟨List.rel_append hsame hitems, rfl, hsubperm, rfl, rfl, rfl, rfl⟩

end Scope.Follows

namespace Context

variable {s : Schema} {options : Options} {names : Nat → String} {info : CollectionInfo}
  {earlier paths : List (List String)} {scope scope' : Scope} {k : Nat} {aliases : List String}

/-- Whole rows are counted by their key wherever there are joins; all else is aggregated alike. -/
theorem trails_aggregateExpr (hinjective : Function.Injective names) {aggregation : Aggregation}
    {field : String} (hmem : fieldPath field ∈ paths)
    (h : scope.Follows (s.context options names) info.name earlier paths k scope' aliases) :
    Trails k aliases
      ((s.context options names).aggregateExpr info scope aggregation field)
      (fun names' => (s.context options names').aggregateExpr info scope' aggregation field)
      fun e k' e' after => scope.Follows (s.context options names) info.name earlier paths k' scope'
          after ∧
        Item.CountsAlike (.of info.name info.primary)
          ⟨e', some (aggregation.resultName field)⟩ ⟨e, some (aggregation.resultName field)⟩ := by
  unfold aggregateExpr
  by_cases hrows : field = "*"
  · simp only [if_pos hrows]
    subst hrows
    by_cases hcount : aggregation = .count
    · simp only [if_pos hcount]
      subst hcount
      refine trails_pure ⟨h, ?_⟩
      cases hjoins' : scope'.query.hasJoins with
      | true =>
        -- what the second one has joined the first one has joined too
        have hjoins : scope.query.hasJoins = true := by
          obtain ⟨join, hjoin⟩ := List.exists_mem_of_ne_nil scope'.query.joins
            fun hnil => by simp [Query.hasJoins, hnil] at hjoins'
          have hmem := h.joins hjoin
          cases hnil : scope.query.joins with
          | nil =>
            rw [hnil] at hmem
            cases hmem
          | cons first rest => simp [Query.hasJoins, hnil]
        rw [hjoins]
        exact .inl rfl
      | false =>
        cases scope.query.hasJoins with
        | true => exact .inr ⟨rfl, rfl⟩
        | false => exact .inl rfl
    · simp only [if_neg hcount]
      exact trails_throw
  · simp only [if_neg hrows]
    exact (trails_column hinjective hmem (isPath_fieldPath field) h).bind
      fun column k' column' after hboth =>
        trails_pure ⟨hboth.1, .inl (by rw [hboth.2])⟩

theorem trails_aggregateItems (hinjective : Function.Injective names)
    {entry : Aggregation × List String} (hmem : ∀ field ∈ entry.2, fieldPath field ∈ paths)
    (h : scope.Follows (s.context options names) info.name earlier paths k scope' aliases) :
    Trails k aliases
      ((s.context options names).aggregateItems info scope entry)
      (fun names' => (s.context options names').aggregateItems info scope' entry)
      fun items k' items' after => scope.Follows (s.context options names) info.name earlier paths
          k' scope' after ∧
        List.Forall₂ (Item.CountsAlike (.of info.name info.primary)) items' items := by
  unfold aggregateItems
  dsimp only
  split
  · exact trails_pure ⟨h, .cons (.inl rfl) .nil⟩
  · refine Trails.mono (trails_mapM (R := fun item item' =>
      Item.CountsAlike (.of info.name info.primary) item' item) (fun field hfield k before hfollows =>
        ?_) h) fun items k' items' after hboth => ⟨hboth.1, hboth.2.flip⟩
    exact (trails_aggregateExpr hinjective (hmem field hfield) hfollows).bind
      fun e k' e' after hboth => trails_pure hboth

/-- After the aggregations the statements are the same but for the ordering. -/
theorem trails_aggregateStage {r : Request} (hinjective : Function.Injective names)
    (h : scope.Follows (s.context options names) info.name earlier paths k scope' aliases) :
    Trails k aliases
      ((s.context options names).aggregateStage info r scope)
      (fun names' => (s.context options names').aggregateStage info r scope')
      fun found _ found' after => after.Nodup ∧
        found'.query.OrderedAs (.of info.name info.primary) found.query := by
  unfold aggregateStage
  by_cases hempty : r.aggregate.isEmpty
  · simp only [if_pos hempty]
    exact trails_pure ⟨h.nodup, h.orderedAs .nil⟩
  · simp only [if_neg hempty]
    unfold addAggregate joinAggregate
    refine (trails_foldlM (P := fun done joined k' joined' after => joined.Follows
      (s.context options names) info.name earlier (paths ++ done.map fieldPath) k' joined' after)
      (fun done field joined k' joined' after hjoined => ?_)
      (by rwa [List.map_nil, List.append_nil])).bind fun joined k' joined' after hjoined => ?_
    · rw [List.map_append, List.map_singleton, ← List.append_assoc]
      exact (trails_joinPath hinjective (isPath_fieldPath field) hjoined).map
        fun found k' found' after hfound => hfound
    · refine (trails_mapM (R := fun items items' =>
        List.Forall₂ (Item.CountsAlike (.of info.name info.primary)) items' items)
        (fun entry hentry k before hfollows => trails_aggregateItems hinjective
          (fun field hfield => List.mem_append_right _ (List.mem_map_of_mem
            (List.mem_flatMap.mpr ⟨entry, hentry, hfield⟩))) hfollows) hjoined).bind
        fun items k' items' after hboth => ?_
      exact trails_pure ⟨hboth.1.nodup, hboth.1.orderedAs (List.rel_flatten hboth.2.flip)⟩

/-! ## Requests -/

/-- The orderings of a request touch the joins and the orderings of a statement only. -/
theorem query_of_orderStage {c : Context} {collection : String} {q : Query} {r : Request} {k' : Nat}
    (h : (c.orderStage collection false r q).Gives k scope k') :
    scope.query = { Query.narrow q (c.options.window r) with
      joins := scope.query.joins
      orders := scope.query.orders } := by
  rw [orderStage, if_neg Bool.false_ne_true] at h
  refine Compile.foldlM_keeps (P := fun sorted _ => sorted.query =
    { Query.narrow q (c.options.window r) with
      joins := sorted.query.joins
      orders := sorted.query.orders }) (fun {sorted k entry next k'} hsorted hstep => ?_)
    (by cases hnarrow : Query.narrow q (c.options.window r); rfl) h
  simp only [sortBy, joinedColumn, Compile.gives_bind, Compile.gives_pure] at hstep
  obtain ⟨⟨direction, key⟩, k₁, -, ⟨joined, column⟩, k₂, ⟨⟨joined', several⟩, k₃, hjoin, column', k₄,
    -, hresult, -⟩, rfl, -⟩ := hstep
  obtain ⟨rfl, rfl⟩ := Prod.mk.inj hresult
  have hrest := sameButJoins_of_joinPath hjoin (sameButJoins_refl sorted.query)
  rw [sameButJoins] at hrest
  rw [hrest, hsorted]
  rfl

/-- A statement that was narrowed only goes alongside the same one with its orderings. -/
theorem follows_orderStage {collection : String} {q : Query} {r : Request} {k' : Nat}
    (hinjective : Function.Injective names) (hjoins : q.joins = []) (horders : q.orders = [])
    (h : ((s.context options names).orderStage collection false r q).Gives 0 scope k') :
    scope.Follows (s.context options names) collection (r.sort.map sortPath) [] k'
      { query := Query.narrow q (options.window r) } [] := by
  obtain ⟨window, hnarrow⟩ := Query.narrow_eq q (options.window r)
  have hnone : (Query.narrow q (options.window r)).joins = [] := by
    rw [hnarrow]
    exact hjoins
  have hpaths : ∀ path ∈ r.sort.map sortPath, IsPath path := by
    intro path hmem
    obtain ⟨entry, -, rfl⟩ := List.mem_map.mp hmem
    exact isPath_fieldPath _
  have halong := joinsAlong_orderStage hjoins h
  rw [if_neg Bool.false_ne_true] at halong
  have hquery := query_of_orderStage h
  refine ⟨⟨(Scope.Recorded.ofNil hjoins).prepares hinjective hpaths (Prepares.of_orderStage h),
    ⟨_, halong⟩, fun _ _ hfound => (by cases hfound), ?_, ?_, List.nodup_nil,
    fun _ hname => (by cases hname), fun _ _ _ _ hname => (by cases hname)⟩, ?_,
    joinsAlong_nil hnone⟩
  · have hwindow : (s.context options names).options = options := rfl
    rw [hquery, hwindow, hnarrow, ← horders]
  · dsimp only
    rw [hnone]
    exact List.nil_subset _
  · rwa [List.append_nil]

/-- A request gives its statement without its orderings too, and issues some of the aliases again
that it issues with them. -/
theorem trails_apply {collection : String} {q : Query} {r : Request}
    (hinjective : Function.Injective names) (hjoins : q.joins = []) (horders : q.orders = [])
    (hblank : (s.context options names).JoinsPrefix false collection (r.sort.map sortPath) [""] →
      (s.context options names).JoinsPrefix false collection
        (r.group.map fieldPath ++ (s.context options names).requestPaths collection r) [""]) :
    Trails 0 []
      ((s.context options names).apply collection q r false)
      (fun names' => (s.context options names').apply collection q { r with sort := [] } false)
      fun applied _ applied' after => after.Nodup ∧
        ∃ declared, s.collection? collection = some declared ∧
          applied'.query.OrderedAs (.of collection declared.info.primary) applied.query := by
  simp only [apply_eq]
  refine Trails.ahead fun info k₁ hinfo => ?_
  obtain ⟨hfound, rfl⟩ := collection_gives.mp hinfo
  obtain ⟨declared, hdeclared, rfl⟩ := Option.map_eq_some_iff.mp (Except.ok.inj hfound)
  have hname := s.name_of_collection hfound
  refine Trails.still (c := declared.info) (fun names' => collection_gives.mpr ⟨hfound, rfl⟩) ?_
  refine Trails.ahead fun ordered k₂ horder => ?_
  refine Trails.still (c := { query := Query.narrow q (options.window r) }) (fun names' => ?_) ?_
  · rw [orderStage, if_neg Bool.false_ne_true]
    exact Compile.gives_pure.mpr ⟨rfl, rfl⟩
  refine (trails_searchStage hinjective (follows_orderStage hinjective hjoins horders horder)).bind
    fun searched k₃ searched' after hsearched => ?_
  refine (trails_foldlM (P := fun done grouped k' grouped' after => grouped.Follows
    (s.context options names) collection (r.sort.map sortPath) (done.map fieldPath) k' grouped'
    after) (fun done key grouped k' grouped' after hgrouped => ?_) hsearched).bind
    fun grouped k₄ grouped' after hgrouped => ?_
  · rw [List.map_append, List.map_singleton]
    exact trails_groupBy hinjective key hgrouped
  refine (trails_filterStage hinjective hblank hgrouped).bind
    fun found k₅ found' after hrestricted => ?_
  obtain ⟨restricted, repeats⟩ := found
  obtain ⟨restricted', repeats'⟩ := found'
  dsimp only at hrestricted ⊢
  subst hname
  exact (trails_aggregateStage hinjective hrestricted).bind
    fun found k₆ found' after hboth =>
      trails_pure ⟨hboth.1, declared, hdeclared, hboth.2⟩

end Context

/-! ## Spellings -/

/-- Labels that tell the aliases of a statement apart, and leave the names of collections as they
are. -/
structure Schema.Spells (s : Schema) (plain : Query) (labels : String → String) : Prop where
  apart : Set.InjOn labels {name | name ∈ plain.introduced}
  fixed : ∀ collection info, s.provider.collection collection = .ok (some info) →
    labels collection = collection

/-- Statements that are the same up to a renaming of their aliases: spellings of one statement, in
which no alias is the name of a collection. -/
def Schema.SameButAliases (s : Schema) (q q' : Query) : Prop :=
  ∃ plain labels labels', (∀ name ∈ plain.introduced, s.collection? name = none) ∧
    s.Spells plain labels ∧ s.Spells plain labels' ∧
    q = plain.relabelled labels ∧ q' = plain.relabelled labels'

section

variable {s : Schema} {options : Options} {collection : String}

/-- What a request gives with other aliases is the same up to a renaming of them, if those that it
takes are told apart. -/
theorem sameButAliases_of_apply {names names' : Nat → String} {r : Request}
    {applied : Applied} {k : Nat} (hapart : ∀ i < k, ∀ j < k, names i = names j → i = j)
    (hapart' : Function.Injective names')
    (h : ((s.context options names).apply collection (Compiler.target collection r) r false).Gives 0
      applied k) :
    ∃ applied', ((s.context options names').apply collection (Compiler.target collection r) r
        false).Gives 0 applied' k ∧ s.SameButAliases applied'.query applied.query := by
  obtain ⟨fresh, plain, hinjective, havoids, hplain, hsame, hspelled⟩ := exists_apply_fresh h
  obtain ⟨applied', happlied', hsame'⟩ := hspelled names'
  obtain ⟨hops, i, ⟨-, numbers, hperm, -, hnumbers⟩, haliases⟩ := issued_of_apply hplain
  have hissued : ∀ name ∈ plain.query.introduced, ∃ j < k, name = fresh j := by
    intro name hname
    obtain ⟨j, hj, rfl⟩ := List.mem_map.mp (hperm.mem_iff.mp ((haliases name).mp hname))
    exact ⟨j, (hnumbers j hj).2, rfl⟩
  have hspells {names : Nat → String} (hapart : ∀ i < k, ∀ j < k, names i = names j → i = j) :
      s.Spells plain.query (Alias.respelling fresh names) := by
    have hrespells := respells_respelling hinjective havoids names
    refine ⟨fun name hname other hother hlabels => ?_, hrespells.fixed⟩
    obtain ⟨i, hi, rfl⟩ := hissued name hname
    obtain ⟨j, hj, rfl⟩ := hissued other hother
    rw [← hrespells.issued, ← hrespells.issued] at hlabels
    rw [hapart i hi j hj hlabels]
  refine ⟨applied', happlied', plain.query, _, _, fun name hname => ?_,
    hspells fun i _ j _ hsame => hapart' hsame, hspells hapart, hsame', hsame⟩
  obtain ⟨j, -, rfl⟩ := hissued name hname
  exact havoids (j + 1) j (Nat.lt_succ_self j)

/-- An ordering orders.  In a compiled statement there is an ordering for each sort entry of the
request, in their order: descending with a minus in front, and else ascending, on the expression that
the path of the entry is resolved to, on joins that match the prefixes of the paths of the request.
Without its sort entries the request compiles too, whatever the aliases are, to the same statement up
to a renaming of aliases but for the ordering, joins that only the ordering needs, and counts of whole
rows, which may be plain: in any case where the ordering does not join the blank path, or the groups
or the filter join it too. -/
theorem compile_unsorted {letters letters' : Alias.Letters} {r : Request} {q : Query}
    (h : (s.compiler options letters).compile collection r = .ok q) :
    let c := s.context options (s.compiler options letters).names
    (∃ hops, c.JoinsAlong false collection (c.walkedPaths collection r) ⟨q, hops⟩ ∧
      List.Forall₂ (fun entry o => o.direction = sortDirection entry ∧
        c.ReadsAs hops collection (sortPath entry) o.expr) r.sort q.orders) ∧
    ((c.JoinsPrefix false collection (r.sort.map sortPath) [""] →
        c.JoinsPrefix false collection (r.group.map fieldPath ++ c.requestPaths collection r) [""]) →
      ∃ q' unordered declared,
        (s.compiler options letters').compile collection { r with sort := [] } = .ok q' ∧
        s.SameButAliases q' unordered ∧ s.collection? collection = some declared ∧
        unordered.OrderedAs (.of collection declared.info.primary) q) := by
  intro c
  obtain ⟨hops, hreads⟩ := Scope.Reads.of_compile h
  refine ⟨⟨hops, hreads.joins, hreads.reads.orders.imp fun _ _ ho => ⟨ho.1, ho.2.2⟩⟩,
    fun hblank => ?_⟩
  have hinjective (letters : Alias.Letters) :
      Function.Injective (s.compiler options letters).names := Alias.names_injective _ _ letters
  obtain ⟨applied, happlied, rfl⟩ := Compiler.compile_eq_ok h
  obtain ⟨relations, k, hrelations, happly⟩ := Compiler.apply_eq_ok happlied
  obtain rfl : s.relations = relations := Except.ok.inj hrelations
  have horders : (Compiler.target collection r).orders = [] := by
    unfold Compiler.target
    dsimp only
    split <;> rfl
  -- without its orderings, under the aliases that it takes with them
  obtain ⟨unordered, aliases, ⟨hnodup, declared, hdeclared, hordered⟩, hunordered⟩ :=
    Context.trails_apply (hinjective letters) (Compiler.target_joins collection r) horders hblank
      applied k happly
  obtain ⟨names, hnames⟩ := Alias.exists_begins aliases
  have hapart : ∀ i < aliases.length, ∀ j < aliases.length, names i = names j → i = j := by
    intro i hi j hj hsame
    rw [hnames i aliases[i] (List.getElem?_eq_getElem hi),
      hnames j aliases[j] (List.getElem?_eq_getElem hj)] at hsame
    exact (List.Nodup.getElem_inj_iff hnodup).mp hsame
  -- and then under any others
  obtain ⟨applied', happlied', hsame⟩ := sameButAliases_of_apply (r := { r with sort := [] }) hapart
    (hinjective letters') (hunordered names hnames)
  exact ⟨applied'.query, unordered.query, declared,
    Compiler.compile_of_gives rfl happlied', hsame, hdeclared, hordered⟩

end

/-- The number of articles with a comment by Ann, by the names of their authors backwards. -/
def Request.sorted : Request where
  filter := some (.of (.field "comments" (.quantified .some .byAnn)))
  sort := ["-author.name", "title"]
  aggregate := [(.count, ["*"])]

/-- Without the ordering the authors are not joined, and the articles need not be told apart. -/
theorem compile_unsorted_blog :
    ∃ q q' unordered, (Schema.blog.compiler {} fun _ => 0).compile "articles" .sorted = .ok q ∧
      q.joins.length = 1 ∧ q.orders.map OrderItem.direction = [.desc, .asc] ∧
      (Schema.blog.compiler {} fun _ => 0).compile "articles" { Request.sorted with sort := [] } =
        .ok q' ∧ q'.joins.length = 0 ∧
      Schema.blog.SameButAliases q' unordered ∧ unordered.OrderedAs (.of "articles" "id") q := by
  obtain ⟨q, hq, hcounts⟩ : ∃ q, (Schema.blog.compiler {} fun _ => 0).compile "articles" .sorted =
      .ok q ∧ (q.joins.length, q.orders.map OrderItem.direction) = (1, [.desc, .asc]) :=
    Compiler.exists_compile_with (by decide +kernel)
  obtain ⟨hjoins, hdirections⟩ := Prod.mk.inj hcounts
  obtain ⟨-, hunsorted⟩ := @compile_unsorted Schema.blog {} "articles" (fun _ => 0) (fun _ => 0) _ q
    hq
  obtain ⟨q', unordered, declared, hq', hsame, hdeclared, hordered⟩ := hunsorted fun hblank => by
    obtain ⟨path, hmem, hprefix, -⟩ := hblank
    have hnone : ∀ path ∈ Request.sorted.sort.map sortPath, ¬[""] <+: path.dropLast := by
      decide +kernel
    exact absurd hprefix (hnone path hmem)
  obtain ⟨plain, hplain, hnone⟩ : ∃ q, (Schema.blog.compiler {} fun _ => 0).compile "articles"
      { Request.sorted with sort := [] } = .ok q ∧ q.joins.length = 0 :=
    Compiler.exists_compile_with (by decide +kernel)
  obtain rfl := Except.ok.inj (hplain.symm.trans hq')
  have hkey : (Schema.blog.collection? "articles").map (fun c => c.info.primary) = some "id" := by
    decide +kernel
  rw [hdeclared, Option.map_some, Option.some_inj] at hkey
  rw [hkey] at hordered
  exact ⟨q, plain, unordered, hq, hjoins, hdirections, hq', hnone, hsame, hordered⟩

/-- Articles with some tag of a name, by the keys of the notes on them. -/
def Request.nameless : Request where
  filter := some (.of (.field "tags" (.quantified .some
    (.of (.field "name" (.compare [⟨.equal false false, some (.string "x")⟩]))))))
  sort := [".id"]
  limit := some (-1)

/-- The ordering joins the notes under the blank path, and the filter takes them for the root: it is
asked of their tags.  Without the ordering there is nothing to ask for tags. -/
theorem refused_unsorted_nameless :
    Schema.nameless.validate.isOk = true ∧
    ((Schema.nameless.compiler {} fun _ => 0).compile "articles" .nameless).isOk = true ∧
    ((Schema.nameless.compiler {} fun _ => 0).compile "articles"
      { Request.nameless with sort := [] }).isOk = false :=
  ⟨by decide +kernel, by decide +kernel, by decide +kernel⟩

end JsonSql
