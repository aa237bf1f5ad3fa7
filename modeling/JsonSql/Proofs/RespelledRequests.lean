import JsonSql.Proofs.Joinable
import JsonSql.Proofs.RespelledFilters

set_option autoImplicit false

/-!
# Filters that follow a declared key back: requests

A request gives the same statement whether its filter names a field that is declared for the rows of
a key or follows the key back, if its other parts take no such hop.
-/

namespace JsonSql

open JsonSql.Sql
open Compile (Corresponds corresponds_pure corresponds_refl corresponds_foldlM corresponds_mapM)

namespace Context

variable {c : Context} {t : Respelling} {collection : String} {inner : Bool} {hops hops' : Hops}

/-! ## Orderings, groups and aggregations -/

/-- A path that takes no hop that is respelled. -/
structure Spares (c : Context) (t : Respelling) (collection : String) (path : List String) :
    Prop where
  allowed : ∀ s ∈ path.dropLast, t.Allows c s
  same : c.spelledPath t collection path.dropLast = path.dropLast

theorem Spares.isSpelled {path : List String} (h : c.Spares t collection path) (hne : path ≠ []) :
    c.IsSpelled t collection path path := by
  obtain rfl | ⟨before, last, rfl⟩ := path.eq_nil_or_concat
  · exact absurd rfl hne
  · obtain ⟨hallowed, hsame⟩ := h
    rw [List.concat_eq_append] at hallowed hsame ⊢
    rw [List.dropLast_concat] at hallowed hsame
    have hself : c.IsSpelled t collection (before ++ [last])
        (c.spelledPath t collection before ++ [last]) := .mk last last hallowed
    rwa [hsame] at hself

theorem fieldPath_ne_nil (key : String) : fieldPath key ≠ [] :=
  mt List.map_eq_nil_iff.mp (Text.split_ne_nil '.' key)

theorem corresponds_sparedColumn {key : String} (hhops : hops.Spelled c t collection hops')
    (hspares : c.Spares t collection (fieldPath key)) :
    Corresponds (fun column column' => column' = { column with path := column'.path })
      (c.column hops collection (fieldPath key)) (c.column hops' collection (fieldPath key)) := by
  have hcolumn := corresponds_column hhops hspares.allowed
    ((fieldPath key).getLast (fieldPath_ne_nil key))
  rwa [hspares.same, List.dropLast_append_getLast] at hcolumn

theorem corresponds_joinedColumn (ht : t.IsSound c) {key : String} {scope scope' : Scope}
    (hscope : scope.Spelled c t collection scope')
    (hspares : c.Spares t collection (fieldPath key)) :
    Corresponds (fun found found' => found.1.Spelled c t collection found'.1 ∧
        found'.2.expr = found.2.expr)
      (c.joinedColumn collection scope key) (c.joinedColumn collection scope' key) := by
  unfold joinedColumn
  refine (corresponds_joinPath ht (hspares.isSpelled (fieldPath_ne_nil key)) hscope).bind ?_
  rintro ⟨joined, several⟩ ⟨joined', _⟩ ⟨hjoined, rfl⟩
  exact (corresponds_sparedColumn hjoined.hops hspares).bind fun column column' hcolumn =>
    corresponds_pure ⟨hjoined, by rw [hcolumn]⟩

theorem corresponds_sortBy (ht : t.IsSound c) {entry : String} {scope scope' : Scope}
    (hscope : scope.Spelled c t collection scope')
    (hspares : c.Spares t collection (sortPath entry)) :
    Corresponds (Scope.Spelled c t collection)
      (c.sortBy collection scope entry) (c.sortBy collection scope' entry) := by
  unfold sortBy
  refine (corresponds_refl _).gives.bind ?_
  rintro ⟨direction, key⟩ _ ⟨rfl, k, k', hkey⟩
  rw [← fieldPath_of_sortKey (Compile.gives_lift.mp hkey).1] at hspares
  refine (corresponds_joinedColumn ht hscope hspares).bind fun found found' ⟨hfound, hexpr⟩ => ?_
  exact corresponds_pure ⟨by rw [hfound.query, hexpr], hfound.hops⟩

theorem corresponds_groupBy (ht : t.IsSound c) {key : String} {scope scope' : Scope}
    (hscope : scope.Spelled c t collection scope')
    (hspares : c.Spares t collection (fieldPath key)) :
    Corresponds (Scope.Spelled c t collection)
      (c.groupBy collection scope key) (c.groupBy collection scope' key) := by
  unfold groupBy
  refine (corresponds_joinedColumn ht hscope hspares).bind fun found found' ⟨hfound, hexpr⟩ => ?_
  exact corresponds_pure ⟨by rw [hfound.query, hexpr], hfound.hops⟩

theorem corresponds_aggregateExpr {info : CollectionInfo} {aggregation : Aggregation}
    {field : String} {scope scope' : Scope} (hscope : scope.Spelled c t info.name scope')
    (hspares : c.Spares t info.name (fieldPath field)) :
    Corresponds Eq (c.aggregateExpr info scope aggregation field)
      (c.aggregateExpr info scope' aggregation field) := by
  unfold aggregateExpr
  rw [hscope.query]
  split
  · exact corresponds_refl _
  · exact (corresponds_sparedColumn hscope.hops hspares).bind fun column column' hcolumn =>
      corresponds_pure (by rw [hcolumn])

theorem corresponds_addAggregate (ht : t.IsSound c) {info : CollectionInfo}
    {aggregate : List (Aggregation × List String)} {scope scope' : Scope}
    (hscope : scope.Spelled c t info.name scope')
    (hspares : ∀ field ∈ aggregate.flatMap Prod.snd, c.Spares t info.name (fieldPath field)) :
    Corresponds (fun found found' => found'.query = found.query)
      (c.addAggregate info scope aggregate) (c.addAggregate info scope' aggregate) := by
  unfold addAggregate joinAggregate
  refine (corresponds_foldlM (T := Scope.Spelled c t info.name)
    (fun field hfield before before' hbefore => ?_) hscope).bind fun joined joined' hjoined => ?_
  · exact (corresponds_joinPath ht ((hspares field hfield).isSpelled (fieldPath_ne_nil field))
      hbefore).map fun _ _ hnext => hnext.1
  · refine (corresponds_mapM fun entry hentry => ?_).bind fun items _ hitems => ?_
    · unfold aggregateItems
      dsimp only
      split
      · exact corresponds_refl _
      · refine corresponds_mapM fun field hfield => ?_
        exact (corresponds_aggregateExpr hjoined
          (hspares field (List.mem_flatMap.mpr ⟨entry, hentry, hfield⟩))).bind fun e _ he =>
            he ▸ corresponds_pure rfl
    · subst hitems
      exact corresponds_pure (by rw [hjoined.query])

/-! ## Requests

A request with one filter and with another one, stage by stage. -/

section

variable {r : Request} {f' : Filter} {scope scope' : Scope}

theorem corresponds_orderStage (ht : t.IsSound c) (q : Query)
    (hspares : ∀ entry ∈ r.sort, c.Spares t collection (sortPath entry)) :
    Corresponds (Scope.Spelled c t collection)
      (c.orderStage collection inner r q)
      (c.orderStage collection inner { r with filter := some f' } q) := by
  have hwindow : c.options.window { r with filter := some f' } = c.options.window r := rfl
  unfold orderStage
  rw [hwindow]
  split
  · exact corresponds_pure ⟨rfl, .empty⟩
  · refine corresponds_foldlM (T := Scope.Spelled c t collection)
      (fun entry hentry before before' hbefore => ?_) ⟨rfl, .empty⟩
    exact corresponds_sortBy ht hbefore (hspares entry hentry)

theorem corresponds_searchStage (hscope : scope.Spelled c t collection scope') :
    Corresponds (Scope.Spelled c t collection)
      (c.searchStage collection r scope)
      (c.searchStage collection { r with filter := some f' } scope') := by
  unfold searchStage
  dsimp only
  split
  · exact corresponds_pure hscope
  · rw [hscope.query]
    exact (corresponds_refl _).map fun q _ hq => ⟨hq.symm, hscope.hops⟩

theorem corresponds_groupStage (ht : t.IsSound c) (hscope : scope.Spelled c t collection scope')
    (hspares : ∀ key ∈ r.group, c.Spares t collection (fieldPath key)) :
    Corresponds (Scope.Spelled c t collection) (r.group.foldlM (c.groupBy collection) scope)
      (r.group.foldlM (c.groupBy collection) scope') := by
  refine corresponds_foldlM (T := Scope.Spelled c t collection)
    (fun key hkey before before' hbefore => ?_) hscope
  exact corresponds_groupBy ht hbefore (hspares key hkey)

theorem corresponds_aggregateStage (ht : t.IsSound c) {info : CollectionInfo}
    (hscope : scope.Spelled c t info.name scope')
    (hspares : ∀ field ∈ r.aggregate.flatMap Prod.snd, c.Spares t info.name (fieldPath field)) :
    Corresponds (fun found found' => found'.query = found.query)
      (c.aggregateStage info r scope)
      (c.aggregateStage info { r with filter := some f' } scope') := by
  unfold aggregateStage
  dsimp only
  split
  · exact corresponds_pure hscope.query
  · exact corresponds_addAggregate ht hscope hspares

/-- A request whose filter is respelled gives the same, if its other parts take no hop that is
respelled. -/
theorem corresponds_apply (ht : t.IsSound c) (q : Query) {f : Filter}
    (hnamed : ∀ info, c.provider.collection collection = .ok (some info) → info.name = collection)
    (hfilter : r.filter = some f) (hallowed : ∀ s ∈ r.segments, t.Allows c s)
    (hothers : ∀ path ∈ r.fieldPaths, c.spelledPath t collection path.dropLast = path.dropLast)
    (hspelled : f'.unfolded = c.respell t collection [] f.unfolded) :
    Corresponds Eq (c.apply collection q r inner)
      (c.apply collection q { r with filter := some f' } inner) := by
  have hspares : ∀ path ∈ r.fieldPaths, c.Spares t collection path := fun path hpath =>
    ⟨fun s hs => hallowed s (List.mem_append_left _
      (List.mem_flatten.mpr ⟨path, hpath, List.dropLast_subset _ hs⟩)), hothers path hpath⟩
  simp only [Request.fieldPaths, List.forall_mem_append, List.forall_mem_map] at hspares
  obtain ⟨⟨hsort, hgroup⟩, haggregate⟩ := hspares
  rw [apply_eq, apply_eq]
  refine (corresponds_refl _).gives.bind ?_
  rintro info _ ⟨rfl, k, k', hinfo⟩
  obtain rfl := hnamed info (collection_gives.mp hinfo).1
  refine (corresponds_orderStage ht q hsort).bind fun ordered ordered' hordered => ?_
  refine (corresponds_searchStage hordered).bind fun sought sought' hsought => ?_
  refine (corresponds_groupStage ht hsought hgroup).bind fun grouped grouped' hgrouped => ?_
  rw [filterStage, filterStage, hfilter]
  refine (corresponds_restrict ht (fun s hs => hallowed s (List.mem_append_right _ ?_)) hspelled
    hgrouped).bind ?_
  · rw [hfilter]
    exact List.mem_flatMap.mpr ⟨f, List.mem_singleton_self f, hs⟩
  · rintro ⟨restricted, several⟩ ⟨restricted', _⟩ ⟨hrestricted, rfl⟩
    exact (corresponds_aggregateStage ht hrestricted haggregate).bind
      fun summed summed' hsummed => corresponds_pure (by rw [hsummed])

end

end Context

/-! ## Requests with one filter and with the other one -/

/-- A filter that takes a hop along a declared field and one that follows the key of the field back
there, in whatever way its keys are dotted, give the same statement and the same flag, and one fails
if the other one does. -/
theorem apply_respelled {s : Schema} {options : Options} {names : Nat → String} {t : Respelling}
    {collection : String} {r : Request} {f f' : Filter}
    (hsound : t.IsSound (s.context options names)) (hfilter : r.filter = some f)
    (hfree : t.key.text ∉ r.segments)
    (hblank : "" ∈ r.segments → ∀ owner, link s.relations owner "" = .none)
    (hothers : ∀ path ∈ r.fieldPaths,
      (s.context options names).spelledPath t collection path.dropLast = path.dropLast)
    (hspelled : f'.unfolded = (s.context options names).respell t collection [] f.unfolded)
    (q : Query) (inner : Bool) (applied : Applied) :
    Compiler.apply { provider := s.provider, options, names } collection q r inner =
        .ok applied ↔
      Compiler.apply { provider := s.provider, options, names } collection q
        { r with filter := some f' } inner = .ok applied := by
  have hallowed : ∀ segment ∈ r.segments, t.Allows (s.context options names) segment :=
    fun segment hsegment => ⟨r.isPath_segments segment hsegment,
      fun hsame => hfree (hsame ▸ hsegment),
      fun hempty owner => hempty ▸ hblank (hempty ▸ hsegment) owner⟩
  have happly : Corresponds Eq ((s.context options names).apply collection q r inner)
      ((s.context options names).apply collection q { r with filter := some f' } inner) :=
    Context.corresponds_apply hsound q (fun info hinfo => s.name_of_collection hinfo) hfilter
      hallowed hothers hspelled
  have hgives (r : Request) :
      Compiler.apply { provider := s.provider, options, names } collection q r inner =
          .ok applied ↔
        ∃ k, ((s.context options names).apply collection q r inner).Gives 0 applied k := by
    refine ⟨fun h => ?_, fun ⟨k, h⟩ => Compiler.apply_of_gives rfl h⟩
    obtain ⟨relations, k, hrelations, h⟩ := Compiler.apply_eq_ok h
    cases hrelations
    exact ⟨k, h⟩
  rw [hgives, hgives]
  exact exists_congr fun k => happly.gives_iff

/-! ### A field of the blog -/

/-- The comments of an article, by their key. -/
def Respelling.blog : Respelling := ⟨"articles", "comments", ⟨"comments", "article", none⟩⟩

/-- Articles with a comment on an article that has a comment of one letter, where a segment leads to
the comments. -/
def Filter.blogComments (segment : String) : Filter :=
  .of (.field (segment ++ ".article." ++ segment ++ ".body")
    (.compare [⟨.equal false false, some (.string "x")⟩]))

theorem Respelling.isSound_blog :
    Respelling.blog.IsSound (Schema.blog.context {} Alias.sequential) := by
  have hplain : Respelling.blog.key.IsPlain := by
    unfold FollowedKey.IsPlain
    decide +kernel
  exact ⟨.oneToMany rfl rfl rfl, hplain,
    fun name => isToMany_eq_false_of_dollar hplain (by decide +kernel)⟩

/-- The filter of one dotted key, unfolded. -/
theorem Filter.unfolded_field {key : String} {segments : List String}
    (h : Text.split '.' key = segments) (condition : FieldCondition) :
    (Filter.of (.field key condition)).unfolded = .of (.along segments condition.unfolded) := by
  rw [Filter.of, Filter.unfolded, Filter.unfoldedClauses, Filter.unfoldedClauses,
    Clause.unfolded, h]
  rfl

/-- The comments are written as a segment that follows their key at the root and below a join. -/
theorem Filter.respell_blogComments :
    (Filter.blogComments "$FOLLOW(comments, article)").unfolded =
      (Schema.blog.context {} Alias.sequential).respell .blog "articles" []
        (Filter.blogComments "comments").unfolded := by
  have hkeys : Text.split '.' ("comments" ++ ".article." ++ "comments" ++ ".body") =
        ["comments", "article", "comments", "body"] ∧
      Text.split '.' ("$FOLLOW(comments, article)" ++ ".article." ++
          "$FOLLOW(comments, article)" ++ ".body") =
        ["$FOLLOW(comments, article)", "article", "$FOLLOW(comments, article)", "body"] ∧
      Text.trim "comments" = "comments" ∧ Text.trim "article" = "article" ∧
      Text.trim "$FOLLOW(comments, article)" = "$FOLLOW(comments, article)" := by decide +kernel
  obtain ⟨hsplit, hsplit', hcomments, harticle, hfollow⟩ := hkeys
  generalize hc : Schema.blog.context {} Alias.sequential = c
  have hroot : c.startsExistential "articles" [] "comments" = true ∧
      c.spelledKey .blog "articles" [] "comments" = "$FOLLOW(comments, article)" ∧
      c.collectionBelow "articles" [] "comments" = "comments" := by subst hc; decide +kernel
  have hbelow : c.startsExistential "comments" [] "article" = false ∧
      c.spelledKey .blog "comments" [] "article" = "article" ∧
      c.startsExistential "comments" ["article"] "comments" = false ∧
      c.spelledKey .blog "comments" ["article"] "comments" = "$FOLLOW(comments, article)" := by
    subst hc
    decide +kernel
  rw [blogComments, blogComments, unfolded_field hsplit, unfolded_field hsplit']
  simp only [Filter.of, Clause.along, FieldCondition.unfolded, hcomments, harticle, hfollow,
    Context.respell, Context.respellClauses, Context.respellClause, Context.respellField, hroot,
    hbelow, if_true, if_neg Bool.false_ne_true, List.nil_append]

theorem apply_respelled_blog :
    ∃ applied,
      (Compiler.blog .postgres).apply "articles" (Compiler.target "articles" {})
        { filter := some (.blogComments "comments") } false = .ok applied ∧
      (Compiler.blog .postgres).apply "articles" (Compiler.target "articles" {})
        { filter := some (.blogComments "$FOLLOW(comments, article)") } false = .ok applied := by
  have hok : ((Compiler.blog .postgres).apply "articles" (Compiler.target "articles" {})
      { filter := some (.blogComments "comments") } false).isOk = true := by decide +kernel
  cases happlied : (Compiler.blog .postgres).apply "articles" (Compiler.target "articles" {})
      { filter := some (.blogComments "comments") } false with
  | error e =>
    rw [happlied] at hok
    cases hok
  | ok applied =>
    refine ⟨applied, rfl, ?_⟩
    exact (apply_respelled (r := { filter := some (.blogComments "comments") })
      Respelling.isSound_blog rfl (by decide +kernel)
      (fun hempty => absurd hempty (by decide +kernel)) (fun _ hpath => (by cases hpath))
      Filter.respell_blogComments _ false applied).mp happlied

/-! ### A field without a name -/

/-- Notes on articles, which list them under the empty name, and the tags of notes. -/
def Schema.nameless : Schema where
  collections := [
    { info := { name := "articles", primary := "id" }
      fields := [⟨"id", .integer, [], none⟩] },
    { info := { name := "notes", primary := "id" }
      fields := [⟨"id", .integer, [], none⟩, ⟨"item", .string, [], none⟩,
        ⟨"kind", .string, [], none⟩, ⟨"tags", .virtual, ["o2m"], none⟩] },
    { info := { name := "tags", primary := "id" }
      fields := [⟨"id", .integer, [], none⟩, ⟨"note", .integer, [], none⟩,
        ⟨"name", .string, [], none⟩] }]
  relations := [
    { collection := "notes", field := "item"
      info := { oneField := some "", discriminator := some "kind", allowed := ["articles"] } },
    { collection := "tags", field := "note", related := some "notes"
      info := { oneField := some "tags" } }]

example : Schema.nameless.validate = .ok { collections := 3, fields := 8, relations := 2 } := by
  decide +kernel

/-- The notes on an article, by their key. -/
def Respelling.nameless : Respelling := ⟨"articles", "", ⟨"notes", "item", some "kind"⟩⟩

/-- Articles with a note, to which a segment leads, and with some tag of a name. -/
def Filter.nameless (segment : String) : Filter :=
  ⟨[.field segment (.nested (.of (.field "id" (.compare [⟨.null true, none⟩])))),
    .field "tags" (.quantified .some
      (.of (.field "name" (.compare [⟨.equal false false, some (.string "x")⟩]))))]⟩

theorem Respelling.isSound_nameless :
    Respelling.nameless.IsSound (Schema.nameless.context {} Alias.sequential) := by
  have hplain : Respelling.nameless.key.IsPlain := by
    unfold FollowedKey.IsPlain
    decide +kernel
  exact ⟨.oneToAny rfl rfl rfl rfl, hplain,
    fun name => isToMany_eq_false_of_dollar hplain (by decide +kernel)⟩

theorem Filter.respell_nameless :
    (Filter.nameless " $FOLLOW(notes, item, kind)").unfolded =
      (Schema.nameless.context {} Alias.sequential).respell .nameless "articles" []
        (Filter.nameless " ").unfolded := by
  have hkeys : Text.split '.' " " = [" "] ∧ Text.split '.' "id" = ["id"] ∧
      Text.split '.' " $FOLLOW(notes, item, kind)" = [" $FOLLOW(notes, item, kind)"] ∧
      Text.split '.' "tags" = ["tags"] ∧ Text.split '.' "name" = ["name"] := by decide +kernel
  obtain ⟨hblank, hid, hfollow, htags, hname⟩ := hkeys
  generalize hc : Schema.nameless.context {} Alias.sequential = c
  have hspelled : c.startsExistential "articles" [] " " = false ∧
      c.spelledKey .nameless "articles" [] " " = " $FOLLOW(notes, item, kind)" ∧
      c.startsExistential "articles" [] "tags" = false ∧
      c.spelledKey .nameless "articles" [] "tags" = "tags" := by
    subst hc
    decide +kernel
  simp only [Filter.nameless, Filter.of, Filter.unfolded, Filter.unfoldedClauses, Clause.unfolded,
    FieldCondition.unfolded, hblank, hid, hfollow, htags, hname, Clause.along, Context.respell,
    Context.respellClauses, Context.respellClause, Context.respellField, hspelled,
    if_neg Bool.false_ne_true]

/-- A join under the blank path is taken for that of the root: the filter on tags, which no article
has, is then asked of the notes.  Joined under another path, the notes are not asked. -/
theorem refused_respelled_nameless :
    Respelling.nameless.IsSound (Schema.nameless.context {} Alias.sequential) ∧
    "$FOLLOW(notes, item, kind)" ∉ (Filter.nameless " ").unfolded.segments ∧
    (Filter.nameless " $FOLLOW(notes, item, kind)").unfolded =
      (Schema.nameless.context {} Alias.sequential).respell .nameless "articles" []
        (Filter.nameless " ").unfolded ∧
    (Compiler.apply { provider := Schema.nameless.provider } "articles"
      (Compiler.target "articles" {}) { filter := some (.nameless " ") } false).isOk = true ∧
    (Compiler.apply { provider := Schema.nameless.provider } "articles"
      (Compiler.target "articles" {})
      { filter := some (.nameless " $FOLLOW(notes, item, kind)") } false).isOk = false :=
  ⟨Respelling.isSound_nameless, by decide +kernel, Filter.respell_nameless, by decide +kernel,
    by decide +kernel⟩

end JsonSql
