import JsonSql.Proofs.Contributions
import JsonSql.Proofs.Dangling

set_option autoImplicit false

/-!
# Requests over a validated schema

A schema that passes its check leads a request to declared things only, wherever its paths go
(`paths_lead_to_declared`).  A request can also name a key itself that is to be followed back.  The
collection of such a key is looked up on most ways, but not where whole rows are counted beyond it,
and its fields never are; apart from that such keys lead to declared things as well
(`followed_keys_declared`, `followed_keys_undeclared`).
-/

namespace JsonSql

open JsonSql.Sql

variable {s : Schema} {options : Options} {letters : Alias.Letters} {collection : String}
  {r : Request} {q : Query}

/-! ## Compiled statements -/

/-- Nothing but the columns of the collection as a whole is selected before a request is added. -/
theorem Compiler.parts_target {e : Expr} (h : e ∈ (Compiler.target collection r).parts) :
    e = .allColumns (some collection) := by
  unfold Compiler.target at h
  dsimp only at h
  split at h
  · cases h
  · simpa [Query.parts, Query.selectAllOf] using h

/-- What a compiled statement is made of. -/
theorem made_of_compile (h : (s.compiler options letters).compile collection r = .ok q) :
    ∃ hops, (s.context options (s.compiler options letters).names).JoinsAlong false collection
        ((s.context options (s.compiler options letters).names).walkedPaths collection r)
        ⟨q, hops⟩ ∧
      Scope.Made (s.context options (s.compiler options letters).names) collection
        (Compiler.target collection r).parts
        ((s.context options (s.compiler options letters).names).walkedPaths collection r)
        ((s.context options (s.compiler options letters).names).resolvedPaths collection r)
        ((s.context options (s.compiler options letters).names).requestLeaves collection r)
        ⟨q, hops⟩ ∧
      (∀ leaf ∈ (s.context options (s.compiler options letters).names).requestLeaves collection r,
        leaf.IsGiven (s.context options (s.compiler options letters).names) collection) ∧
      (s.collection? collection).isSome := by
  obtain ⟨applied, happlied, rfl⟩ := Compiler.compile_eq_ok h
  obtain ⟨relations, k, hrelations, happly⟩ := Compiler.apply_eq_ok happlied
  obtain rfl : s.relations = relations := Except.ok.inj hrelations
  obtain ⟨hops, hjoins, hmade⟩ := Context.makes_of_apply
    (fun info hinfo => s.name_of_collection hinfo) (Compiler.target_joins collection r) happly
  refine ⟨hops, hjoins, hmade, fun leaf hleaf => ?_, ?_⟩
  · obtain ⟨filtered, -, -, hasked⟩ :=
      filtered_of_apply (Compiler.target_condition collection r) happly
    obtain ⟨f, hf, hleaf⟩ := List.mem_flatMap.mp hleaf
    obtain ⟨there, e?, k₁, k₂, hled, hcondition, -⟩ := hasked f (Option.mem_toList.mp hf)
    exact Context.isGiven_of_leavesGive (isUnfolded_unfolded f) hled
      (Context.leavesGive_condition? [] f.unfolded hcondition) leaf hleaf
  · obtain ⟨info, hinfo⟩ := Context.collection_of_apply happly
    exact Schema.isSome_collection?_of_provider hinfo

/-- Every `SELECT` of a compiled statement reads what its paths reach. -/
theorem charts_of_compile (h : (s.compiler options letters).compile collection r = .ok q) :
    ∀ select ∈ q.selects,
      (s.context options (s.compiler options letters).names).Charts false collection
        ((s.context options (s.compiler options letters).names).walkedPaths collection r)
        ((s.context options (s.compiler options letters).names).requestLeaves collection r)
        select := by
  obtain ⟨hops, hjoins, hmade, -⟩ := made_of_compile h
  intro select hselect
  rw [Query.selects_parts, List.mem_cons, List.mem_flatMap] at hselect
  rcases hselect with rfl | ⟨e, he, hselect⟩
  · exact Context.charts_of_joinsAlong (isStatement_of_compile h).source hjoins hmade.charted
  · by_cases hold : e ∈ (Compiler.target collection r).parts
    · rw [Compiler.parts_target hold, Expr.selects] at hselect
      cases hselect
    · exact Context.charts_of_makes hmade.charted (hmade.parts e he hold) select hselect

/-! ## Keys that a request follows back -/

/-- The segments of a request whose links contribute a join or a subquery to its statement. -/
def Context.RequestContributes (c : Context) (collection : String) (r : Request)
    (segment : String) : Prop :=
  c.Contributes false collection (c.walkedPaths collection r) (c.requestLeaves collection r) segment

/-- What holds of declared collections holds of every place on record in a compiled statement, if it
holds of the keys that are followed back with no column beyond them. -/
theorem place_of_made {P : String → Prop} {names : Nat → String} {base : List Expr} {hops : Hops}
    (hs : s.FitsTogether) (hdeclared : ∀ name, (s.collection? name).isSome → P name)
    (hcounted : ∀ key ∈ r.countedKeys s, P key.collection)
    (hroot : (s.collection? collection).isSome)
    (hjoins : (s.context options names).JoinsAlong false collection
      ((s.context options names).walkedPaths collection r) ⟨q, hops⟩)
    (hmade : Scope.Made (s.context options names) collection base
      ((s.context options names).walkedPaths collection r)
      ((s.context options names).resolvedPaths collection r)
      ((s.context options names).requestLeaves collection r) ⟨q, hops⟩) :
    ∀ path place, IsPath path → hops.place? collection path = some place → P place.collection := by
  refine hmade.charted.of_declared hs hdeclared hroot Context.isPath_of_mem_walkedPaths hjoins
    fun path hpath => ?_
  refine (Context.mem_walkedPaths hpath).imp (hmade.ends path) fun hall segment hsegment key hkey =>
    hcounted key (List.mem_append_right _ (List.mem_filterMap.mpr ⟨segment, ?_, hkey⟩))
  exact List.mem_flatten.mpr ⟨path, hall, hsegment⟩

/-- The keys that contributing segments follow back are keys of the request.  What holds of declared
collections holds of theirs, if it holds of those with no column beyond them. -/
theorem followedKeys_of_contributes {P : String → Prop} (hs : s.FitsTogether)
    (hdeclared : ∀ name, (s.collection? name).isSome → P name)
    (hcounted : ∀ key ∈ r.countedKeys s, P key.collection)
    (h : (s.compiler options letters).compile collection r = .ok q) {segment : String}
    {key : FollowedKey}
    (hcontributes : (s.context options (s.compiler options letters).names).RequestContributes
      collection r segment) (hkey : followedKey? segment = some key) :
    key ∈ r.followedKeys ∧ P key.collection := by
  obtain ⟨hops, hjoins, hmade, hgiven, hroot⟩ := made_of_compile h
  exact followedIn_of_contributes hs hdeclared
    (fun key hkey => hcounted key (List.mem_append_left _ hkey)) hcontributes hjoins hmade.charted
    (place_of_made hs hdeclared hcounted hroot hjoins hmade) Context.segments_of_mem_walkedPaths
    Context.segments_of_mem_requestLeaves hgiven hkey

/-- A compiled statement names declared things only, if what is asked of the keys that its request
follows back holds. -/
theorem isGrounded_of_compile (hs : s.FitsTogether)
    (hfields : ∀ key ∈ r.followedKeys, (s.collection? key.collection).isSome → s.Declares key)
    (hcounted : ∀ key ∈ r.countedKeys s, (s.collection? key.collection).isSome)
    (h : (s.compiler options letters).compile collection r = .ok q) : q.IsGrounded s [] := by
  obtain ⟨hops, hjoins, hmade, hgiven, hroot⟩ := made_of_compile h
  have hg : s.Grounds r.segments :=
    ⟨hfields, fun key hkey => hcounted key (List.mem_append_left _ hkey)⟩
  have hdeclared := place_of_made (P := fun name => (s.collection? name).isSome) hs
    (fun _ => id) hcounted hroot hjoins hmade
  have hsource := (isStatement_of_compile h).source
  refine Sql.Query.isGrounded_of_parts (hjoins.tables_declared hsource hdeclared) fun e he => ?_
  rw [List.append_nil]
  by_cases hold : e ∈ (Compiler.target collection r).parts
  · rw [Compiler.parts_target hold]
    refine .of_selects (by rw [Expr.selects]) fun reference hreference => ?_
    rw [Expr.references] at hreference
    cases hreference
  · have hplaces : hops.IsGrounded s q.tables collection := fun path place hpath hplace =>
      ⟨hdeclared path place hpath hplace, hjoins.inScope hsource path place hpath hplace⟩
    exact isGrounded_of_makes hs hg Context.isPath_of_mem_walkedPaths
      Context.segments_of_mem_walkedPaths Context.segments_of_mem_requestLeaves hplaces
      (hmade.parts e he hold)

/-- Over a schema that passes its check, what a compiled request is led to by the keys that it
follows back.  The collection of each that contributes a join or a subquery is declared, unless such
keys stand where no column is resolved beyond them.  If those of the latter are declared too, and so
are the fields that keys of declared collections name, then every contributing key is declared, and
the statement has no other tables and columns than declared ones. -/
theorem followed_keys_declared {summary : SchemaSummary} (hvalid : s.validate = .ok summary)
    (h : (s.compiler options letters).compile collection r = .ok q) :
    (∀ segment key,
      (s.context options (s.compiler options letters).names).RequestContributes collection r
        segment → followedKey? segment = some key →
      (s.collection? key.collection).isSome ∨
        key.collection ∈ (r.countedKeys s).map FollowedKey.collection) ∧
    ((∀ key ∈ r.followedKeys, (s.collection? key.collection).isSome → s.Declares key) →
      (∀ key ∈ r.countedKeys s, (s.collection? key.collection).isSome) →
      (∀ segment key,
        (s.context options (s.compiler options letters).names).RequestContributes collection r
          segment → followedKey? segment = some key → s.Declares key) ∧
      q.IsGrounded s []) := by
  have hs := Schema.fitsTogether_of_validate hvalid
  refine ⟨fun segment key hcontributes hkey => ?_, fun hfields hcounted => ⟨?_, ?_⟩⟩
  · exact (followedKeys_of_contributes (P := fun name => (s.collection? name).isSome ∨
      name ∈ (r.countedKeys s).map FollowedKey.collection) hs (fun _ => .inl)
      (fun key hkey => .inr (List.mem_map_of_mem hkey)) h hcontributes hkey).2
  · intro segment key hcontributes hkey
    obtain ⟨hmem, hcollection⟩ := followedKeys_of_contributes
      (P := fun name => (s.collection? name).isSome) hs (fun _ => id) hcounted h hcontributes hkey
    exact hfields key hmem hcollection
  · exact isGrounded_of_compile hs hfields hcounted h

/-- A request for the rows that some row refers to along a key which is named in it. -/
def Request.following (segment : String) : Request where
  filter := some (.of (.field segment (.quantified .some ⟨[]⟩)))
  limit := some (-1)

/-- The key of such a request contributes the statement of the related rows. -/
theorem contributes_following {c : Context} {segment : String}
    (hsegment : Text.split '.' segment = [segment]) :
    c.RequestContributes collection (.following segment) segment := by
  have hleaf : .related [] segment .some ⟨[]⟩ ∈
      c.requestLeaves collection (.following segment) := by
    simp [Request.following, Context.requestLeaves, Filter.of, Filter.unfolded,
      Filter.unfoldedClauses, Clause.unfolded, FieldCondition.unfolded, Clause.along, hsegment,
      Context.leaves, Context.clausesLeaves, Context.clauseLeaves, Context.conditionLeaves]
  exact .asked hleaf

theorem followed_keys_declared_blog :
    Schema.blog.validate = .ok ⟨3, 10, 3⟩ ∧
      ∃ q, (Schema.blog.compiler {} fun _ => 0).compile "articles"
          (.following "$FOLLOW(comments, article)") = .ok q ∧
        Schema.blog.Declares ⟨"comments", "article", none⟩ ∧ q.IsGrounded Schema.blog [] := by
  obtain ⟨q, hq⟩ : ∃ q, (Schema.blog.compiler {} fun _ => 0).compile "articles"
      (.following "$FOLLOW(comments, article)") = .ok q :=
    Compiler.exists_compile (by decide +kernel)
  have hvalid : Schema.blog.validate = .ok ⟨3, 10, 3⟩ := by decide +kernel
  have hkey : followedKey? "$FOLLOW(comments, article)" = some ⟨"comments", "article", none⟩ := by
    decide +kernel
  have hkeys : (Request.following "$FOLLOW(comments, article)").followedKeys =
      [⟨"comments", "article", none⟩] := by decide +kernel
  have hcounted : (Request.following "$FOLLOW(comments, article)").countedKeys Schema.blog =
      [] := by decide +kernel
  have hfields : ∀ key ∈ (Request.following "$FOLLOW(comments, article)").followedKeys,
      (Schema.blog.collection? key.collection).isSome → Schema.blog.Declares key := by
    rw [hkeys]
    intro key hmem _
    rw [List.mem_singleton.mp hmem]
    exact ⟨by decide +kernel, by decide +kernel, nofun⟩
  obtain ⟨hdeclares, hgrounded⟩ := (followed_keys_declared hvalid hq).2 hfields
    (by simp [hcounted])
  exact ⟨hvalid, q, hq, hdeclares _ _ (contributes_following (by decide +kernel)) hkey, hgrounded⟩

/-- A request puts the names of a column and of a table into the statement that the schema does not
have: the column in a filter on related rows, the table in a join whose rows are counted. -/
theorem followed_keys_undeclared :
    Schema.blog.validate.isOk = true ∧
      (∃ q, (Schema.blog.compiler { aliasStyle := .sequential } fun _ => 0).compile "articles"
          (.following "$FOLLOW(articles, nosuch)") = .ok q ∧
        (Schema.blog.context { aliasStyle := .sequential }
            Alias.sequential).RequestContributes "articles"
          (.following "$FOLLOW(articles, nosuch)") "$FOLLOW(articles, nosuch)" ∧
        (∃ key, followedKey? "$FOLLOW(articles, nosuch)" = some key ∧
          ¬Schema.blog.Declares key) ∧
        ¬q.IsGrounded Schema.blog []) ∧
      ∃ q, (Schema.blog.compiler { aliasStyle := .sequential } fun _ => 0).compile "articles"
          { aggregate := [(.countAll, ["author.$FOLLOW(nosuch, x).id"])], limit := some (-1) } =
            .ok q ∧ q.tables = [⟨"authors", some "j1"⟩, ⟨"nosuch", some "j2"⟩, ⟨"articles", none⟩] ∧
        ¬q.IsGrounded Schema.blog [] := by
  obtain ⟨q, hq, hreferences⟩ : ∃ q, (Schema.blog.compiler { aliasStyle := .sequential }
      fun _ => 0).compile "articles" (.following "$FOLLOW(articles, nosuch)") = .ok q ∧
        decide (∃ reference ∈ q.references [], ¬reference.IsDeclared Schema.blog) = true :=
    Compiler.exists_compile_with (by decide +kernel)
  obtain ⟨q', hq', htables⟩ : ∃ q, (Schema.blog.compiler { aliasStyle := .sequential }
      fun _ => 0).compile "articles"
        { aggregate := [(.countAll, ["author.$FOLLOW(nosuch, x).id"])], limit := some (-1) } =
          .ok q ∧ q.tables = [⟨"authors", some "j1"⟩, ⟨"nosuch", some "j2"⟩, ⟨"articles", none⟩] :=
    Compiler.exists_compile_with (by decide +kernel)
  refine ⟨by decide +kernel, ⟨q, hq, contributes_following (by decide +kernel),
    ⟨⟨"articles", "nosuch", none⟩, by decide +kernel, fun hdeclares => ?_⟩,
    fun hgrounded => ?_⟩, q', hq', htables, fun hgrounded => ?_⟩
  · exact absurd hdeclares.field (by decide +kernel)
  · obtain ⟨reference, hmem, hnot⟩ := of_decide_eq_true hreferences
    exact hnot (hgrounded.references reference hmem)
  · have hdeclared := hgrounded.tables q' (by rw [Query.selects_parts]; exact List.mem_cons_self)
      ⟨"nosuch", some "j2"⟩ (by rw [htables]; decide)
    exact absurd hdeclared (by decide +kernel)

/-! ## Requests that follow no keys back -/

/-- Over a schema that passes its check, a request on a declared collection that names no keys to be
followed back is led to declared things only.  Its compilation does not come upon a collection that
is not there or a link that leads nowhere.  If it gives a statement, each of its tables stands for
the collection that a path reaches, and each of its columns is one of the collection that its table
stands for. -/
theorem paths_lead_to_declared {summary : SchemaSummary} (hvalid : s.validate = .ok summary)
    (hroot : (s.collection? collection).isSome) (hplain : r.followedKeys = []) :
    (∀ e, (s.compiler options letters).compile collection r = .error e → e.isDangling = false) ∧
      ∀ q, (s.compiler options letters).compile collection r = .ok q →
        (∀ select ∈ q.selects,
          (s.context options (s.compiler options letters).names).Charts false collection
            ((s.context options (s.compiler options letters).names).walkedPaths collection r)
            ((s.context options (s.compiler options letters).names).requestLeaves collection r)
            select) ∧
        q.IsGrounded s [] := by
  have hs := Schema.fitsTogether_of_validate hvalid
  refine ⟨isSafe_compile hs hplain hroot, fun q hq => ⟨charts_of_compile hq, ?_⟩⟩
  have hcounted : ∀ key ∈ r.countedKeys s, (s.collection? key.collection).isSome := by
    intro key hkey
    simpa [hplain] using Request.countedKeys_subset hkey
  exact isGrounded_of_compile hs (by simp [hplain]) hcounted hq

theorem paths_lead_to_declared_blog :
    let c := Schema.blog.context {} (Schema.blog.compiler {} fun _ => 0).names
    Schema.blog.validate = .ok ⟨3, 10, 3⟩ ∧ Request.blog.followedKeys = [] ∧
      ∃ q, (Schema.blog.compiler {} fun _ => 0).compile "articles" Request.blog = .ok q ∧
        (∀ select ∈ q.selects, c.Charts false "articles" (c.walkedPaths "articles" Request.blog)
          (c.requestLeaves "articles" Request.blog) select) ∧
        q.IsGrounded Schema.blog [] := by
  obtain ⟨q, hq⟩ : ∃ q, (Schema.blog.compiler {} fun _ => 0).compile "articles" Request.blog =
      .ok q := Compiler.exists_compile (by decide +kernel)
  have hvalid : Schema.blog.validate = .ok ⟨3, 10, 3⟩ := by decide +kernel
  have hplain : Request.blog.followedKeys = [] := by decide +kernel
  exact ⟨hvalid, hplain, q, hq,
    (paths_lead_to_declared hvalid (by decide +kernel) hplain).2 q hq⟩

end JsonSql
