import JsonSql.Proofs.ParallelRequests

set_option autoImplicit false

/-!
# What depends on the dialect

Two dialects compile a request to statements with the same joins, the same row window and as many
items, groups and orderings.  A request that is portable (`Context.IsPortable`) compiles in every
dialect to the same statement, or fails in every dialect for the same reason.
-/

namespace JsonSql

open JsonSql.Sql

theorem respells_id (s : Schema) (names : Nat → String) : s.Respells id names names :=
  ⟨fun _ => rfl, fun _ _ _ => rfl⟩

/-- The dialect shapes neither the joins of a statement, nor its row window, nor the number of its
items, groups and orderings.  A portable request compiles alike in all dialects. -/
theorem compile_dialects (s : Schema) (options : Options) (names : Nat → String)
    (collection : String) (r : Request) (d d' : Dialect) :
    (∀ q q', Compiler.compile {
          provider := s.provider, options := { options with dialect := d }, names } collection r =
        .ok q →
      Compiler.compile {
          provider := s.provider, options := { options with dialect := d' }, names } collection r =
        .ok q' →
      q'.joins = q.joins ∧ q'.window = q.window ∧ q'.items.length = q.items.length ∧
        q'.groups.length = q.groups.length ∧ q'.orders.length = q.orders.length) ∧
    ((s.context options names).IsPortable s collection r →
      Compiler.compile {
          provider := s.provider, options := { options with dialect := d' }, names } collection r =
        Compiler.compile {
          provider := s.provider, options := { options with dialect := d }, names } collection
          r) := by
  have hmatches (exact : Prop)
      (hportable : exact → (s.context options names).IsPortable s collection r) :
      Except.Matches exact (Query.Alike exact id)
        (Compiler.compile {
          provider := s.provider, options := { options with dialect := d }, names } collection r)
        (Compiler.compile {
          provider := s.provider, options := { options with dialect := d' }, names } collection
          r) :=
    matches_compile (respells_id s names) rfl
      fun hexact => .inr ((hportable hexact).congr (s.relations_context _ _ _ _))
  refine ⟨fun q q' hq hq' => ?_, fun hportable => ?_⟩
  · have hloose := hmatches False False.elim
    rw [hq, hq'] at hloose
    have halike := hloose.of_ok
    have hjoins : q'.joins = q.joins := by
      rw [halike.joins, funext Join.relabelled_id, List.map_id']
    exact ⟨hjoins, halike.window, halike.items, halike.groups, halike.orders⟩
  · have hsame := ((hmatches True fun _ => hportable).mono
      fun q q' halike => halike.whole trivial).map_eq
    have hid : Query.relabelled id = id := funext Query.relabelled_id
    rw [hid, Except.map_id] at hsame
    exact hsame.symm

/-- Articles that someone called Ann commented on, by the name of their author. -/
def Request.commented : Request where
  filter := some (.of (.field "comments" (.quantified .some byAnn)))
  sort := ["-author.name"]
where
  /-- An author called Ann. -/
  byAnn : Filter :=
    .of (.field "author" (.nested
      (.of (.field "name" (.compare [⟨.equal false false, some (.string "Ann")⟩])))))

/-- Names are read and compared in every dialect alike. -/
theorem comparesPortably_name :
    Schema.blog.ComparesPortably "authors" "name" [⟨.equal false false, some (.string "Ann")⟩] := by
  have hsplit : splitFunction "name" = (none, "name") := by decide +kernel
  refine ⟨fun name function f hname => ?_, fun f _ hf => ?_, fun comparison hmem => ?_⟩
  · rw [hsplit] at hname
    cases hname
  · rw [hsplit] at hf
    obtain rfl : (⟨"name", .string, [], none⟩ : Field) = f := Option.some.inj hf
    rfl
  · rw [List.mem_singleton.mp hmem]
    nofun

theorem isPortable_commented :
    (Schema.blog.context {} Alias.sequential).IsPortable Schema.blog "articles"
      Request.commented := by
  let c := Schema.blog.context {} Alias.sequential
  have hsegments : Text.trim "author" = "author" ∧ Text.trim "name" = "name" := by decide +kernel
  have hleaves : c.leaves "articles" [] (Filter.of (.field "comments"
      (.quantified .some Request.commented.byAnn))) =
      [.related [] "comments" .some Request.commented.byAnn] := by
    simp [Filter.of, Context.leaves, Context.clausesLeaves, Context.clauseLeaves,
      Context.conditionLeaves]
  have hinside : c.leaves "comments" [] Request.commented.byAnn =
      [.compared ["author"] "name" [⟨.equal false false, some (.string "Ann")⟩]] := by
    have hforward : c.startsExistential "comments" [] "author" = false := by decide +kernel
    simp [Request.commented.byAnn, Filter.of, Context.leaves, Context.clausesLeaves,
      Context.clauseLeaves, Context.conditionLeaves, hforward, hsegments]
  have hrows : (c.relatedLink? "articles" [] "comments").bind (fun asked =>
      asked.2.relation?.map Relation.collection) = some "comments" := by decide +kernel
  have hauthor : c.destination? "comments" ["author"] = some "authors" := by decide +kernel
  refine ⟨fun path hpath owner key howner hkey => ?_, fun f hf owner key comparisons h => ?_⟩
  · have hsort : Request.commented.sort.map sortPath = [["author", "name"]] := by decide +kernel
    rw [hsort] at hpath
    obtain rfl : path = ["author", "name"] := List.mem_singleton.mp hpath
    obtain rfl : "name" = key := Option.some.inj hkey
    obtain rfl : "authors" = owner := Option.some.inj howner
    exact comparesPortably_name.reads
  · obtain rfl := Option.some.inj hf
    cases h with
    | leaf hmem => cases List.mem_singleton.mp (hleaves ▸ hmem)
    | inside hmem hlink hr hcompares =>
      cases List.mem_singleton.mp (hleaves ▸ hmem)
      rw [hlink, Option.bind_some, hr, Option.map_some] at hrows
      rw [Option.some.inj hrows] at hcompares
      cases hcompares with
      | leaf hmem howner =>
        cases List.mem_singleton.mp (hinside ▸ hmem)
        rw [hauthor] at howner
        obtain rfl := Option.some.inj howner
        rw [hsegments.2]
        exact comparesPortably_name
      | inside hmem => cases List.mem_singleton.mp (hinside ▸ hmem)

theorem compile_dialects_blog :
    (∃ q q', (Compiler.blog .mysql).compile "articles" Request.blog = .ok q ∧
      (Compiler.blog .sqlite).compile "articles" Request.blog = .ok q' ∧ q'.joins = q.joins) ∧
    ∃ q, (Compiler.blog .mysql).compile "articles" Request.commented = .ok q ∧
      (Compiler.blog .sqlite).compile "articles" Request.commented = .ok q := by
  obtain ⟨q, hq⟩ := exists_compile_blog .mysql
  obtain ⟨q', hq'⟩ := exists_compile_blog .sqlite
  obtain ⟨p, hp⟩ : ∃ p, (Compiler.blog .mysql).compile "articles" Request.commented = .ok p :=
    Compiler.exists_compile (by decide +kernel)
  refine ⟨⟨q, q', hq, hq', ?_⟩, p, hp, ?_⟩
  · exact ((compile_dialects Schema.blog {} Alias.sequential "articles" Request.blog .mysql
      .sqlite).1 q q' hq hq').1
  · exact ((compile_dialects Schema.blog {} Alias.sequential "articles" Request.commented .mysql
      .sqlite).2 isPortable_commented).trans hp

end JsonSql
