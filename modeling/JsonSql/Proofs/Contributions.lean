import JsonSql.Proofs.ConcealedRows
import JsonSql.Proofs.Grounded

set_option autoImplicit false

/-!
# Segments that contribute to a statement

A segment contributes a join if it ends a prefix that is joined, and a subquery if the rows of its
link are counted or asked about, at any depth (`Context.Contributes`).  The keys that contributing
segments follow back are written in the request, and are those of the collections that it is led to
(`followedIn_of_contributes`).
-/

namespace JsonSql

open JsonSql.Sql

/-- The segments whose links contribute a join or a subquery to a statement on a collection that
walks paths and asks leaves. -/
inductive Context.Contributes (c : Context) :
    Bool → String → List (List String) → List Leaf → String → Prop
  | joined {inner : Bool} {collection segment : String} {paths : List (List String)}
      {leaves : List Leaf} {before : List String} :
      c.JoinsPrefix inner collection paths (before ++ [segment]) →
      Contributes c inner collection paths leaves segment
  | counted {inner : Bool} {collection last function segment owner : String}
      {paths : List (List String)} {leaves : List Leaf} {before : List String} {f : Field} :
      before ++ [last] ∈ paths → splitFunction last = (some function, segment) →
      FieldFunction.ofName? function = some .count → c.reach? collection before = some owner →
      c.provider.field owner segment = .ok (some f) →
      Contributes c inner collection paths leaves segment
  | asked {inner : Bool} {collection key : String} {paths : List (List String)}
      {leaves : List Leaf} {parents : List String} {quantifier : Quantifier} {f : Filter} :
      .related parents key quantifier f ∈ leaves →
      Contributes c inner collection paths leaves key
  | inside {inner : Bool} {collection owner key segment : String} {paths : List (List String)}
      {leaves : List Leaf} {parents : List String} {quantifier : Quantifier} {f : Filter}
      {link : Link} {r : Relation} :
      .related parents key quantifier f ∈ leaves →
      c.relatedLink? collection parents key = some (owner, link) → link.relation? = some r →
      Contributes c true r.collection (c.filterPaths r.collection [] f)
        (c.leaves r.collection [] f) segment →
      Contributes c inner collection paths leaves segment

/-- A leaf whose condition is part of a statement. -/
def Leaf.IsGiven (c : Context) (collection : String) (leaf : Leaf) : Prop :=
  leaf.IsUnfolded ∧ ∃ hops e? k k', hops.Led c collection k ∧
    (c.leafCondition? hops collection leaf).Gives k e? k'

namespace Context

variable {c : Context} {collection : String} {k k' : Nat}

theorem isGiven_of_leavesGive {hops : Hops} {f : Filter} {predicates : List Expr}
    (hf : f.IsUnfolded) (hled : hops.Led c collection k)
    (h : c.LeavesGive hops collection (c.leaves collection [] f) k predicates k') :
    ∀ leaf ∈ c.leaves collection [] f, leaf.IsGiven c collection := by
  intro leaf hleaf
  obtain ⟨e?, i, i', hle, hgives⟩ := h.of_leaf hleaf
  exact ⟨isUnfolded_of_mem_leaves f isPath_nil hf leaf hleaf, hops, e?, i, i', hled.mono hle,
    hgives⟩

/-- The rows that a filter asks about are those of the key that its segment follows back. -/
theorem IsAsked.eq_link {hops : Hops} {parents : List String}
    {key owner table : String} {link : Link} {followed : FollowedKey}
    (h : c.IsAsked hops collection parents key owner table link)
    (hkey : followedKey? key = some followed) : link = followed.link owner := by
  rcases h.place with ⟨-, howner, -, hlink⟩ | ⟨-, hop, -, howner, -, hlink⟩
  · rw [hlink, howner]
    exact link_of_followedKey? _ _ hkey
  · rw [hlink, howner, trim_of_followedKey? hkey]
    exact link_of_followedKey? _ _ hkey

end Context

section

variable {s : Schema} {options : Options} {names : Nat → String} {segments : List String}
  {P : String → Prop}

/-- The key that a joined segment follows back is one of a collection on record. -/
theorem followedIn_of_joinsPrefix {inner : Bool} {collection segment : String}
    {paths : List (List String)} {before : List String} {scope : Scope} {key : FollowedKey}
    (hjoins : (s.context options names).JoinsAlong inner collection paths scope)
    (hcharted : scope.hops.Charted (s.context options names) collection)
    (hplaces : ∀ path place, IsPath path → scope.hops.place? collection path = some place →
      P place.collection)
    (hsub : ∀ path ∈ paths, path ⊆ segments)
    (h : (s.context options names).JoinsPrefix inner collection paths (before ++ [segment]))
    (hkey : followedKey? segment = some key) : key ∈ followedIn segments ∧ P key.collection := by
  obtain ⟨hne, hpath⟩ := hjoins.isPath h
  obtain ⟨hop, hfound⟩ := Option.isSome_iff_exists.mp ((hjoins.isSome_get?_iff hpath hne).mpr h)
  have hreached := hcharted.reached _ hop hne hpath hfound
  rw [Context.reach?_concat] at hreached
  obtain ⟨owner, -, hadmitted⟩ := Option.bind_eq_some_iff.mp hreached
  rw [Context.link, link_of_followedKey? _ _ hkey, FollowedKey.admitted?_link] at hadmitted
  have hplace : scope.hops.place? collection (before ++ [segment]) = some hop.place := by
    rw [Hops.place?_of_ne_nil hne, hfound, Option.map_some]
  obtain ⟨path, hmem, halong, -⟩ := h
  have hsegment : segment ∈ segments := hsub path hmem (List.dropLast_subset path
    (halong.subset (List.mem_append_right before (List.mem_singleton_self segment))))
  refine ⟨mem_followedIn hsegment hkey, ?_⟩
  rw [Option.some.inj hadmitted]
  exact hplaces _ hop.place hpath hplace

/-- The keys that contributing segments follow back are written in segments.  What holds of declared
collections holds of theirs, if it holds of the places on record and of the keys in the parentheses
of functions.  The induction is on the filters about related rows that a segment stands in. -/
theorem followedIn_of_contributes (hs : s.FitsTogether)
    (hdeclared : ∀ name, (s.collection? name).isSome → P name)
    (hfunctions : ∀ key ∈ followedInFunctions s segments, P key.collection) {inner : Bool}
    {collection segment : String} {paths : List (List String)} {leaves : List Leaf}
    (h : (s.context options names).Contributes inner collection paths leaves segment) :
    ∀ {scope : Scope} {key : FollowedKey},
      (s.context options names).JoinsAlong inner collection paths scope →
      scope.hops.Charted (s.context options names) collection →
      (∀ path place, IsPath path → scope.hops.place? collection path = some place →
        P place.collection) →
      (∀ path ∈ paths, path ⊆ segments) → (∀ leaf ∈ leaves, leaf.SegmentsIn segments) →
      (∀ leaf ∈ leaves, leaf.IsGiven (s.context options names) collection) →
      followedKey? segment = some key → key ∈ followedIn segments ∧ P key.collection := by
  induction h with
  | joined hjoined =>
    intro scope key hjoins hcharted hplaces hsub hleaves hgiven hkey
    exact followedIn_of_joinsPrefix hjoins hcharted hplaces hsub hjoined hkey
  | @counted inner collection last function segment owner paths leaves before f hmem hfunction
      hcount hreach hf =>
    intro scope key hjoins hcharted hplaces hsub hleaves hgiven hkey
    have hlast : last ∈ segments :=
      hsub _ hmem (List.mem_append_right before (List.mem_singleton_self last))
    have hfollowed := mem_followedInFunctions hlast hfunction (Except.ok.inj hf) hkey
    exact ⟨followedInFunctions_subset hfollowed, hfunctions key hfollowed⟩
  | @asked inner collection key paths leaves parents quantifier f hleaf =>
    intro scope followed hjoins hcharted hplaces hsub hleaves hgiven hkey
    obtain ⟨⟨hparents, -, hf⟩, hops, e?, k, k', hled, hgives⟩ := hgiven _ hleaf
    obtain ⟨owner, table, link, r, polymorphic, known, inside, several, inner?, primary, k₁, -,
      hasked, hreferring, ⟨info, hinfo⟩, -⟩ := Context.related_gives hparents hled hgives
    have hsegment : key ∈ segments := by
      rw [← trim_of_followedKey? hkey]
      exact (hleaves _ hleaf).1 (List.mem_append_right parents (List.mem_singleton_self _))
    have hrelation := hreferring.relation?_eq
    rw [hasked.eq_link hkey] at hrelation
    refine ⟨mem_followedIn hsegment hkey, ?_⟩
    rw [← (FollowedKey.relation?_link hrelation).1]
    exact hdeclared _ (Schema.isSome_collection?_of_provider hinfo)
  | @inside inner collection owner key segment paths leaves parents quantifier f link r hleaf hlink
      hrelation hinside ih =>
    intro scope followed hjoins hcharted hplaces hsub hleaves hgiven hkey
    obtain ⟨⟨hparents, -, hf⟩, hops, e?, k, k', hled, hgives⟩ := hgiven _ hleaf
    obtain ⟨owner', table, link', r', polymorphic, known, inside, several, inner?, primary, k₁,
      hasked, -, hreferring, ⟨info, hinfo⟩, hjoin, hinner, -⟩ :=
      Context.related_gives hparents hled hgives
    have hsame : link' = link := congrArg Prod.snd (Option.some.inj (hasked.symm.trans hlink))
    obtain rfl : r' = r := by
      have hfound := hreferring.relation?_eq
      rw [hsame, hrelation] at hfound
      exact (Option.some.inj hfound).symm
    have hknown : (s.context options names).IsKnown r'.collection := .collection hinfo
    obtain ⟨hinsideJoins, hmade⟩ := Context.made_of_keysWith hf hknown hjoin hinner
    have hsegments := (hleaves _ hleaf).2
    refine ih hinsideJoins hmade.charted (fun path place hpath hplace => hdeclared _ ?_)
      (Context.segments_of_mem_filterPaths hsegments)
      (Context.segments_of_mem_leaves f (List.nil_subset _) hsegments) ?_ hkey
    · exact hmade.charted.isDeclared hs (hs.isKnown hknown)
        (Context.isPath_of_mem_filterPaths isPath_nil hf) hinsideJoins hmade.ends path place hpath
        hplace
    · exact Context.isGiven_of_leavesGive hf ((Hops.Led.empty _).joinFilter hf hjoin)
        (Context.leavesGive_condition? [] f hinner)

end

end JsonSql
