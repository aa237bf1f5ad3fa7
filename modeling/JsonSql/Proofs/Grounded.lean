import JsonSql.Proofs.Destinations
import JsonSql.Proofs.References
import JsonSql.Proofs.Segments

set_option autoImplicit false

/-!
# Statements of declared names

Over a schema that fits together, a statement names declared things only: its tables are declared
collections, and its columns are columns of the collections that their tables stand for
(`isGrounded_of_makes`).  For the keys that segments follow back this has to be asked: the
compilation looks up their collections on most ways, but never their fields.
-/

namespace JsonSql

open JsonSql.Sql

/-! ## Keys that are followed back -/

/-- The names in a key are declared. -/
structure Schema.Declares (s : Schema) (key : FollowedKey) : Prop where
  collection : (s.collection? key.collection).isSome
  field : (s.field? key.collection key.field).isSome
  discriminator : ∀ column, key.discriminator = some column →
    (s.field? key.collection column).isSome

/-- What is asked of the keys that segments follow back: their fields are declared if their
collection is, and their collection is if the key stands in the parentheses of a function. -/
structure Schema.Grounds (s : Schema) (segments : List String) : Prop where
  fields : ∀ key ∈ followedIn segments, (s.collection? key.collection).isSome → s.Declares key
  functions : ∀ key ∈ followedInFunctions s segments, (s.collection? key.collection).isSome

namespace Schema

variable {s : Schema} {owner segment : String} {segments : List String} {r : Relation}

/-- A key that a whole segment follows back is declared if its collection is. -/
theorem Grounds.declares (h : s.Grounds segments) (hsegment : segment ∈ segments)
    {key : FollowedKey} (hkey : followedKey? segment = some key)
    (hcollection : (s.collection? key.collection).isSome) : s.Declares key :=
  h.fields key (mem_followedIn hsegment hkey) hcollection

/-- The columns of a relation are there. -/
structure HasColumnsOf (s : Schema) (r : Relation) : Prop where
  field : s.HasColumn r.collection r.field
  discriminator : ∀ column, r.info.discriminator = some column → s.HasColumn r.collection column

/-- The columns of a link are there, if those that the segment may name are declared. -/
theorem FitsTogether.hasColumnsOf (hs : s.FitsTogether)
    (hkey : ∀ key, followedKey? segment = some key → s.Declares key)
    (h : (link s.relations owner segment).relation? = some r) : s.HasColumnsOf r := by
  rcases link_cases s.relations owner segment with ⟨key, hfollowed, hlink⟩ | ⟨-, hstored⟩
  · rw [hlink] at h
    obtain ⟨hcollection, hfield, hdiscriminator⟩ := FollowedKey.relation?_link h
    have hdeclares := hkey key hfollowed
    refine ⟨.inl ?_, fun column hcolumn => .inl ?_⟩
    · rw [hcollection, hfield]
      exact hdeclares.field
    · rw [hcollection]
      exact hdeclares.discriminator column (hdiscriminator ▸ hcolumn)
  · obtain ⟨hmem, hfield⟩ := hs.relation? hstored h
    exact ⟨.inl hfield, fun column hcolumn => .inr ⟨r, hmem, rfl, hcolumn⟩⟩

end Schema

/-! ## Places -/

/-- A place is a declared collection, and its table is in scope. -/
structure Place.IsGrounded (s : Schema) (tables : List TableRef) (place : Place) : Prop where
  declared : (s.collection? place.collection).isSome
  inScope : ∃ t ∈ tables, t.referenceName = place.table ∧ t.table = place.collection

/-- A column of such a place is declared. -/
theorem Place.IsGrounded.isDeclared {s : Schema} {tables : List TableRef} {place : Place}
    {name : String} (h : place.IsGrounded s tables) (hcolumn : s.HasColumn place.collection name) :
    (⟨tables, some place.table, name⟩ : Reference).IsDeclared s := by
  obtain ⟨t, ht, hname, htable⟩ := h.inScope
  exact ⟨t, ht, congrArg some hname.symm, htable ▸ hcolumn⟩

/-- Every column that an expression names is declared, and so is every table that is read in it. -/
structure Sql.Expr.IsGrounded (s : Schema) (tables : List TableRef) (e : Expr) : Prop where
  references : ∀ reference ∈ e.references tables, reference.IsDeclared s
  tables : ∀ select ∈ e.selects, ∀ t ∈ select.tables, (s.collection? t.table).isSome

namespace Sql.Expr.IsGrounded

variable {s : Schema} {tables : List TableRef} {column e : Expr}

/-- An expression without statements is grounded if its columns are. -/
theorem of_selects (hselects : e.selects = [])
    (h : ∀ reference ∈ e.references tables, reference.IsDeclared s) : e.IsGrounded s tables := by
  refine ⟨h, fun select hselect => ?_⟩
  rw [hselects] at hselect
  cases hselect

/-- What is made of a column is grounded if the column is. -/
theorem congr (h : column.IsGrounded s tables)
    (hreferences : e.references tables = column.references tables)
    (hselects : e.selects = column.selects) : e.IsGrounded s tables := by
  refine ⟨?_, ?_⟩
  · rw [hreferences]
    exact h.references
  · rw [hselects]
    exact h.tables

/-- A column of a place is grounded. -/
theorem of_place {place : Place} {name : String} (hplace : place.IsGrounded s tables)
    (hcolumn : s.HasColumn place.collection name) : (of place.table name).IsGrounded s tables := by
  refine of_selects (selects_of _ _) fun reference hreference => ?_
  rw [references_of, List.mem_singleton] at hreference
  rw [hreference]
  exact hplace.isDeclared hcolumn

theorem equals {left right : Expr} (hleft : left.IsGrounded s tables)
    (hright : right.IsGrounded s tables) : (equals left right).IsGrounded s tables := by
  refine ⟨fun reference hreference => ?_, fun select hselect => ?_⟩
  · rw [Expr.equals, Expr.references, List.mem_append] at hreference
    exact hreference.elim (hleft.references reference) (hright.references reference)
  · rw [selects_equals, List.mem_append] at hselect
    exact hselect.elim (hleft.tables select) (hright.tables select)

theorem refersTo {place : Place} {discriminator field collection : String} {key : Expr}
    (hplace : place.IsGrounded s tables)
    (hdiscriminator : s.HasColumn place.collection discriminator)
    (hfield : s.HasColumn place.collection field) (hkey : key.IsGrounded s tables) :
    (JsonSql.refersTo place.table discriminator field collection key).IsGrounded s tables := by
  refine ⟨fun reference hreference => ?_, ?_⟩
  · rw [references_refersTo, List.mem_cons, List.mem_cons] at hreference
    rcases hreference with rfl | rfl | hreference
    · exact hplace.isDeclared hdiscriminator
    · exact hplace.isDeclared hfield
    · exact hkey.references reference hreference
  · rw [selects_refersTo]
    exact hkey.tables

end Sql.Expr.IsGrounded

/-- Every column that a statement names is declared, and so is every table that it reads at any
depth. -/
structure Sql.Query.IsGrounded (s : Schema) (outer : List TableRef) (q : Query) : Prop where
  references : ∀ reference ∈ q.references outer, reference.IsDeclared s
  tables : ∀ select ∈ q.selects, ∀ t ∈ select.tables, (s.collection? t.table).isSome

/-- A statement is grounded if its tables are declared and its parts are grounded. -/
theorem Sql.Query.isGrounded_of_parts {s : Schema} {outer : List TableRef} {q : Query}
    (htables : ∀ t ∈ q.tables, (s.collection? t.table).isSome)
    (hparts : ∀ e ∈ q.parts, e.IsGrounded s (q.tables ++ outer)) : q.IsGrounded s outer := by
  refine ⟨fun reference hreference => ?_, fun select hselect => ?_⟩
  · rw [Query.references_parts] at hreference
    obtain ⟨e, he, hreference⟩ := List.mem_flatMap.mp hreference
    exact (hparts e he).references reference hreference
  · rw [Query.selects_parts, List.mem_cons, List.mem_flatMap] at hselect
    rcases hselect with rfl | ⟨e, he, hselect⟩
    · exact htables
    · exact (hparts e he).tables select hselect

theorem references_ofFunction {tables : List TableRef} {column e : Expr}
    (h : IsFunctionOf column e) : e.references tables = column.references tables := by
  cases h with
  | itself => rfl
  | part d part kind => exact references_datePart d part kind
  | length he => exact references_jsonArrayLength? he

theorem references_ofReading {tables : List TableRef} {column e : Expr}
    (h : IsReading column e) : e.references tables = column.references tables := by
  cases h with
  | itself => rfl
  | predicate hpredicate => exact hpredicate.references
  | aggregation a => exact references_aggregation a

theorem Place.IsGrounded.mono {s : Schema} {tables more : List TableRef} {place : Place}
    (h : place.IsGrounded s tables) (hsub : tables ⊆ more) : place.IsGrounded s more := by
  obtain ⟨t, ht, hrest⟩ := h.inScope
  exact ⟨h.declared, t, hsub ht, hrest⟩

section Joins

variable {s : Schema} {options : Options} {names : Nat → String} {tables : List TableRef}
  {collection segment : String} {segments : List String} {hops : Hops} {k k' : Nat}

/-! ## Joins -/

/-- The condition of a join between grounded places is grounded. -/
theorem isGrounded_of_joinTarget (hs : s.FitsTogether) {place there : Place} {e : Expr}
    (hkey : ∀ key, followedKey? segment = some key → s.Declares key)
    (hplace : place.IsGrounded s tables) (hthere : there.IsGrounded s tables)
    (h : ((s.context options names).joinTarget place segment there.table
      (link s.relations place.collection segment)).Gives k (there.collection, e) k') :
    e.IsGrounded s tables := by
  have hcolumns (r : Relation)
      (hr : (link s.relations place.collection segment).relation? = some r) :
      s.HasColumnsOf r := hs.hasColumnsOf hkey hr
  have hstarts := link_startsAt s.relations place.collection segment
  generalize link s.relations place.collection segment = along at h hcolumns hstarts
  cases along with
  | none => exact absurd h Compile.not_gives_throw
  | manyToOne r =>
    obtain hstarts : r.collection = place.collection := hstarts
    unfold Context.joinTarget at h
    dsimp only at h
    split at h
    · exact absurd h Compile.not_gives_throw
    · simp only [Compile.gives_bind, Compile.gives_pure, Prod.mk.injEq] at h
      obtain ⟨primary, k₁, hprimary, ⟨htarget, rfl⟩, -⟩ := h
      refine .equals (.of_place hplace (hstarts ▸ (hcolumns r rfl).field)) (.of_place hthere ?_)
      exact .inl (htarget ▸ hs.primary_gives hprimary)
  | manyToAny r scope =>
    obtain hstarts : r.collection = place.collection := hstarts
    unfold Context.joinTarget at h
    dsimp only at h
    split at h
    · exact absurd h Compile.not_gives_throw
    · split at h
      · simp only [Compile.gives_bind, Compile.gives_pure, discriminator_gives, Prod.mk.injEq] at h
        obtain ⟨column, k₁, ⟨hcolumn, -⟩, primary, k₂, hprimary, ⟨htarget, rfl⟩, -⟩ := h
        refine .refersTo hplace (hstarts ▸ (hcolumns r rfl).discriminator column hcolumn)
          (hstarts ▸ (hcolumns r rfl).field) (.of_place hthere ?_)
        exact .inl (htarget ▸ hs.primary_gives hprimary)
      · exact absurd h Compile.not_gives_throw
  | oneToMany r =>
    rw [Context.joinTarget] at h
    simp only [Compile.gives_bind, Compile.gives_pure, Prod.mk.injEq] at h
    obtain ⟨primary, k₁, hprimary, ⟨htarget, rfl⟩, -⟩ := h
    refine .equals (.of_place hplace (.inl (hs.primary_gives hprimary))) (.of_place hthere ?_)
    exact htarget ▸ (hcolumns r rfl).field
  | oneToAny r =>
    rw [Context.joinTarget] at h
    simp only [Compile.gives_bind, Compile.gives_pure, discriminator_gives, Prod.mk.injEq] at h
    obtain ⟨column, k₁, ⟨hcolumn, -⟩, primary, k₂, hprimary, ⟨htarget, rfl⟩, -⟩ := h
    refine .refersTo hthere (htarget ▸ (hcolumns r rfl).discriminator column hcolumn)
      (htarget ▸ (hcolumns r rfl).field) (.of_place hplace ?_)
    exact .inl (hs.primary_gives hprimary)

/-! ## Columns -/

/-- Every place on record is grounded. -/
def Hops.IsGrounded (s : Schema) (tables : List TableRef) (collection : String) (hops : Hops) :
    Prop :=
  ∀ path place, IsPath path → hops.place? collection path = some place → place.IsGrounded s tables

/-- The condition of rows that count is grounded. -/
theorem isGrounded_of_counts {place there : Place} {primary : String} {along : Link} {r : Relation}
    {e : Expr} (hcolumns : s.HasColumnsOf r) (hplace : place.IsGrounded s tables)
    (hprimary : s.HasColumn place.collection primary) (hthere : there.IsGrounded s tables)
    (hcollection : there.collection = r.collection)
    (h : Counts place.collection place.table primary there.table along r e) :
    e.IsGrounded s tables := by
  cases h with
  | plain =>
    exact .equals (.of_place hthere (hcollection ▸ hcolumns.field)) (.of_place hplace hprimary)
  | @polymorphic _ column hdiscriminator =>
    exact .refersTo hthere (hcollection ▸ hcolumns.discriminator column hdiscriminator)
      (hcollection ▸ hcolumns.field) (.of_place hplace hprimary)

/-- The column of a path is grounded. -/
theorem isGrounded_of_resolves (hs : s.FitsTogether) (hg : s.Grounds segments)
    {path : List String} {column : Expr} (hpath : IsPath path) (hsub : path ⊆ segments)
    (hhops : hops.IsGrounded s tables collection)
    (h : (s.context options names).Resolves collection hops path column) :
    column.IsGrounded s tables := by
  cases h with
  | @field before last place f _ hplace hf hfunction =>
    have hbefore : IsPath before := fun segment hmem => hpath segment (List.mem_append_left _ hmem)
    have hdeclared : (s.field? place.collection (splitFunction last).2).isSome :=
      Option.isSome_iff_exists.mpr ⟨f, Except.ok.inj hf⟩
    exact (Sql.Expr.IsGrounded.of_place (hhops before place hbefore hplace) (.inl hdeclared)).congr
      (references_ofFunction hfunction) (by rw [hfunction.selects, selects_of])
  | @count before last function primary name place f r condition info hplace hfunction hf hinfo
      hprimary hcounts =>
    have hbefore : IsPath before := fun segment hmem => hpath segment (List.mem_append_left _ hmem)
    have hlast : last ∈ segments :=
      hsub (List.mem_append_right before (List.mem_singleton_self last))
    have hfollowed (key : FollowedKey) (hkey : followedKey? (splitFunction last).2 = some key) :
        key ∈ followedInFunctions s segments :=
      mem_followedInFunctions hlast (Prod.ext hfunction rfl) (Except.ok.inj hf) hkey
    have hdeclared : (s.collection? r.collection).isSome :=
      hs.declared_of_link (fun key hkey => hg.functions key (hfollowed key hkey)) hcounts.admitted?
    have hrelation : (link s.relations place.collection (splitFunction last).2).relation? =
        some r := by
      exact hcounts.relation?
    have hcolumns := hs.hasColumnsOf (fun key hkey => hg.fields key
      (followedInFunctions_subset (hfollowed key hkey)) (hg.functions key (hfollowed key hkey)))
      hrelation
    -- the rows that count are in scope before those that they are counted for
    have hthere : Place.IsGrounded s (⟨r.collection, some name⟩ :: tables)
        ⟨r.collection, name, false⟩ :=
      ⟨hdeclared, _, List.mem_cons_self, rfl, rfl⟩
    have hplace' := (hhops before place hbefore hplace).mono
      (List.subset_cons_self ⟨r.collection, some name⟩ tables)
    have hprimaryColumn : s.HasColumn place.collection primary :=
      .inl (hprimary ▸ hs.primary_of_provider hinfo)
    have hcondition := isGrounded_of_counts hcolumns hplace' hprimaryColumn hthere rfl hcounts
    refine ⟨fun reference hreference => ?_, fun select hselect t ht => ?_⟩
    · refine hcondition.references reference ?_
      simpa [Expr.references, Query.references, itemsReferences, Item.references, joinsReferences,
        conditionReferences, exprsReferences, ordersReferences, references_countRows]
        using hreference
    · rw [selects_counted hcounts.selects, List.mem_singleton] at hselect
      rw [hselect] at ht
      have hsame : t = ⟨r.collection, some name⟩ := by simpa [Query.tables] using ht
      rw [hsame]
      exact hdeclared

/-! ## Records of joins -/

/-- The places along a path that leads to a known collection are known. -/
theorem Hops.Charted.isKnown_of_prefix {c : Context} (h : hops.Charted c collection)
    {before : List String} :
    ∀ {path : List String} {place : Place}, IsPath path → before <+: path →
      hops.place? collection path = some place → c.IsKnown place.collection →
      ∃ place, hops.place? collection before = some place ∧ c.IsKnown place.collection := by
  intro path
  induction path using List.reverseRecOn with
  | nil =>
    intro place _ halong hplace hknown
    exact ⟨place, List.prefix_nil.mp halong ▸ hplace, hknown⟩
  | append_singleton path segment ih =>
    intro place hpath halong hplace hknown
    rcases List.prefix_concat_iff.mp halong with rfl | halong
    · exact ⟨place, hplace, hknown⟩
    · rcases Hops.place?_cases hplace with ⟨hnil, -⟩ | ⟨-, hop, hfound, rfl⟩
      · cases List.append_eq_nil_iff.mp hnil with | intro _ hnone => cases hnone
      · obtain ⟨there, hthere, hknown⟩ := h.rooted path segment hop hpath hfound
        exact ih (fun s hs => hpath s (List.mem_append_left _ hs)) halong hthere hknown

/-- What holds of declared collections holds of every place on record, if it holds of the keys that
are followed back on paths whose ends are not looked up. -/
theorem Hops.Charted.of_declared (hs : s.FitsTogether) {P : String → Prop}
    (hdeclared : ∀ name, (s.collection? name).isSome → P name) {inner : Bool}
    {paths : List (List String)} {scope : Scope}
    (hcharted : scope.hops.Charted (s.context options names) collection)
    (hroot : (s.collection? collection).isSome) (hpaths : ∀ path ∈ paths, IsPath path)
    (hjoins : (s.context options names).JoinsAlong inner collection paths scope)
    (hends : ∀ path ∈ paths, (s.context options names).Ends collection scope.hops path ∨
      ∀ segment ∈ path, ∀ key, followedKey? segment = some key → P key.collection) :
    ∀ path place, IsPath path → scope.hops.place? collection path = some place →
      P place.collection := by
  intro path place hpath hplace
  rcases Hops.place?_cases hplace with ⟨-, rfl⟩ | ⟨hne, hop, hfound, rfl⟩
  · exact hdeclared collection hroot
  · obtain ⟨⟨walked, hwalked, halong, -⟩, -⟩ := hjoins.of_get? hpath hne hfound
    rcases hends walked hwalked with ⟨there, hthere, hknown⟩ | hkeys
    · have hinit : IsPath walked.dropLast := fun segment hmem =>
        hpaths walked hwalked segment (List.dropLast_subset walked hmem)
      obtain ⟨place, hsame, hknown⟩ :=
        hcharted.isKnown_of_prefix hinit halong hthere hknown
      rw [hplace] at hsame
      exact Option.some.inj hsame ▸ hdeclared _ (hs.isKnown hknown)
    · obtain ⟨before, segment, rfl⟩ : ∃ before segment, path = before ++ [segment] :=
        ⟨_, _, (List.dropLast_append_getLast hne).symm⟩
      have hreached := hcharted.reached _ hop hne hpath hfound
      rw [Context.reach?_concat] at hreached
      obtain ⟨owner, -, hadmitted⟩ := Option.bind_eq_some_iff.mp hreached
      have hsegment : segment ∈ walked := List.dropLast_subset walked
        (halong.subset (List.mem_append_right before (List.mem_singleton_self segment)))
      exact hs.of_link hdeclared (hkeys segment hsegment) hadmitted

/-- Every place on record is a declared collection, if the ends of all paths are looked up. -/
theorem Hops.Charted.isDeclared (hs : s.FitsTogether) {inner : Bool} {paths : List (List String)}
    {scope : Scope} (hcharted : scope.hops.Charted (s.context options names) collection)
    (hroot : (s.collection? collection).isSome) (hpaths : ∀ path ∈ paths, IsPath path)
    (hjoins : (s.context options names).JoinsAlong inner collection paths scope)
    (hends : ∀ path ∈ paths, (s.context options names).Ends collection scope.hops path) :
    ∀ path place, IsPath path → scope.hops.place? collection path = some place →
      (s.collection? place.collection).isSome :=
  hcharted.of_declared hs (P := fun name => (s.collection? name).isSome) (fun _ => id) hroot
    hpaths hjoins fun path hpath => .inl (hends path hpath)

/-- The tables that a statement reads are in scope in it. -/
theorem Context.JoinsAlong.inScope {c : Context} {inner : Bool} {paths : List (List String)}
    {scope : Scope} (h : c.JoinsAlong inner collection paths scope)
    (hsource : scope.query.source = some ⟨collection, none⟩) :
    ∀ path place, IsPath path → scope.hops.place? collection path = some place →
      ∃ t ∈ scope.query.tables, t.referenceName = place.table ∧ t.table = place.collection := by
  intro path place hpath hplace
  rcases Hops.place?_cases hplace with ⟨-, rfl⟩ | ⟨hne, hop, hfound, rfl⟩
  · refine ⟨⟨collection, none⟩, ?_, rfl, rfl⟩
    rw [Query.tables, hsource]
    exact List.mem_append_right _ (List.mem_singleton_self _)
  · obtain ⟨walked, hmatches⟩ := h
    refine ⟨⟨hop.collection, some hop.name⟩, ?_, rfl, rfl⟩
    rw [Query.tables, hmatches.joined]
    exact List.mem_append_left _
      (List.mem_map_of_mem (hmatches.mem_of_get? hpath hne hfound))

/-- The tables of a statement are declared, if the places on record are. -/
theorem Context.JoinsAlong.tables_declared {c : Context} {inner : Bool}
    {paths : List (List String)} {scope : Scope} (h : c.JoinsAlong inner collection paths scope)
    (hsource : scope.query.source = some ⟨collection, none⟩)
    (hdeclared : ∀ path place, IsPath path → scope.hops.place? collection path = some place →
      (s.collection? place.collection).isSome) :
    ∀ t ∈ scope.query.tables, (s.collection? t.table).isSome := by
  intro t ht
  obtain ⟨walked, hmatches⟩ := h
  rw [Query.tables, hmatches.joined, hsource, List.mem_append, List.mem_map] at ht
  rcases ht with ⟨⟨path, hop⟩, hentry, rfl⟩ | ht
  · refine hdeclared path hop.place
      (hmatches.paths path ((hmatches.complete path).mp (List.mem_map_of_mem hentry))) ?_
    rw [Hops.place?_of_ne_nil (hmatches.ne_nil hentry), hmatches.get?_of_mem hentry,
      Option.map_some]
  · rw [List.mem_singleton.mp ht]
    exact hdeclared [] (.root collection) isPath_nil rfl

/-! ## Statements -/

/-- Where a filter on related rows is asked, a place is on record. -/
theorem Context.IsAsked.place? {c : Context} {parents : List String} {key owner table : String}
    {along : Link} (h : c.IsAsked hops collection parents key owner table along)
    (hparents : IsPath parents) :
    ∃ path place, IsPath path ∧ hops.place? collection path = some place ∧
      place.collection = owner ∧ place.table = table := by
  rcases h.place with ⟨-, rfl, rfl, -⟩ | ⟨-, hop, hfound, rfl, rfl, -⟩
  · exact ⟨[], .root _, isPath_nil, rfl, rfl, rfl⟩
  · by_cases hnil : parents = []
    · refine ⟨[""], hop.place, ?_, ?_, rfl, rfl⟩
      · intro segment hsegment
        rw [List.mem_singleton.mp hsegment]
        exact List.not_mem_nil
      · rw [hnil] at hfound
        rw [Hops.place?_of_ne_nil (List.cons_ne_nil _ _)]
        exact congrArg (Option.map Hop.place) hfound
    · exact ⟨parents, hop.place, hparents, by
        rw [Hops.place?_of_ne_nil hnil, hfound, Option.map_some], rfl, rfl⟩

/-- A filter on related rows follows the link of its key, without blanks around it if the key is
followed back. -/
theorem Context.IsAsked.link_eq {c : Context} {parents : List String} {key owner table : String}
    {along : Link} (h : c.IsAsked hops collection parents key owner table along) :
    ∃ segment, along = c.link owner segment ∧
      ∀ followed, followedKey? segment = some followed → segment = Text.trim key := by
  rcases h.place with ⟨-, howner, -, hlink⟩ | ⟨-, hop, -, howner, -, hlink⟩
  · refine ⟨key, ?_, fun followed hkey => (trim_of_followedKey? hkey).symm⟩
    rw [hlink, howner]
  · refine ⟨Text.trim key, ?_, fun _ _ => rfl⟩
    rw [hlink, howner]

/-- What is made of paths and leaves is grounded, if the places on record are. -/
theorem isGrounded_of_makes (hs : s.FitsTogether) (hg : s.Grounds segments)
    {paths : List (List String)} {leaves : List Leaf} {e : Expr}
    (hpaths : ∀ path ∈ paths, IsPath path) (hsub : ∀ path ∈ paths, path ⊆ segments)
    (hleaves : ∀ leaf ∈ leaves, leaf.SegmentsIn segments)
    (hhops : hops.IsGrounded s tables collection)
    (h : (s.context options names).Makes collection paths leaves hops e) :
    e.IsGrounded s tables := by
  induction h generalizing tables with
  | rows =>
    refine .of_selects selects_countRows fun reference hreference => ?_
    rw [references_countRows] at hreference
    cases hreference
  | @keys collection paths leaves hops info hinfo =>
    have hprimary : s.HasColumn collection info.primary :=
      .inl (hs.primary_of_provider hinfo)
    have hroot := hhops [] (.root collection) isPath_nil rfl
    refine (Sql.Expr.IsGrounded.of_place hroot hprimary).congr ?_ ?_
    · simp [Expr.countDistinct, Expr.references, exprsReferences, Place.root]
    · simp [Expr.countDistinct, Expr.selects, exprsSelects, Place.root]
  | never =>
    refine .of_selects ?_ fun reference hreference => ?_
    · simp [Expr.equals, Expr.int, Expr.selects]
    · simp [Expr.equals, Expr.int, Expr.references] at hreference
  | @searched collection paths leaves hops fields f e hfields hf hpredicate =>
    have hroot := hhops [] (.root collection) isPath_nil rfl
    have hfield : s.HasColumn collection f.name := by
      obtain rfl : s.fieldsOf collection = fields := Except.ok.inj hfields
      exact .inl (Schema.isSome_field?_of_mem hf)
    exact (Sql.Expr.IsGrounded.of_place hroot hfield).congr hpredicate.references
      hpredicate.selects
  | @column collection paths leaves hops path column e hmem hpath hresolves hreading =>
    exact (isGrounded_of_resolves hs hg hpath (hsub path hmem) hhops hresolves).congr
      (references_ofReading hreading) hreading.selects
  | @joined collection paths leaves hops path before segment name target place e k k' hmem halong
      hplace hfound hjoined =>
    have hinit : IsPath path.dropLast := fun segment hsegment =>
      hpaths path hmem segment (List.dropLast_subset path hsegment)
    have hwhole : IsPath (before ++ [segment]) := fun segment hsegment =>
      hinit segment (halong.subset hsegment)
    have hthere := hhops (before ++ [segment]) ⟨target, name, false⟩ hwhole
      (by rw [Hops.place?_of_ne_nil (by simp), hfound]; rfl)
    have hsegment : segment ∈ segments := hsub path hmem (List.dropLast_subset path
      (halong.subset (List.mem_append_right before (List.mem_singleton_self segment))))
    have hbefore := hhops before place (fun s hs => hwhole s (List.mem_append_left _ hs)) hplace
    refine isGrounded_of_joinTarget hs (fun key hkey => ?_) hbefore hthere hjoined
    -- the collection of a key that is followed back is the one that is joined
    refine hg.declares hsegment hkey ?_
    have htarget := Context.admitted?_of_joinTarget hjoined
    rw [Context.link, link_of_followedKey? _ _ hkey, FollowedKey.admitted?_link] at htarget
    exact Option.some.inj htarget ▸ hthere.declared
  | @related collection paths leaves hops parents key owner table primary quantifier f link r
      polymorphic known scope e? info hleaf hparents hf hasked hreferring hknown hinfo hprimary
      hjoins hinner hends hparts ih =>
    obtain ⟨hkeyIn, hsegments⟩ := hleaves _ hleaf
    obtain ⟨segment, hlink, htrim⟩ := hasked.link_eq
    have hrelation : (JsonSql.link s.relations owner segment).relation? = some r := by
      rw [← hreferring.relation?_eq, hlink]
      rfl
    have hcolumns : s.HasColumnsOf r := by
      refine hs.hasColumnsOf (fun followed hfollowed => ?_) hrelation
      have hmem : segment ∈ segments := by
        rw [htrim followed hfollowed]
        exact hkeyIn (List.mem_append_right parents (List.mem_singleton_self _))
      refine hg.declares hmem hfollowed ?_
      rw [link_of_followedKey? _ _ hfollowed] at hrelation
      exact (FollowedKey.relation?_link hrelation).1 ▸ hs.isKnown hknown
    -- the statement of the keys, with its own tables in scope
    have hinside : ((s.context options names).JoinsAlong true r.collection
        ((s.context options names).filterPaths r.collection [] f)
        ⟨r.keysWith scope.query.joins (known.and? e?), scope.hops⟩) := hjoins
    have hwalked : ∀ path ∈ (s.context options names).filterPaths r.collection [] f, IsPath path :=
      Context.isPath_of_mem_filterPaths isPath_nil hf
    have hdeclared := hinner.isDeclared hs (hs.isKnown hknown) hwalked hinside hends
    have hplaces : scope.hops.IsGrounded s
        (r.keysWith scope.query.joins (known.and? e?)).tables r.collection :=
      fun path place hpath hplace =>
        ⟨hdeclared path place hpath hplace, hinside.inScope rfl path place hpath hplace⟩
    have hkeys : (r.keysWith scope.query.joins (known.and? e?)).IsGrounded s [] := by
      refine Sql.Query.isGrounded_of_parts (hinside.tables_declared rfl hdeclared) ?_
      rw [List.append_nil]
      intro part hpart
      by_cases hold : part ∈ (r.keysWith [] known).parts
      · have hroot := hplaces [] (.root r.collection) isPath_nil rfl
        rcases hreferring.parts hold with rfl | hpredicate | ⟨column, hcolumn, hpredicate⟩
        · exact .of_place hroot hcolumns.field
        · exact (Sql.Expr.IsGrounded.of_place hroot hcolumns.field).congr hpredicate.references
            hpredicate.selects
        · exact (Sql.Expr.IsGrounded.of_place hroot (hcolumns.discriminator column hcolumn)).congr
            hpredicate.references hpredicate.selects
      · exact ih part hpart hold hwalked (Context.segments_of_mem_filterPaths hsegments)
          (Context.segments_of_mem_leaves f (List.nil_subset _) hsegments) hplaces
    have hsubject : (if polymorphic then (Expr.of table primary).cast .text
        else .of table primary).IsGrounded s tables := by
      obtain ⟨path, place, hpath, hplace, rfl, rfl⟩ := hasked.place? hparents
      have hprimaryColumn : s.HasColumn place.collection primary :=
        .inl (hprimary ▸ hs.primary_of_provider hinfo)
      refine (Sql.Expr.IsGrounded.of_place (hhops path place hpath hplace) hprimaryColumn).congr
        ?_ ?_
      · cases polymorphic <;> simp [Expr.references]
      · cases polymorphic <;> simp [Expr.selects]
    refine ⟨fun reference hreference => ?_, fun select hselect => ?_⟩
    · rw [Expr.references, List.mem_append] at hreference
      exact hreference.elim (hsubject.references reference) (hkeys.references reference)
    · rw [Expr.selects, List.mem_append] at hselect
      exact hselect.elim (hsubject.tables select) (hkeys.tables select)

end Joins

end JsonSql
