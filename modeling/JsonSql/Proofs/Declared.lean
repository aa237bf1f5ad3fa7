import JsonSql.Proofs.Links
import JsonSql.Proofs.Prefixes
import JsonSql.Proofs.Walks
import JsonSql.Schema.Validity

set_option autoImplicit false

/-!
# Schemas that fit together

What the check of a schema establishes: primary keys and foreign keys are declared fields, and
relations lead to declared collections (`Schema.fitsTogether_of_validate`).  So a link along a
relation of the schema leads from a declared collection to declared ones, and whatever a compilation
has looked up once is declared.
-/

namespace JsonSql

open JsonSql.Sql

/-! ## The check of a schema -/

/-- The names in a schema denote what is declared. -/
structure Schema.FitsTogether (s : Schema) : Prop where
  primary : ∀ name c, s.collection? name = some c → (s.field? name c.info.primary).isSome
  field : ∀ r ∈ s.relations, (s.field? r.collection r.field).isSome
  target : ∀ r ∈ s.relations, ∀ target ∈ r.targets, (s.collection? target).isSome

namespace Schema

variable {s : Schema}

/-- A collection that has a field is declared. -/
theorem isSome_collection?_of_field? {collection name : String}
    (h : (s.field? collection name).isSome) : (s.collection? collection).isSome := by
  obtain ⟨f, hf⟩ := Option.isSome_iff_exists.mp h
  obtain ⟨c, hc, -⟩ := Option.bind_eq_some_iff.mp hf
  exact Option.isSome_iff_exists.mpr ⟨c, hc⟩

theorem field?_of_collection? {name field : String} {c : Collection}
    (h : s.collection? name = some c) : s.field? name field = c.field? field := by
  rw [Schema.field?, h, Option.bind_some]

theorem primary_of_checkCollections {collections : List Collection} {seen : List String}
    (h : checkCollections seen collections = .ok ()) :
    ∀ c ∈ collections, (c.field? c.info.primary).isSome := by
  induction collections generalizing seen with
  | nil =>
    intro c hc
    cases hc
  | cons first rest ih =>
    rw [checkCollections] at h
    split at h
    · cases h
    · split at h
      · cases h
      · next hprimary =>
        intro c hc
        rcases List.mem_cons.mp hc with rfl | hc
        · exact Option.isSome_iff_ne_none.mpr (by simpa using hprimary)
        · exact ih h c hc

/-- A relation that passes its check starts at a declared field and refers to declared
collections. -/
theorem ends_of_checkRelation {r : Relation} (h : s.checkRelation r = .ok ()) :
    (s.field? r.collection r.field).isSome ∧
      ∀ target ∈ r.targets, (s.collection? target).isSome := by
  unfold checkRelation at h
  split at h
  · cases h
  · next source hsource =>
    split at h
    · cases h
    · next hfield =>
      split at h
      · cases h
      · split at h
        · cases h
        · next hnone =>
          refine ⟨?_, fun target htarget => ?_⟩
          · rw [field?_of_collection? hsource]
            exact Option.isSome_iff_ne_none.mpr (by simpa using hfield)
          · exact Option.isSome_iff_ne_none.mpr (by
              simpa using List.find?_eq_none.mp hnone target htarget)

/-- The parts of a check that all pass. -/
theorem ok_of_forM {ε α : Type} {check : α → Except ε Unit} {items : List α}
    (h : items.forM check = .ok ()) : ∀ item ∈ items, check item = .ok () := by
  induction items with
  | nil =>
    intro item hitem
    cases hitem
  | cons first rest ih =>
    rw [List.forM, Except.bind_eq_ok_iff] at h
    obtain ⟨⟨⟩, hfirst, hrest⟩ := h
    intro item hitem
    rcases List.mem_cons.mp hitem with rfl | hitem
    · exact hfirst
    · exact ih hrest item hitem

/-- A schema that passes its check fits together. -/
theorem fitsTogether_of_validate {summary : SchemaSummary} (h : s.validate = .ok summary) :
    s.FitsTogether := by
  unfold validate at h
  simp only [Except.bind_eq_ok_iff] at h
  obtain ⟨⟨⟩, hcollections, ⟨⟩, hrelations, -⟩ := h
  refine ⟨fun name c hc => ?_, fun r hr => ?_, fun r hr => ?_⟩
  · rw [field?_of_collection? hc]
    exact primary_of_checkCollections hcollections c (List.mem_of_find?_eq_some hc)
  · exact (ends_of_checkRelation (ok_of_forM hrelations r hr)).1
  · exact (ends_of_checkRelation (ok_of_forM hrelations r hr)).2

/-! ## Declared columns -/

/-- A column of a collection: a declared field, or the discriminator of a polymorphic key. -/
def HasColumn (s : Schema) (collection name : String) : Prop :=
  (s.field? collection name).isSome ∨
    ∃ r ∈ s.relations, r.collection = collection ∧ r.info.discriminator = some name

instance (s : Schema) (collection name : String) : Decidable (s.HasColumn collection name) :=
  inferInstanceAs (Decidable (_ ∨ _))

theorem isSome_field?_of_mem {collection : String} {f : Field} (h : f ∈ s.fieldsOf collection) :
    (s.field? collection f.name).isSome := by
  unfold fieldsOf at h
  cases hc : s.collection? collection with
  | none =>
    rw [hc] at h
    cases h
  | some c =>
    rw [hc] at h
    rw [field?_of_collection? hc, Collection.field?, List.find?_isSome]
    exact ⟨f, h, by simp⟩

end Schema

/-! ## Links of a schema that fits together -/

/-- The collection that a link leads to, if it may: a polymorphic key leads to the collections that
it is allowed to refer to. -/
def Link.admitted? : Link → Option String
  | .manyToAny r scope => scope.filter r.info.allowed.contains
  | other => other.target?

theorem FollowedKey.admitted?_link (owner : String) (key : FollowedKey) :
    (key.link owner).admitted? = some key.collection := by
  obtain ⟨collection, field, none | column⟩ := key <;> rfl

namespace Schema.FitsTogether

variable {s : Schema} {owner : String} {link : Link}

/-- The collection at the other end of a link is declared. -/
theorem admitted? (hs : s.FitsTogether) (hlink : link.IsStored s.relations owner)
    {target : String} (h : link.admitted? = some target) : (s.collection? target).isSome := by
  cases hlink with
  | none => cases h
  | @manyToOne r hr _ _ =>
    have hrelated : r.related = some target := h
    refine hs.target r hr target ?_
    rw [Relation.targets, hrelated]
    exact List.mem_singleton_self target
  | @manyToAny r scope hr _ hnone =>
    obtain ⟨-, hallowed⟩ := Option.filter_eq_some_iff.mp h
    refine hs.target r hr target ?_
    rw [Relation.targets, hnone]
    exact List.contains_iff_mem.mp hallowed
  | @oneToMany r hr _ | @oneToAny r hr _ _ =>
    cases h
    exact Schema.isSome_collection?_of_field? (hs.field r hr)

/-- A link leads to a declared collection, or to that of a key which it follows back. -/
theorem of_link (hs : s.FitsTogether) {P : String → Prop}
    (hdeclared : ∀ name, (s.collection? name).isSome → P name) {segment target : String}
    (hkey : ∀ key, followedKey? segment = some key → P key.collection)
    (h : (JsonSql.link s.relations owner segment).admitted? = some target) : P target := by
  rcases link_cases s.relations owner segment with ⟨key, hfollowed, hlink⟩ | ⟨-, hstored⟩
  · rw [hlink, FollowedKey.admitted?_link] at h
    exact Option.some.inj h ▸ hkey key hfollowed
  · exact hdeclared target (hs.admitted? hstored h)

/-- A link leads to a declared collection, unless it follows back a key of one that is not. -/
theorem declared_of_link (hs : s.FitsTogether) {segment target : String}
    (hkey : ∀ key, followedKey? segment = some key → (s.collection? key.collection).isSome)
    (h : (JsonSql.link s.relations owner segment).admitted? = some target) :
    (s.collection? target).isSome :=
  hs.of_link (P := fun name => (s.collection? name).isSome) (fun _ => id) hkey h

/-- The key of a link is a declared field. -/
theorem relation? (hs : s.FitsTogether) (hlink : link.IsStored s.relations owner)
    {r : Relation} (h : link.relation? = some r) :
    r ∈ s.relations ∧ (s.field? r.collection r.field).isSome := by
  have hmem : r ∈ s.relations := by
    cases hlink with
    | none => cases h
    | manyToOne hr | manyToAny _ hr | oneToMany hr | oneToAny hr =>
      cases h
      exact hr
  exact ⟨hmem, hs.field r hmem⟩

end Schema.FitsTogether

/-! ## What has been looked up -/

/-- A collection that is known to exist: it was looked up, a field of it was, or a relation starts
there. -/
inductive Context.IsKnown (c : Context) (name : String) : Prop
  | collection {info : CollectionInfo} : c.provider.collection name = .ok (some info) →
      IsKnown c name
  | field {field : String} {f : Field} : c.provider.field name field = .ok (some f) →
      IsKnown c name
  | relation {r : Relation} : r ∈ c.relations → r.collection = name → IsKnown c name

namespace Schema

variable {s : Schema} {options : Options} {names : Nat → String}

theorem isSome_collection?_of_provider {name : String} {info : CollectionInfo}
    (h : s.provider.collection name = .ok (some info)) : (s.collection? name).isSome := by
  obtain ⟨c, hc, -⟩ := Option.map_eq_some_iff.mp (Except.ok.inj h)
  exact Option.isSome_iff_exists.mpr ⟨c, hc⟩

/-- The primary key of a collection is a declared field. -/
theorem FitsTogether.primary_of_provider (hs : s.FitsTogether) {name : String}
    {info : CollectionInfo} (h : s.provider.collection name = .ok (some info)) :
    (s.field? name info.primary).isSome := by
  obtain ⟨c, hc, rfl⟩ := Option.map_eq_some_iff.mp (Except.ok.inj h)
  exact hs.primary name c hc

/-- A primary key that was looked up is a declared field. -/
theorem FitsTogether.primary_gives (hs : s.FitsTogether) {name primary : String} {k k' : Nat}
    (h : ((s.context options names).primary name).Gives k primary k') :
    (s.field? name primary).isSome := by
  obtain ⟨info, hinfo, rfl, -⟩ := Context.primary_gives.mp h
  exact hs.primary_of_provider hinfo

/-- What is known to exist is declared. -/
theorem FitsTogether.isKnown (hs : s.FitsTogether) {name : String}
    (h : (s.context options names).IsKnown name) : (s.collection? name).isSome := by
  cases h with
  | collection hinfo => exact isSome_collection?_of_provider hinfo
  | field hf =>
    exact isSome_collection?_of_field? (Option.isSome_iff_exists.mpr ⟨_, Except.ok.inj hf⟩)
  | relation hr hstarts => exact hstarts ▸ isSome_collection?_of_field? (hs.field _ hr)

end Schema

end JsonSql
