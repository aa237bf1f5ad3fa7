import JsonSql.Proofs.Validated

set_option autoImplicit false

/-!
# Discriminators of polymorphic keys

A polymorphic key says with its discriminator, a column beside it, which collection it refers to.
The check of a schema does not look at discriminators: one that is missing makes the link back along
the key fail, and one that is no field of its collection is put into the statement all the same
(`discriminators_undeclared`).  Where each polymorphic key has a discriminator and these are
declared, none of this happens (`discriminators_declared`).
-/

namespace JsonSql

open JsonSql.Sql

/-- The relation of a link along, or back along, a polymorphic key. -/
def Link.polymorphic? : Link → Option Relation
  | .manyToAny r _ | .oneToAny r => some r
  | _ => Option.none

/-- Each polymorphic key has a discriminator, and discriminators are declared fields. -/
structure Schema.DeclaresDiscriminators (s : Schema) : Prop where
  named : ∀ r ∈ s.relations, r.related = none → r.info.discriminator.isSome
  declared : ∀ r ∈ s.relations, ∀ column ∈ r.info.discriminator,
    (s.field? r.collection column).isSome

/-- A failure for want of a discriminator. -/
def QueryError.isUnnamed : QueryError → Bool
  | .query (.noDiscriminator _ _) => true
  | _ => false

/-! ## Links -/

theorem Link.related_of_polymorphic? {relations : List Relation} {owner : String} {along : Link}
    {r : Relation} (h : along.polymorphic? = some r) (hstored : along.IsStored relations owner) :
    r ∈ relations ∧ r.related = Option.none := by
  cases hstored with
  | none | manyToOne | oneToMany => cases h
  | manyToAny _ hr _ hrelated | oneToAny hr hrelated _ =>
    cases h
    exact ⟨hr, hrelated⟩

section Links

variable {s : Schema} {owner segment : String} {r : Relation}

theorem discriminator_of_forwardLink? {field : String} {scope target : Option String}
    {stored : Relation} (h : forwardLink? owner field scope stored = some (.manyToAny r target)) :
    r.info.discriminator.isSome := by
  unfold forwardLink? at h
  split at h
  · split at h
    · cases h
    · split at h
      · next hnamed =>
        cases h
        exact hnamed.1
      · cases h
  · cases h

theorem backwardLink?_ne_manyToAny {field : String} {scope : Option String} (stored : Relation) :
    backwardLink? owner field stored ≠ some (.manyToAny r scope) := by
  intro h
  unfold backwardLink? at h
  split at h
  · split at h
    · split at h <;> cases h
    · split at h <;> cases h
  · cases h

/-- The key of a link along a polymorphic key of a schema has a discriminator, whether it is asked
for or not. -/
theorem discriminator_of_manyToAny {relations : List Relation} {scope : Option String}
    (h : link relations owner segment = .manyToAny r scope) : r.info.discriminator.isSome := by
  unfold link at h
  dsimp only at h
  rw [followLink?_eq] at h
  cases hkey : followedKey? segment with
  | some key =>
    rw [hkey] at h
    obtain ⟨collection, field, none | column⟩ := key <;> cases h
  | none =>
    rw [hkey] at h
    cases hforward : relations.findSome?
        (forwardLink? owner (splitScope segment).1 (splitScope segment).2) with
    | some found =>
      obtain ⟨stored, -, hstored⟩ := List.exists_of_findSome?_eq_some hforward
      rw [hforward] at h
      obtain rfl : found = .manyToAny r scope := h
      exact discriminator_of_forwardLink? hstored
    | none =>
      rw [hforward] at h
      cases hbackward : relations.findSome? (backwardLink? owner (splitScope segment).1) with
      | some found =>
        obtain ⟨stored, -, hstored⟩ := List.exists_of_findSome?_eq_some hbackward
        rw [hbackward] at h
        obtain rfl : found = .manyToAny r scope := h
        exact absurd hstored (backwardLink?_ne_manyToAny stored)
      | none =>
        rw [hbackward] at h
        cases h

/-- The key of a polymorphic link has a discriminator, if those of the schema do. -/
theorem Schema.DeclaresDiscriminators.isSome_of_link (hs : s.DeclaresDiscriminators)
    (h : (link s.relations owner segment).polymorphic? = some r) :
    r.info.discriminator.isSome := by
  rcases link_cases s.relations owner segment with ⟨key, -, hlink⟩ | ⟨-, hstored⟩
  · rw [hlink] at h
    obtain ⟨collection, field, none | column⟩ := key
    · cases h
    · cases h
      rfl
  · obtain ⟨hmem, hrelated⟩ := Link.related_of_polymorphic? h hstored
    exact hs.named r hmem hrelated

/-- It is a declared field, unless the segment follows back a key of its own. -/
theorem Schema.DeclaresDiscriminators.field_of_link (hs : s.DeclaresDiscriminators)
    (hkey : followedKey? segment = none)
    (h : (link s.relations owner segment).polymorphic? = some r) :
    ∃ column, r.info.discriminator = some column ∧ (s.field? r.collection column).isSome := by
  obtain ⟨column, hcolumn⟩ := Option.isSome_iff_exists.mp (hs.isSome_of_link h)
  have hstored := (link_cases s.relations owner segment).resolve_left (by
    rintro ⟨key, hsome, -⟩
    rw [hkey] at hsome
    cases hsome)
  obtain ⟨hmem, -⟩ := Link.related_of_polymorphic? h hstored.2
  exact ⟨column, hcolumn, hs.declared r hmem column hcolumn⟩

end Links

/-! ## Failures -/

section Failures

variable {c : Context} {along : Link} {bad : QueryError → Bool}

section Other

-- some failures for want of a discriminator, or for an operator
variable (hbad : ∀ e, e.isUnnamed = false → e.isOfOperator = false → bad e = false)
include hbad

theorem avoids_collection (name : String) : (c.collection name).Avoids bad := by
  unfold Context.collection
  refine .bind ?_ fun {answer _ _} _ => ?_
  · unfold Context.ask
    split
    · exact .pure _
    · exact .throw (hbad _ rfl rfl)
  · cases answer with
    | none => exact .throw (hbad _ rfl rfl)
    | some info => exact .pure info

theorem avoids_joinTarget (h : ∀ r, along.polymorphic? = some r →
      ∀ collection field, (discriminator r collection field).Avoids bad)
    (place : Place) (segment table : String) :
    (c.joinTarget place segment table along).Avoids bad := by
  cases along with
  | none => exact .throw (hbad _ rfl rfl)
  | manyToOne r =>
    unfold Context.joinTarget
    dsimp only
    split
    · exact .throw (hbad _ rfl rfl)
    · exact .bind (.map (avoids_collection hbad _)) fun _ => .pure _
  | manyToAny r scope =>
    unfold Context.joinTarget
    dsimp only
    split
    · exact .throw (hbad _ rfl rfl)
    · split
      · refine .bind (h r rfl _ _) fun _ => ?_
        exact .bind (.map (avoids_collection hbad _)) fun _ => .pure _
      · exact .throw (hbad _ rfl rfl)
  | oneToMany r => exact .bind (.map (avoids_collection hbad _)) fun _ => .pure _
  | oneToAny r =>
    refine .bind (h r rfl _ _) fun _ => ?_
    exact .bind (.map (avoids_collection hbad _)) fun _ => .pure _

theorem avoids_relatedKeys (h : ∀ r, along.polymorphic? = some r →
      ∀ collection field, (discriminator r collection field).Avoids bad)
    (owner : String) : (Context.relatedKeys owner along).Avoids bad := by
  cases along with
  | none | manyToOne | manyToAny => exact .throw (hbad _ rfl rfl)
  | oneToMany r => exact .pure _
  | oneToAny r =>
    have hnamed := h r rfl r.collection r.field
    unfold discriminator at hnamed
    unfold Context.relatedKeys
    dsimp only
    split at hnamed
    · next column hcolumn =>
      rw [hcolumn]
      exact .pure _
    · next hnone =>
      rw [hnone]
      exact .throw (hnamed 0 _ rfl)

/-- Where the discriminators of links are no failures, only an operator is one. -/
theorem Context.isShielded (h : ∀ owner segment r, (c.link owner segment).polymorphic? = some r →
      ∀ collection field, (discriminator r collection field).Avoids bad) :
    c.IsShielded bad (fun _ => True) (fun _ => True) where
  other e hlink hoperator := hbad e (by
    unfold QueryError.isUnnamed
    split
    · cases hlink
    · rfl) hoperator
  trim _ := id
  collection name _ := avoids_collection hbad name
  joined place segment table _ _ _ :=
    ⟨avoids_joinTarget hbad (h place.collection segment) place segment table, fun _ => trivial⟩
  related owner segment _ _ _ :=
    ⟨avoids_relatedKeys hbad (h owner segment) owner, fun _ => trivial⟩

end Other

theorem avoids_discriminator {r : Relation} (h : r.info.discriminator.isSome)
    (collection field : String) : (discriminator r collection field).Avoids bad := by
  obtain ⟨column, hcolumn⟩ := Option.isSome_iff_exists.mp h
  unfold discriminator
  rw [hcolumn]
  exact .pure column

/-- No link of the schema lacks a discriminator. -/
theorem Schema.DeclaresDiscriminators.isGuarded {s : Schema} {options : Options}
    {names : Nat → String} (hs : s.DeclaresDiscriminators) :
    (s.context options names).IsGuarded QueryError.isUnnamed (fun _ => True) (fun _ => True) where
  toIsShielded := Context.isShielded (fun _ h _ => h) fun _ _ _ h =>
    avoids_discriminator (hs.isSome_of_link h)
  ofLink e h := by
    unfold QueryError.isUnnamed
    split
    · cases h
    · rfl

end Failures

/-! ## Compiled statements -/

/-- A column of a collection is a declared field, if discriminators are. -/
theorem Schema.DeclaresDiscriminators.field_of_hasColumn {s : Schema}
    (hs : s.DeclaresDiscriminators) {collection name : String} (h : s.HasColumn collection name) :
    (s.field? collection name).isSome := by
  rcases h with h | ⟨r, hr, rfl, hcolumn⟩
  · exact h
  · exact hs.declared r hr name hcolumn

/-- A statement of which every column is a declared field of its table. -/
def Sql.Query.NamesFields (s : Schema) (q : Query) : Prop :=
  ∀ reference ∈ q.references [], ∃ t ∈ reference.tables,
    reference.table = some t.referenceName ∧ (s.field? t.table reference.name).isSome

instance (s : Schema) (q : Query) : Decidable (q.NamesFields s) :=
  inferInstanceAs (Decidable (∀ reference ∈ q.references [], _))

/-- Over a schema that passes its check, a link along a polymorphic key has a discriminator.  If
every polymorphic key has one and discriminators are declared fields, then so is that of each link
along, or back along, a polymorphic key of the schema; no compilation fails for want of one; and
where a request does not follow back undeclared keys of its own, every column of its statement is a
declared field of the collection that its table stands for. -/
theorem discriminators_declared {s : Schema} {summary : SchemaSummary}
    (hvalid : s.validate = .ok summary) :
    (∀ owner segment r scope, link s.relations owner segment = .manyToAny r scope →
      r.info.discriminator.isSome) ∧
    (s.DeclaresDiscriminators →
      (∀ owner segment r, followedKey? segment = none →
        (link s.relations owner segment).polymorphic? = some r →
        ∃ column, r.info.discriminator = some column ∧
          (s.field? r.collection column).isSome) ∧
      ∀ (options : Options) (letters : Alias.Letters) (collection : String) (r : Request),
        (∀ e, (s.compiler options letters).compile collection r = .error e →
          e.isUnnamed = false) ∧
        ∀ q, (s.compiler options letters).compile collection r = .ok q →
          (∀ key ∈ r.followedKeys, s.Declares key) → q.NamesFields s) := by
  refine ⟨fun owner segment r scope h => discriminator_of_manyToAny h, fun hs => ⟨?_, ?_⟩⟩
  · exact fun owner segment r hkey h => hs.field_of_link hkey h
  · intro options letters collection r
    refine ⟨avoids_compile hs.isGuarded (fun _ _ => trivial) trivial, fun q hq hkeys => ?_⟩
    have hgrounded := isGrounded_of_compile (Schema.fitsTogether_of_validate hvalid)
      (fun key hkey _ => hkeys key hkey)
      (fun key hkey => (hkeys key (Request.countedKeys_subset hkey)).collection) hq
    intro reference hreference
    obtain ⟨t, ht, htable, hcolumn⟩ := hgrounded.references reference hreference
    exact ⟨t, ht, htable, hs.field_of_hasColumn hcolumn⟩

/-! ## A schema with a polymorphic key -/

/-- Articles and tags that refer to them, of which `kind` tells the collection of the item. -/
def Schema.tagged (discriminator : Option String) : Schema where
  collections := [
    { info := { name := "articles", primary := "id" }
      fields := [⟨"id", .integer, [], none⟩, ⟨"tags", .virtual, ["o2m"], none⟩] },
    { info := { name := "tags", primary := "id" }
      fields := [⟨"id", .integer, [], none⟩, ⟨"item", .string, [], none⟩,
        ⟨"kind", .string, [], none⟩] }]
  relations := [
    { collection := "tags", field := "item"
      info := { oneField := some "tags", discriminator, allowed := ["articles"] } }]

/-- Articles with a tag. -/
def Request.tagged : Request where
  filter := some (.of (.field "tags" (.quantified .some ⟨[]⟩)))
  limit := some (-1)

theorem discriminators_declared_tagged :
    (Schema.tagged (some "kind")).validate = .ok ⟨2, 5, 1⟩ ∧
      (∃ r column, link (Schema.tagged (some "kind")).relations "articles" "tags" = .oneToAny r ∧
        r.info.discriminator = some column ∧
        ((Schema.tagged (some "kind")).field? r.collection column).isSome) ∧
      ∃ q, ((Schema.tagged (some "kind")).compiler {} fun _ => 0).compile "articles" .tagged =
        .ok q ∧ q.NamesFields (.tagged (some "kind")) := by
  obtain ⟨q, hq⟩ : ∃ q, ((Schema.tagged (some "kind")).compiler {} fun _ => 0).compile "articles"
      .tagged = .ok q := Compiler.exists_compile (by decide +kernel)
  have hvalid : (Schema.tagged (some "kind")).validate = .ok ⟨2, 5, 1⟩ := by decide +kernel
  have hdeclares : (Schema.tagged (some "kind")).DeclaresDiscriminators :=
    ⟨by decide +kernel, by decide +kernel⟩
  have hplain : Request.tagged.followedKeys = [] := by decide +kernel
  obtain ⟨hlinks, hcompile⟩ := (discriminators_declared hvalid).2 hdeclares
  refine ⟨hvalid, ?_, q, hq, (hcompile {} (fun _ => 0) "articles" .tagged).2 q hq ?_⟩
  · obtain ⟨column, hcolumn, hfield⟩ := hlinks "articles" "tags"
      { collection := "tags", field := "item"
        info := { oneField := some "tags", discriminator := some "kind", allowed := ["articles"] } }
      (by decide +kernel) (by decide +kernel)
    exact ⟨_, column, by decide +kernel, hcolumn, hfield⟩
  · rw [hplain]
    exact fun key hkey => (by cases hkey)

/-- What a computation fails with. -/
def failure? {ε α : Type} : Except ε α → Option ε
  | .error e => some e
  | .ok _ => none

theorem eq_error_of_failure? {ε α : Type} {x : Except ε α} {e : ε} (h : failure? x = some e) :
    x = .error e := by
  cases x with
  | error other => exact congrArg Except.error (Option.some.inj h)
  | ok a => cases h

/-- Without a discriminator the schema still passes its check, but the link back along the key
fails; and so it does with one that tags do not have, which then stands in the statement. -/
theorem discriminators_undeclared :
    ((Schema.tagged none).validate = .ok ⟨2, 5, 1⟩ ∧
      (∃ r, link (Schema.tagged none).relations "articles" "tags" = .oneToAny r ∧
        r.info.discriminator.isSome = false) ∧
      ((Schema.tagged none).compiler {} fun _ => 0).compile "articles" .tagged =
        .error (.query (.noDiscriminator "tags" "item"))) ∧
    (Schema.tagged (some "nosuch")).validate = .ok ⟨2, 5, 1⟩ ∧
      ((Schema.tagged (some "nosuch")).field? "tags" "nosuch") = none ∧
      ∃ q, ((Schema.tagged (some "nosuch")).compiler {} fun _ => 0).compile "articles" .tagged =
          .ok q ∧
        ∃ reference ∈ q.references [], reference.table = some "tags" ∧
          reference.name = "nosuch" := by
  obtain ⟨q, hq, hreference⟩ : ∃ q, ((Schema.tagged (some "nosuch")).compiler {} fun _ => 0).compile
      "articles" .tagged = .ok q ∧ decide (∃ reference ∈ q.references [],
        reference.table = some "tags" ∧ reference.name = "nosuch") = true :=
    Compiler.exists_compile_with (by decide +kernel)
  have hlink : link (Schema.tagged none).relations "articles" "tags" =
      .oneToAny { collection := "tags", field := "item"
                  info := { oneField := some "tags", allowed := ["articles"] } } := by
    decide +kernel
  exact ⟨⟨by decide +kernel, ⟨_, hlink, rfl⟩, eq_error_of_failure? (by decide +kernel)⟩,
    by decide +kernel, by decide +kernel, q, hq, of_decide_eq_true hreference⟩

end JsonSql
