import JsonSql.Proofs.Failures

set_option autoImplicit false

/-!
# Links that lead nowhere

Over a schema that fits together, a request that names no keys to be followed back is never led to a
collection that is not there, nor along a link that is none (`isSafe_compile`): links of the schema
lead from declared collections to declared ones.
-/

namespace JsonSql

open JsonSql.Sql

/-- A failure on the way: a collection is not there, or a link does not lead on. -/
def QueryError.isDangling : QueryError → Bool
  | .unknownCollection _ => true
  | .query (.noRelatedCollection _ _) | .query (.notRelational _ _) => true
  | .filter (.notQuantifiable _) => true
  | _ => false

theorem QueryError.isDangling_of_isOfLink (e : QueryError) (h : e.isOfLink = false) :
    e.isDangling = false := by
  unfold QueryError.isDangling
  split
  · cases h
  · cases h
  · cases h
  · cases h
  · rfl

section

variable {s : Schema} {options : Options} {names : Nat → String} {collection : String}

/-! ## Questions to the schema -/

theorem isSafe_collection {name : String} (h : (s.collection? name).isSome) :
    ((s.context options names).collection name).Avoids QueryError.isDangling := by
  obtain ⟨found, hfound⟩ := Option.isSome_iff_exists.mp h
  have hanswer : (s.context options names).provider.collection name = .ok (some found.info) :=
    congrArg (fun c? => Except.ok (Option.map Collection.info c?)) hfound
  unfold Context.collection
  rw [hanswer]
  exact .pure _

theorem isSafe_primary {name : String} (h : (s.collection? name).isSome) :
    ((s.context options names).primary name).Avoids QueryError.isDangling :=
  .map (isSafe_collection h)

theorem isSafe_discriminator (r : Relation) (field : String) :
    (discriminator r collection field).Avoids QueryError.isDangling := by
  unfold discriminator
  split
  · exact .pure _
  · exact .throw rfl

theorem isSafe_relatedKeys {owner : String} {along : Link} (hmany : along.isToMany = true) :
    (Context.relatedKeys owner along).Avoids QueryError.isDangling := by
  cases along with
  | none | manyToOne | manyToAny => cases hmany
  | oneToMany r => exact .pure _
  | oneToAny r =>
    unfold Context.relatedKeys
    dsimp only
    split
    · exact .throw rfl
    · exact .pure _

/-- A key without blanks around it is followed back if the key is. -/
theorem followedKey?_eq_none_of_trim {key : String} (h : followedKey? (Text.trim key) = none) :
    followedKey? key = none := by
  cases hkey : followedKey? key with
  | none => rfl
  | some found =>
    rw [trim_of_followedKey? hkey, hkey] at h
    cases h

/-! ## Links -/

variable (hs : s.FitsTogether)
include hs

/-- A link that is joined finds its collections. -/
theorem isSafe_joinTarget {place : Place} {segment table : String}
    (hkey : followedKey? segment = none) (hplace : (s.collection? place.collection).isSome)
    (hlink : link s.relations place.collection segment ≠ .none) :
    ((s.context options names).joinTarget place segment table
      (link s.relations place.collection segment)).Avoids QueryError.isDangling := by
  have htarget {target : String} (htarget : (link s.relations place.collection segment).admitted? =
      some target) : (s.collection? target).isSome :=
    hs.declared_of_link (fun key hsome => by rw [hkey] at hsome; cases hsome) htarget
  have hstored := (link_cases s.relations place.collection segment).resolve_left (by
    rintro ⟨key, hsome, -⟩
    rw [hkey] at hsome
    cases hsome)
  generalize link s.relations place.collection segment = along at hlink htarget hstored
  cases hstored.2 with
  | none => exact absurd rfl hlink
  | @manyToOne r _ _ hrelated =>
    obtain ⟨target, hsome⟩ := Option.isSome_iff_exists.mp hrelated
    unfold Context.joinTarget
    dsimp only
    rw [hsome]
    exact .bind (isSafe_primary (htarget hsome)) fun _ => .pure _
  | @manyToAny r scope =>
    unfold Context.joinTarget
    cases scope with
    | none => exact .throw rfl
    | some target =>
      dsimp only
      split
      · next hallowed =>
        refine .bind (isSafe_discriminator _ _) fun _ => ?_
        refine .bind (isSafe_primary (htarget ?_)) fun _ => .pure _
        exact Option.filter_eq_some_iff.mpr ⟨rfl, hallowed⟩
      · exact .throw rfl
  | oneToMany => exact .bind (isSafe_primary hplace) fun _ => .pure _
  | oneToAny =>
    refine .bind (isSafe_discriminator _ _) fun _ => ?_
    exact .bind (isSafe_primary hplace) fun _ => .pure _

/-- What is joined is declared. -/
theorem declared_of_joinTarget {place : Place} {segment table target : String} {e : Expr}
    {k k' : Nat} (hkey : followedKey? segment = none)
    (h : ((s.context options names).joinTarget place segment table
      (link s.relations place.collection segment)).Gives k (target, e) k') :
    (s.collection? target).isSome :=
  hs.declared_of_link (fun key hsome => by rw [hkey] at hsome; cases hsome)
    (Context.admitted?_of_joinTarget h)

/-- Links of a schema that fits together lead from declared collections to declared ones, and
nowhere else. -/
theorem isGuarded_isDangling :
    (s.context options names).IsGuarded QueryError.isDangling
      (fun name => (s.collection? name).isSome) (fun segment => followedKey? segment = none) where
  ofLink := QueryError.isDangling_of_isOfLink
  trim _ := followedKey?_eq_none_of_trim
  collection _ := isSafe_collection
  joined _ _ _ hplace hkey hlink :=
    ⟨isSafe_joinTarget hs hkey hplace hlink, fun hgives => declared_of_joinTarget hs hkey hgives⟩
  related owner segment _ hkey hmany := by
    refine ⟨isSafe_relatedKeys hmany, fun {keys k k'} hgives => ?_⟩
    obtain ⟨r, q, polymorphic⟩ := keys
    obtain ⟨known, hreferring, -⟩ := Context.isReferring_of_relatedKeys hgives
    exact hs.declared_of_link (fun key hsome => by rw [hkey] at hsome; cases hsome)
      hreferring.admitted?

/-- Without keys to be followed back, a compilation is never led astray. -/
theorem isSafe_compile {letters : Alias.Letters} {r : Request} (hkeys : r.followedKeys = [])
    (hroot : (s.collection? collection).isSome) :
    AvoidsResult QueryError.isDangling ((s.compiler options letters).compile collection r) := by
  refine avoids_compile (isGuarded_isDangling hs) (fun segment hsegment => ?_) hroot
  cases hkey : followedKey? segment with
  | none => rfl
  | some key =>
    have hmem : key ∈ r.followedKeys := mem_followedIn hsegment hkey
    rw [hkeys] at hmem
    cases hmem

end

end JsonSql
