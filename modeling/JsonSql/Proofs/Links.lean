import JsonSql.Statement.Column

set_option autoImplicit false

/-!
# Kinds of links

A segment leads on along a relation of the schema, or follows back a key that it names itself
(`followedKey?`).  Of the first kind the relation is known to refer the two collections to each
other (`Link.IsStored`); of the second kind nothing is known but the names in the segment.
-/

namespace JsonSql

/-! ## Keys that are followed back -/

/-- A key that a segment names itself: a field of a collection, and the discriminator of a
polymorphic key. -/
structure FollowedKey where
  collection : String
  field : String
  discriminator : Option String := none
  deriving DecidableEq, Repr, Inhabited

/-- The key that a segment follows back. -/
def followedKey? (segment : String) : Option FollowedKey := do
  let inner ← (Text.after? "$FOLLOW(" segment).bind (Text.before? ")")
  match (Text.split ',' inner).map Text.trim with
  | [collection, field] => some { collection, field }
  | [collection, field, column] => some { collection, field, discriminator := some column }
  | _ => none

/-- The link back along such a key to its collection. -/
def FollowedKey.link (owner : String) : FollowedKey → Link
  | ⟨collection, field, none⟩ => .oneToMany { collection, field, related := some owner }
  | ⟨collection, field, some column⟩ =>
    .oneToAny { collection, field, info := { discriminator := some column, allowed := [owner] } }

theorem followLink?_eq (owner segment : String) :
    followLink? owner segment = (followedKey? segment).map (FollowedKey.link owner) := by
  unfold followLink? followedKey?
  cases (Text.after? "$FOLLOW(" segment).bind (Text.before? ")") with
  | none => rfl
  | some inner =>
    dsimp only [bind, Option.bind]
    generalize (Text.split ',' inner).map Text.trim = pieces
    rcases pieces with _ | ⟨collection, _ | ⟨field, _ | ⟨column, _ | ⟨other, rest⟩⟩⟩⟩ <;> rfl

@[simp] theorem FollowedKey.isToMany_link (owner : String) (key : FollowedKey) :
    (key.link owner).isToMany = true := by
  obtain ⟨collection, field, none | column⟩ := key <;> rfl

/-- The relation of such a link is spelled by its key. -/
theorem FollowedKey.relation?_link {owner : String} {key : FollowedKey} {r : Relation}
    (h : (key.link owner).relation? = some r) :
    r.collection = key.collection ∧ r.field = key.field ∧
      r.info.discriminator = key.discriminator := by
  obtain ⟨collection, field, none | column⟩ := key <;> cases h <;> exact ⟨rfl, rfl, rfl⟩

/-! ### The text of a segment -/

theorem Text.append_of_dropBeginning? {beginning cs rest : List Char}
    (h : dropBeginning? beginning cs = some rest) : cs = beginning ++ rest := by
  induction beginning generalizing cs with
  | nil =>
    cases h
    rfl
  | cons b bs ih =>
    cases cs with
    | nil => cases h
    | cons c cs =>
      rw [dropBeginning?] at h
      split at h
      · next hsame => rw [ih h, hsame, List.cons_append]
      · cases h

/-- A segment that follows a key back begins with a dollar sign and ends with a parenthesis. -/
theorem exists_of_followedKey? {segment : String} {key : FollowedKey}
    (h : followedKey? segment = some key) : ∃ cs, segment.toList = '$' :: cs ++ [')'] := by
  obtain ⟨inner, hinner, -⟩ := Option.bind_eq_some_iff.mp h
  obtain ⟨rest, hrest, hends⟩ := Option.bind_eq_some_iff.mp hinner
  obtain ⟨cs, hcs, rfl⟩ := Option.map_eq_some_iff.mp hrest
  obtain ⟨before, hbefore, -⟩ := Option.map_eq_some_iff.mp hends
  have hbegin := Text.append_of_dropBeginning? hcs
  have hend := Text.append_of_dropBeginning? hbefore
  rw [String.toList_ofList, List.reverse_eq_iff, List.reverse_append] at hend
  rw [hend] at hbegin
  exact ⟨"FOLLOW(".toList ++ before.reverse, by rw [hbegin]; rfl⟩

/-- There are no blanks around such a segment. -/
theorem trim_of_followedKey? {segment : String} {key : FollowedKey}
    (h : followedKey? segment = some key) : Text.trim segment = segment := by
  obtain ⟨cs, hcs⟩ := exists_of_followedKey? h
  rw [Text.trim, Text.trimChars_eq_self, String.ofList_toList]
  · intro c hc
    rw [hcs] at hc
    cases hc
    decide
  · intro c hc
    rw [hcs, List.getLast?_concat] at hc
    cases hc
    decide

/-- Such a segment is no function of a field. -/
theorem splitFunction_of_followedKey? {segment : String} {key : FollowedKey}
    (h : followedKey? segment = some key) : splitFunction segment = (none, segment) := by
  obtain ⟨cs, hcs⟩ := exists_of_followedKey? h
  have hdollar : (Text.after? "$" segment).isSome = true := by
    rw [Text.after?, hcs]
    rfl
  rw [splitFunction, if_pos hdollar]

/-! ## Links of a schema -/

/-- A link from a collection along a relation of a schema: along a foreign key of the collection, or
back along one that refers to it. -/
inductive Link.IsStored (relations : List Relation) (owner : String) : Link → Prop
  | none : IsStored relations owner .none
  | manyToOne {r : Relation} : r ∈ relations → r.collection = owner → r.related.isSome →
      IsStored relations owner (.manyToOne r)
  | manyToAny {r : Relation} (scope : Option String) : r ∈ relations → r.collection = owner →
      r.related = .none → IsStored relations owner (.manyToAny r scope)
  | oneToMany {r : Relation} : r ∈ relations → r.related = some owner →
      IsStored relations owner (.oneToMany r)
  | oneToAny {r : Relation} : r ∈ relations → r.related = .none → owner ∈ r.info.allowed →
      IsStored relations owner (.oneToAny r)

theorem Link.isStored_of_forwardLink? {relations : List Relation} {owner field : String}
    {scope : Option String} {r : Relation} {found : Link} (hr : r ∈ relations)
    (h : forwardLink? owner field scope r = some found) : found.IsStored relations owner := by
  unfold forwardLink? at h
  split at h
  · next hsame =>
    split at h
    · next hrelated =>
      cases h
      exact .manyToOne hr hsame.1 hrelated
    · next hnone =>
      split at h
      · cases h
        exact .manyToAny scope hr hsame.1 (Option.not_isSome_iff_eq_none.mp hnone)
      · cases h
  · cases h

theorem Link.isStored_of_backwardLink? {relations : List Relation} {owner field : String}
    {r : Relation} {found : Link} (hr : r ∈ relations)
    (h : backwardLink? owner field r = some found) : found.IsStored relations owner := by
  unfold backwardLink? at h
  split at h
  · split at h
    · next related hrelated =>
      split at h
      · next hsame =>
        cases h
        exact .oneToMany hr (hsame ▸ hrelated)
      · cases h
    · next hnone =>
      split at h
      · next hallowed =>
        cases h
        exact .oneToAny hr hnone (List.contains_iff_mem.mp hallowed)
      · cases h
  · cases h

/-- A segment follows a key back, or goes along a relation of the schema. -/
theorem link_cases (relations : List Relation) (owner segment : String) :
    (∃ key, followedKey? segment = some key ∧
        link relations owner segment = key.link owner) ∨
      followedKey? segment = none ∧ (link relations owner segment).IsStored relations owner := by
  unfold link
  dsimp only
  rw [followLink?_eq]
  cases followedKey? segment with
  | some key => exact .inl ⟨key, rfl, rfl⟩
  | none =>
    refine .inr ⟨rfl, ?_⟩
    cases hforward : relations.findSome?
        (forwardLink? owner (splitScope segment).1 (splitScope segment).2) with
    | some found =>
      obtain ⟨r, hmem, hr⟩ := List.exists_of_findSome?_eq_some hforward
      exact Link.isStored_of_forwardLink? hmem hr
    | none =>
      cases hbackward : relations.findSome? (backwardLink? owner (splitScope segment).1) with
      | some found =>
        obtain ⟨r, hmem, hr⟩ := List.exists_of_findSome?_eq_some hbackward
        exact Link.isStored_of_backwardLink? hmem hr
      | none => exact .none

/-- The link of a segment that follows a key back is that of the key. -/
theorem link_of_followedKey? (relations : List Relation) (owner : String) {segment : String}
    {key : FollowedKey} (h : followedKey? segment = some key) :
    link relations owner segment = key.link owner := by
  rcases link_cases relations owner segment with ⟨other, hother, hlink⟩ | ⟨hnone, -⟩
  · rw [h] at hother
    rw [hlink, Option.some.inj hother]
  · rw [h] at hnone
    cases hnone

/-- A link that goes along a foreign key starts at the collection of the key. -/
def Link.StartsAt (owner : String) : Link → Prop
  | .manyToOne r | .manyToAny r _ => r.collection = owner
  | _ => True

theorem link_startsAt (relations : List Relation) (owner segment : String) :
    (link relations owner segment).StartsAt owner := by
  rcases link_cases relations owner segment with ⟨key, -, hkey⟩ | ⟨-, hstored⟩
  · rw [hkey]
    obtain ⟨collection, field, none | column⟩ := key <;> trivial
  · generalize link relations owner segment = found at hstored
    cases hstored with
    | none | oneToMany | oneToAny => trivial
    | manyToOne _ hsame _ | manyToAny _ _ hsame _ => exact hsame

end JsonSql
