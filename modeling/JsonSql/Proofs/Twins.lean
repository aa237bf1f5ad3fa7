import JsonSql.Proofs.Links
import JsonSql.Proofs.Prefixes
import Mathlib.Data.List.TakeWhile

set_option autoImplicit false

/-!
# Links back along one key

A field that a schema declares for the rows that refer back, and a segment that follows their key
back, lead the same way: every step of a compilation does the same with the links of the two
(`FollowedKey.IsKeyOf`).  The text of a segment for a key is read back as the key
(`followedKey?_text`).
-/

namespace JsonSql

open JsonSql.Sql

/-- The key that a link goes back along. -/
inductive FollowedKey.IsKeyOf (key : FollowedKey) : Link → Prop
  | oneToMany {r : Relation} : r.collection = key.collection → r.field = key.field →
      key.discriminator = none → IsKeyOf key (.oneToMany r)
  | oneToAny {r : Relation} : r.collection = key.collection → r.field = key.field →
      r.info.discriminator = key.discriminator → key.discriminator.isSome →
      IsKeyOf key (.oneToAny r)

namespace FollowedKey

theorem isKeyOf_link (owner : String) (key : FollowedKey) : key.IsKeyOf (key.link owner) := by
  obtain ⟨collection, field, none | column⟩ := key
  · exact .oneToMany rfl rfl rfl
  · exact .oneToAny rfl rfl rfl rfl

namespace IsKeyOf

variable {key : FollowedKey} {link link' : Link}

theorem isToMany (h : key.IsKeyOf link) : link.isToMany = true := by
  cases h <;> rfl

theorem target? (h : key.IsKeyOf link) : link.target? = some key.collection := by
  cases h with
  | oneToMany hcollection | oneToAny hcollection => exact congrArg some hcollection

theorem ne_none (h : key.IsKeyOf link) : link ≠ .none := by
  cases h <;> exact Link.noConfusion

/-- Two links back along one key are of one kind. -/
theorem cases (h : key.IsKeyOf link) (h' : key.IsKeyOf link') :
    (∃ r r', link = .oneToMany r ∧ link' = .oneToMany r' ∧ r.collection = r'.collection ∧
      r.field = r'.field) ∨
    ∃ r r', link = .oneToAny r ∧ link' = .oneToAny r' ∧ r.collection = r'.collection ∧
      r.field = r'.field ∧ r.info.discriminator = r'.info.discriminator := by
  cases h with
  | @oneToMany r hcollection hfield hnone =>
    cases h' with
    | @oneToMany r' hcollection' hfield' _ =>
      exact .inl ⟨r, r', rfl, rfl, hcollection.trans hcollection'.symm, hfield.trans hfield'.symm⟩
    | oneToAny _ _ _ hsome =>
      rw [hnone] at hsome
      cases hsome
  | @oneToAny r hcollection hfield hcolumn hsome =>
    cases h' with
    | oneToMany _ _ hnone =>
      rw [hnone] at hsome
      cases hsome
    | @oneToAny r' hcollection' hfield' hcolumn' _ =>
      exact .inr ⟨r, r', rfl, rfl, hcollection.trans hcollection'.symm,
        hfield.trans hfield'.symm, hcolumn.trans hcolumn'.symm⟩

theorem isJoined_eq (h : key.IsKeyOf link) (h' : key.IsKeyOf link') (inner : Bool) (place : Place) :
    Context.isJoined inner place link = Context.isJoined inner place link' := by
  rcases h.cases h' with ⟨r, r', rfl, rfl, -⟩ | ⟨r, r', rfl, rfl, -⟩ <;> rfl

theorem leadsOn_eq (h : key.IsKeyOf link) (h' : key.IsKeyOf link') (inner : Bool) (place : Place) :
    Context.leadsOn inner place link = Context.leadsOn inner place link' := by
  rcases h.cases h' with ⟨r, r', rfl, rfl, -⟩ | ⟨r, r', rfl, rfl, -⟩ <;> rfl

/-- The two are joined to the same collection under the same condition. -/
theorem joinTarget_eq (h : key.IsKeyOf link) (h' : key.IsKeyOf link') (c : Context) (place : Place)
    (segment segment' table : String) :
    c.joinTarget place segment table link = c.joinTarget place segment' table link' := by
  rcases h.cases h' with ⟨r, r', rfl, rfl, hcollection, hfield⟩ |
    ⟨r, r', rfl, rfl, hcollection, hfield, hcolumn⟩
  · rw [Context.joinTarget, Context.joinTarget, hcollection, hfield]
  · rw [Context.joinTarget, Context.joinTarget, JsonSql.discriminator, JsonSql.discriminator,
      hcollection, hfield, hcolumn]

/-- The two list the same rows. -/
theorem amongKeys_eq (h : key.IsKeyOf link) (h' : key.IsKeyOf link') (c : Context)
    (collection table : String) (quantifier : Quantifier)
    (related : String → Scope → Compile (Scope × Bool)) :
    c.amongKeys collection table link quantifier related =
      c.amongKeys collection table link' quantifier related := by
  rcases h.cases h' with ⟨r, r', rfl, rfl, hcollection, hfield⟩ |
    ⟨r, r', rfl, rfl, hcollection, hfield, hcolumn⟩
  · simp only [Context.amongKeys, Context.relatedKeys, Context.relatedKeys.keys, pure_bind,
      hcollection, hfield]
  · unfold Context.amongKeys Context.relatedKeys Context.relatedKeys.keys
    dsimp only
    rw [hcollection, hfield, hcolumn]
    cases r'.info.discriminator with
    | none => rfl
    | some column => simp only [pure_bind, hcollection]

end IsKeyOf

/-! ## The text of a segment for a key -/

/-- The names that a segment for a key writes. -/
def names (key : FollowedKey) : List String :=
  key.collection :: key.field :: key.discriminator.toList

/-- The segment that follows a key back. -/
def text (key : FollowedKey) : String :=
  "$FOLLOW(" ++ Text.join ',' (key.collection ::
    (key.field :: key.discriminator.toList).map (" " ++ ·)) ++ ")"

example : text ⟨"comments", "article", none⟩ = "$FOLLOW(comments, article)" := by decide +kernel

/-- No name of a key has a dot or a comma in it or blanks around it. -/
def IsPlain (key : FollowedKey) : Prop :=
  ∀ name ∈ key.names, '.' ∉ name.toList ∧ ',' ∉ name.toList ∧ Text.trim name = name

end FollowedKey

namespace Text

theorem trim_space_append (s : String) : trim (" " ++ s) = trim s := by
  have hspace : (" " ++ s).toList = ' ' :: s.toList := String.toList_append
  rw [trim, trim, hspace, trimChars, trimChars, List.dropWhile_cons_of_pos (by decide)]

/-- A character of a join is the separator or stands in one of the pieces. -/
theorem mem_of_mem_joinChars {sep c : Char} {pieces : List (List Char)}
    (h : c ∈ joinChars sep pieces) : c = sep ∨ ∃ piece ∈ pieces, c ∈ piece := by
  induction pieces with
  | nil => cases h
  | cons piece rest ih =>
    cases rest with
    | nil => exact .inr ⟨piece, List.mem_singleton_self piece, h⟩
    | cons next more =>
      rw [joinChars, List.mem_append, List.mem_cons] at h
      · rcases h with h | rfl | h
        · exact .inr ⟨piece, List.mem_cons_self, h⟩
        · exact .inl rfl
        · rcases ih h with hsame | ⟨found, hfound, hc⟩
          · exact .inl hsame
          · exact .inr ⟨found, List.mem_cons_of_mem _ hfound, hc⟩
      · exact List.cons_ne_nil next more

end Text

namespace FollowedKey

variable {key : FollowedKey}

/-- The segment for a key is read back as the key. -/
theorem followedKey?_text (h : key.IsPlain) : followedKey? key.text = some key := by
  obtain ⟨collection, field, column?⟩ := key
  have htrim : ∀ name ∈ collection :: field :: column?.toList, Text.trim name = name :=
    fun name hname => (h name hname).2.2
  have hpieces : ∀ piece ∈ collection :: (field :: column?.toList).map (" " ++ ·),
      ',' ∉ piece.toList := by
    intro piece hpiece
    rcases List.mem_cons.mp hpiece with rfl | hpiece
    · exact (h _ List.mem_cons_self).2.1
    · obtain ⟨name, hname, rfl⟩ := List.mem_map.mp hpiece
      rw [String.toList_append, List.mem_append, not_or]
      exact ⟨by decide, (h name (List.mem_cons_of_mem _ hname)).2.1⟩
  have hinner : (Text.after? "$FOLLOW(" (text ⟨collection, field, column?⟩)).bind
      (Text.before? ")") =
        some (Text.join ',' (collection :: (field :: column?.toList).map (" " ++ ·))) := by
    rw [text, String.append_assoc, Text.after?_append, Option.bind_some, Text.before?_append]
  have hnames : (Text.split ',' (Text.join ',' (collection ::
      (field :: column?.toList).map (" " ++ ·)))).map Text.trim =
        collection :: field :: column?.toList := by
    rw [Text.split_join (List.cons_ne_nil _ _) hpieces, List.map_cons, List.map_map,
      htrim collection List.mem_cons_self]
    refine congrArg _ ((List.map_congr_left fun name hname => ?_).trans (List.map_id _))
    exact (Text.trim_space_append name).trans (htrim name (List.mem_cons_of_mem _ hname))
  unfold followedKey?
  rw [hinner]
  dsimp only [bind, Option.bind]
  rw [hnames]
  cases column? <;> rfl

/-- There are no dots in the segment for a key. -/
theorem isSegment_text (h : key.IsPlain) : IsSegment key.text := by
  intro hdot
  rw [text, String.toList_append, String.toList_append, List.mem_append, List.mem_append] at hdot
  rcases hdot with (hdot | hdot) | hdot
  · exact absurd hdot (by decide)
  · rw [Text.join, String.toList_ofList] at hdot
    rcases Text.mem_of_mem_joinChars hdot with hsame | ⟨piece, hpiece, hdot⟩
    · exact absurd hsame (by decide)
    · obtain ⟨name, hname, rfl⟩ := List.mem_map.mp hpiece
      rcases List.mem_cons.mp hname with rfl | hname
      · exact (h _ List.mem_cons_self).1 hdot
      · obtain ⟨plain, hplain, rfl⟩ := List.mem_map.mp hname
        rw [String.toList_append, List.mem_append] at hdot
        rcases hdot with hdot | hdot
        · exact absurd hdot (by decide)
        · exact (h plain (List.mem_cons_of_mem _ hplain)).1 hdot
  · exact absurd hdot (by decide)

end FollowedKey

/-! ## Fields that are named like such a segment -/

/-- The characters before the first separator, or all of them. -/
theorem Text.takeWhile_eq_splitOnceChars? {sep : Char} (cs : List Char) :
    cs.takeWhile (· ≠ sep) = ((splitOnceChars? sep cs).map Prod.fst).getD cs := by
  induction cs with
  | nil => rfl
  | cons c cs ih =>
    rw [splitOnceChars?]
    split
    · next hsame => rw [hsame, List.takeWhile_cons_of_neg (by simp)]; rfl
    · next hother =>
      rw [List.takeWhile_cons_of_pos (by simpa using hother), ih]
      cases splitOnceChars? sep cs <;> rfl

/-- The field of a segment is what stands before its scope. -/
theorem toList_splitScope (segment : String) :
    (splitScope segment).1.toList = segment.toList.takeWhile (· ≠ ':') := by
  rw [Text.takeWhile_eq_splitOnceChars?, splitScope, Text.splitOnce?]
  cases Text.splitOnceChars? ':' segment.toList with
  | none => rfl
  | some parts => exact String.toList_ofList

/-- Trimmed characters stand in the ones that they are trimmed of, behind blanks. -/
theorem Text.exists_of_trimChars (cs : List Char) : ∃ before behind,
    cs = before ++ (trimChars cs ++ behind) ∧ ∀ c ∈ before, isBlank c = true := by
  obtain ⟨behind, hbehind⟩ := List.dropWhile_suffix (l := (cs.dropWhile isBlank).reverse) isBlank
  refine ⟨cs.takeWhile isBlank, behind.reverse, ?_, fun c hc => List.mem_takeWhile_imp hc⟩
  rw [trimChars, ← List.reverse_append, hbehind, List.reverse_reverse,
    List.takeWhile_append_dropWhile]

/-- A segment that begins with a dollar sign but for blanks has one in the name of its field. -/
theorem dollar_mem_splitScope {segment : String} {cs : List Char}
    (h : (Text.trim segment).toList = '$' :: cs) : '$' ∈ (splitScope segment).1.toList := by
  obtain ⟨before, behind, hparts, hblank⟩ := Text.exists_of_trimChars segment.toList
  rw [Text.trim, String.toList_ofList] at h
  rw [toList_splitScope, hparts, h, List.takeWhile_append_of_pos, List.cons_append,
    List.takeWhile_cons_of_pos (by decide)]
  · exact List.mem_append_right _ List.mem_cons_self
  · intro c hc
    have hnocolon : c ≠ ':' := fun hcolon => absurd (hblank c hc) (by rw [hcolon]; decide)
    simpa using hnocolon

/-- Where no field that lists rows has a dollar sign in its name, a segment that follows a key back
has no namesakes with blanks around them. -/
theorem isToMany_eq_false_of_dollar {relations : List Relation} {key : FollowedKey}
    (hplain : key.IsPlain)
    (hnames : ∀ r ∈ relations, ∀ field ∈ r.info.oneField, '$' ∉ field.toList) {owner name : String}
    (htrim : Text.trim name = key.text) (hne : name ≠ key.text) :
    (link relations owner name).isToMany = false := by
  have hkey := FollowedKey.followedKey?_text hplain
  have hnone : followedKey? name = none := by
    cases hname : followedKey? name with
    | none => rfl
    | some other => exact absurd ((trim_of_followedKey? hname).symm.trans htrim) hne
  obtain ⟨cs, hcs⟩ := exists_of_followedKey? hkey
  have hdollar := dollar_mem_splitScope (htrim.symm ▸ hcs)
  unfold link
  dsimp only
  rw [followLink?_eq, hnone]
  cases hforward : relations.findSome?
      (forwardLink? owner (splitScope name).1 (splitScope name).2) with
  | some found =>
    obtain ⟨r, -, hr⟩ := List.exists_of_findSome?_eq_some hforward
    unfold forwardLink? at hr
    split at hr
    · split at hr
      · cases hr
        rfl
      · split at hr <;> cases hr
        rfl
    · cases hr
  | none =>
    cases hbackward : relations.findSome? (backwardLink? owner (splitScope name).1) with
    | some found =>
      obtain ⟨r, hmem, hr⟩ := List.exists_of_findSome?_eq_some hbackward
      unfold backwardLink? at hr
      split at hr
      · next hfield => exact absurd hdollar (hnames r hmem _ hfield)
      · cases hr
    | none => rfl

end JsonSql
