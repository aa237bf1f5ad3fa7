import JsonSql.Proofs.Carried
import JsonSql.Proofs.Corresponding
import JsonSql.Proofs.Followed
import JsonSql.Proofs.Segments
import JsonSql.Proofs.Twins
import Mathlib.Data.List.TakeWhile

set_option autoImplicit false

/-!
# Filters that follow a declared key back

A hop along a field that a schema declares for the rows of a key may be written as a segment that
follows the key back (`Context.respell`).  Both filters walk the same links, each joins under its
own paths what the other one joins, and no two paths of a filter come to be one.
-/

namespace JsonSql

open JsonSql.Sql
open Compile (Corresponds corresponds_pure corresponds_refl)

/-! ## Blanks around a text -/

namespace Text

/-- A text between the blanks that stand around another one. -/
def around (padded s : String) : String :=
  let cs := padded.toList
  .ofList (cs.takeWhile isBlank ++ s.toList ++
    ((cs.dropWhile isBlank).reverse.takeWhile isBlank).reverse)

/-- Blanks at both ends do not count. -/
theorem trimChars_between {before behind : List Char} (hbefore : ∀ c ∈ before, isBlank c = true)
    (hbehind : ∀ c ∈ behind, isBlank c = true) (cs : List Char) :
    trimChars (before ++ cs ++ behind) = trimChars cs := by
  have hback : ∀ c ∈ behind.reverse, isBlank c = true :=
    fun c hc => hbehind c (List.mem_reverse.mp hc)
  rw [trimChars, trimChars, List.append_assoc, List.dropWhile_append_of_pos hbefore,
    List.dropWhile_append]
  split
  · next hblank =>
    rw [List.isEmpty_iff.mp hblank, List.dropWhile_eq_nil_iff.mpr hbehind]
  · rw [List.reverse_append, List.dropWhile_append_of_pos hback]

theorem trim_around (padded s : String) : trim (around padded s) = trim s := by
  rw [trim, around, String.toList_ofList, trimChars_between, trim]
  · exact fun c hc => List.mem_takeWhile_imp hc
  · exact fun c hc => List.mem_takeWhile_imp (List.mem_reverse.mp hc)

/-- A text without blanks around it puts none around another one. -/
theorem trim_eq_self_of_around {padded s : String} (h : around padded s = s) :
    trim padded = padded := by
  have hlength := congrArg (fun s : String => s.toList.length) h
  simp only [around, String.toList_ofList, List.length_append, List.length_reverse] at hlength
  have hbefore : padded.toList.takeWhile isBlank = [] := List.eq_nil_of_length_eq_zero (by omega)
  have hdrop : padded.toList.dropWhile isBlank = padded.toList := by
    have := List.takeWhile_append_dropWhile (p := isBlank) (l := padded.toList)
    rwa [hbefore, List.nil_append] at this
  rw [hdrop] at hlength
  have hbehind : padded.toList.reverse.takeWhile isBlank = [] :=
    List.eq_nil_of_length_eq_zero (by omega)
  have hback : padded.toList.reverse.dropWhile isBlank = padded.toList.reverse := by
    have := List.takeWhile_append_dropWhile (p := isBlank) (l := padded.toList.reverse)
    rwa [hbehind, List.nil_append] at this
  rw [trim, trimChars, hdrop, hback, List.reverse_reverse, String.ofList_toList]

end Text

/-! ## Respelled hops -/

/-- A field of a collection that lists the rows of a key, to be written as a segment that follows
the key back. -/
structure Respelling where
  owner : String
  field : String
  key : FollowedKey

namespace Respelling

/-- The segment that is written for a segment on the way from a collection. -/
def hop (t : Respelling) (owner? : Option String) (segment : String) : String :=
  if owner? = some t.owner ∧ segment = t.field then t.key.text else segment

/-- A key that is written for a key on the way from a collection, with the same blanks around. -/
def hopKey (t : Respelling) (owner? : Option String) (key : String) : String :=
  if owner? = some t.owner ∧ Text.trim key = t.field then Text.around key t.key.text else key

end Respelling

namespace Context

/-- The segments of a path on the way from a collection, respelled. -/
def spelledFrom (c : Context) (t : Respelling) : Option String → List String → List String
  | _, [] => []
  | owner?, segment :: rest =>
    t.hop owner? segment ::
      c.spelledFrom t (owner?.bind fun owner => (c.link owner segment).target?) rest

/-- The segments of a path from a collection, respelled. -/
def spelledPath (c : Context) (t : Respelling) (collection : String) (path : List String) :
    List String :=
  c.spelledFrom t (some collection) path

/-- The key that is written for a key of more than a column, below the segments of a path. -/
def spelledKey (c : Context) (t : Respelling) (collection : String) (parents : List String)
    (key : String) : String :=
  if c.startsExistential collection parents key then t.hop (some collection) key
  else t.hopKey (c.destination? collection parents) key

/-- The collection of the rows that a key below the segments of a path leads to. -/
def collectionBelow (c : Context) (collection : String) (parents : List String) (key : String) :
    String :=
  let target? := if c.startsExistential collection parents key then (c.link collection key).target?
    else c.destination? collection (parents ++ [Text.trim key])
  target?.getD collection

mutual
/-- A filter on a collection with every hop along a field written as a segment that follows a key
back. -/
def respell (c : Context) (t : Respelling) (collection : String) (parents : List String) :
    Filter → Filter
  | ⟨clauses⟩ => ⟨c.respellClauses t collection parents clauses⟩

/-- Clauses with every hop respelled. -/
def respellClauses (c : Context) (t : Respelling) (collection : String) (parents : List String) :
    List Clause → List Clause
  | [] => []
  | clause :: rest =>
    c.respellClause t collection parents clause :: c.respellClauses t collection parents rest

/-- A clause with every hop respelled. -/
def respellClause (c : Context) (t : Respelling) (collection : String) (parents : List String) :
    Clause → Clause
  | .all filters => .all (c.respellFilters t collection parents filters)
  | .any filters => .any (c.respellFilters t collection parents filters)
  | .field key condition => c.respellField t collection parents key condition

/-- Filters with every hop respelled. -/
def respellFilters (c : Context) (t : Respelling) (collection : String) (parents : List String) :
    List Filter → List Filter
  | [] => []
  | f :: rest => c.respell t collection parents f :: c.respellFilters t collection parents rest

/-- A field and what is asked of it, with every hop respelled.  A field that is compared is no hop;
filters on the rows of an existential condition start at their collection. -/
def respellField (c : Context) (t : Respelling) (collection : String) (parents : List String)
    (key : String) : FieldCondition → Clause
  | .compare comparisons => .field key (.compare comparisons)
  | .quantified quantifier f => .field (c.spelledKey t collection parents key)
      (.quantified quantifier (c.respell t (c.collectionBelow collection parents key) [] f))
  | .nested f => .field (c.spelledKey t collection parents key) (.nested
      (if c.startsExistential collection parents key then
        c.respell t (c.collectionBelow collection parents key) [] f
      else c.respell t collection (parents ++ [Text.trim key]) f))
end

end Context

/-! ## What a respelling needs -/

/-- The field lists the rows of the key, the names of the key can stand in a segment, and no other
field that lists rows is named like the segment but for blanks around it. -/
structure Respelling.IsSound (t : Respelling) (c : Context) : Prop where
  declared : t.key.IsKeyOf (c.link t.owner t.field)
  plain : t.key.IsPlain
  spaced : ∀ name, Text.trim name = t.key.text → name ≠ t.key.text →
    (c.link t.owner name).isToMany = false

/-- A segment that a filter may have: not the one that is to be written, and not a blank one that
leads anywhere. -/
structure Respelling.Allows (t : Respelling) (c : Context) (segment : String) : Prop where
  isSegment : IsSegment segment
  ne_text : segment ≠ t.key.text
  leads : segment = "" → ∀ owner, c.link owner segment = .none

namespace Respelling

variable {t : Respelling} {c : Context}

theorem hop_cases (t : Respelling) (owner? : Option String) (segment : String) :
    t.hop owner? segment = segment ∨
      owner? = some t.owner ∧ segment = t.field ∧ t.hop owner? segment = t.key.text := by
  unfold hop
  split
  · next h => exact .inr ⟨h.1, h.2, rfl⟩
  · exact .inl rfl

theorem text_ne_empty (key : FollowedKey) : key.text ≠ "" := by
  intro h
  have hlength := congrArg (fun s : String => s.toList.length) h
  simp [FollowedKey.text] at hlength

/-- Two segments of a filter are not written alike. -/
theorem hop_injective {owner? : Option String} {segment other : String}
    (hsegment : t.Allows c segment) (hother : t.Allows c other)
    (h : t.hop owner? segment = t.hop owner? other) : segment = other := by
  rcases hop_cases t owner? segment with hsame | ⟨-, hfield, htext⟩ <;>
    rcases hop_cases t owner? other with hsame' | ⟨-, hfield', htext'⟩
  · rw [← hsame, h, hsame']
  · exact absurd (hsame.symm.trans (h.trans htext')) hsegment.ne_text
  · exact absurd (hsame'.symm.trans (h.symm.trans htext)) hother.ne_text
  · rw [hfield, hfield']

namespace IsSound

theorem followed (h : t.IsSound c) : t.key.IsKeyOf (c.link t.owner t.key.text) := by
  rw [Context.link, link_of_followedKey? _ _ (FollowedKey.followedKey?_text h.plain)]
  exact FollowedKey.isKeyOf_link t.owner t.key

theorem trim_text (h : t.IsSound c) : Text.trim t.key.text = t.key.text :=
  trim_of_followedKey? (FollowedKey.followedKey?_text h.plain)

theorem isSegment_hop (h : t.IsSound c) (owner? : Option String) {segment : String}
    (hsegment : IsSegment segment) : IsSegment (t.hop owner? segment) := by
  rcases hop_cases t owner? segment with hsame | ⟨-, -, htext⟩
  · rwa [hsame]
  · rw [htext]
    exact FollowedKey.isSegment_text h.plain

/-- What does the same with all links back along a key does the same with the links of a segment
and of the one that is written for it. -/
theorem apply_hop {β : Sort*} (h : t.IsSound c) (use : String → Link → β)
    (huse : ∀ {segment segment' link link'}, t.key.IsKeyOf link → t.key.IsKeyOf link' →
      use segment link = use segment' link') (owner segment : String) :
    use (t.hop (some owner) segment) (c.link owner (t.hop (some owner) segment)) =
      use segment (c.link owner segment) := by
  rcases hop_cases t (some owner) segment with hsame | ⟨howner, rfl, htext⟩
  · rw [hsame]
  · obtain rfl := Option.some.inj howner
    rw [htext]
    exact huse h.followed h.declared

theorem link_hop_eq_none (h : t.IsSound c) (owner segment : String) :
    c.link owner (t.hop (some owner) segment) = .none ↔ c.link owner segment = .none :=
  iff_of_eq <| h.apply_hop (fun _ link => link = .none)
    (fun hkey hkey' => propext (iff_of_false hkey.ne_none hkey'.ne_none)) owner segment

theorem isToMany_link_hop (h : t.IsSound c) (owner segment : String) :
    (c.link owner (t.hop (some owner) segment)).isToMany = (c.link owner segment).isToMany :=
  h.apply_hop (fun _ link => link.isToMany)
    (fun hkey hkey' => hkey.isToMany.trans hkey'.isToMany.symm) owner segment

end IsSound

end Respelling

namespace Context

variable {c : Context} {t : Respelling} {collection : String}

/-! ## Paths -/

theorem spelledFrom_concat (before : List String) (segment : String) :
    ∀ owner? : Option String, c.spelledFrom t owner? (before ++ [segment]) =
      c.spelledFrom t owner? before ++
        [t.hop (owner?.bind fun owner => c.destination? owner before) segment] := by
  induction before with
  | nil =>
    intro owner?
    cases owner? <;> rfl
  | cons first rest ih =>
    intro owner?
    rw [List.cons_append, spelledFrom, spelledFrom, ih, List.cons_append]
    cases owner? <;> rfl

theorem spelledPath_concat (before : List String) (segment : String) :
    c.spelledPath t collection (before ++ [segment]) = c.spelledPath t collection before ++
      [t.hop (c.destination? collection before) segment] :=
  spelledFrom_concat before segment (some collection)

theorem spelledPath_eq_nil {path : List String} (h : c.spelledPath t collection path = []) :
    path = [] := by
  cases path with
  | nil => rfl
  | cons segment rest => cases h

/-- Only the blank path is written as the blank path. -/
theorem spelledPath_eq_blank {path : List String} (h : c.spelledPath t collection path = [""]) :
    path = [""] := by
  match path with
  | [] => cases h
  | [segment] =>
    rcases Respelling.hop_cases t (some collection) segment with hsame | ⟨-, -, htext⟩
    · exact hsame ▸ h
    · exact absurd (htext ▸ List.singleton_inj.mp h) (Respelling.text_ne_empty t.key)
  | first :: second :: rest => exact absurd (List.cons.inj h).2 (List.cons_ne_nil _ _)

theorem isPath_spelledFrom (ht : t.IsSound c) {path : List String} (hpath : IsPath path) :
    ∀ owner? : Option String, IsPath (c.spelledFrom t owner? path) := by
  induction path with
  | nil => exact fun _ => isPath_nil
  | cons segment rest ih =>
    intro owner? other hother
    rcases List.mem_cons.mp hother with rfl | hother
    · exact ht.isSegment_hop owner? (hpath segment List.mem_cons_self)
    · exact ih (fun s hs => hpath s (List.mem_cons_of_mem _ hs)) _ other hother

/-- Two paths of a filter are not written alike. -/
theorem spelledFrom_injective {path : List String} (hpath : ∀ s ∈ path, t.Allows c s) :
    ∀ {owner? : Option String} {other : List String}, (∀ s ∈ other, t.Allows c s) →
      c.spelledFrom t owner? path = c.spelledFrom t owner? other → path = other := by
  induction path with
  | nil =>
    intro owner? other _ h
    cases other with
    | nil => rfl
    | cons segment rest => cases h
  | cons segment rest ih =>
    intro owner? other hother h
    cases other with
    | nil => cases h
    | cons segment' rest' =>
      rw [spelledFrom, spelledFrom, List.cons.injEq] at h
      obtain ⟨hfirst, hrest⟩ := h
      obtain rfl := Respelling.hop_injective (hpath segment List.mem_cons_self)
        (hother segment' List.mem_cons_self) hfirst
      rw [ih (fun s hs => hpath s (List.mem_cons_of_mem _ hs))
        (fun s hs => hother s (List.mem_cons_of_mem _ hs)) hrest]

/-! ## Keys -/

theorem startsExistential_spelledPath (parents : List String) (key : String) :
    c.startsExistential collection (c.spelledPath t collection parents) key =
      c.startsExistential collection parents key := by
  cases parents <;> rfl

/-- A key below the root has the segment in it that is written for its own one. -/
theorem trim_hopKey (ht : t.IsSound c) (owner? : Option String) (key : String) :
    Text.trim (t.hopKey owner? key) = t.hop owner? (Text.trim key) := by
  unfold Respelling.hopKey Respelling.hop
  split
  · rw [Text.trim_around, ht.trim_text]
  · rfl

/-- A key that is written for another one starts an existential condition where that one does. -/
theorem startsExistential_spelledKey (ht : t.IsSound c) (parents : List String) (key : String) :
    c.startsExistential collection (c.spelledPath t collection parents)
        (c.spelledKey t collection parents key) = c.startsExistential collection parents key := by
  rw [startsExistential_spelledPath]
  cases parents with
  | cons first rest =>
    rw [startsExistential_below (List.cons_ne_nil first rest),
      startsExistential_below (List.cons_ne_nil first rest)]
  | nil =>
    have hroot (key : String) : c.startsExistential collection [] key =
        (c.link collection key).isToMany := rfl
    rw [spelledKey, hroot, hroot]
    split
    · exact ht.isToMany_link_hop collection key
    · next hstarts =>
      unfold Respelling.hopKey
      split
      · next hfield =>
        obtain rfl := Option.some.inj hfield.1
        rw [Bool.eq_false_iff.mpr hstarts]
        refine ht.spaced _ ((Text.trim_around _ _).trans ht.trim_text) fun hsame => hstarts ?_
        rw [← Text.trim_eq_self_of_around hsame, hfield.2]
        exact ht.declared.isToMany
      · rfl

end Context

/-! ## Records of joins -/

/-- A path that is not blank is not taken for no path at all. -/
theorem Hops.key_ne_of_ne_blank {path : List String} (hpath : IsPath path) (hne : path ≠ [])
    (hblank : path ≠ [""]) : Hops.key path ≠ Hops.key [] := by
  have hempty : IsPath [""] := fun s hs => List.mem_singleton.mp hs ▸ List.not_mem_nil
  exact fun hkey => hblank (Hops.key_injective hpath hempty hne (List.cons_ne_nil _ _) hkey)

/-- The same joins, each under its path and under what is written for the path. -/
structure Hops.Spelled (c : Context) (t : Respelling) (collection : String) (hops hops' : Hops) :
    Prop where
  same : ∀ path, path ≠ [] → (∀ s ∈ path, t.Allows c s) →
    hops'.get? (c.spelledPath t collection path) = hops.get? path
  root : hops.get? [] = none
  root' : hops'.get? [] = none
  leads : ∀ path hop, path ≠ [] → (∀ s ∈ path, t.Allows c s) → hops.get? path = some hop →
    c.destination? collection path = some hop.collection

namespace Hops.Spelled

variable {c : Context} {t : Respelling} {collection : String} {hops hops' : Hops}

theorem empty : Spelled c t collection {} {} :=
  ⟨fun _ _ _ => rfl, rfl, rfl, fun _ _ _ _ hfound => (by cases hfound)⟩

/-- The same join is put in under a path and under what is written for it. -/
theorem insert (ht : t.IsSound c) (h : Spelled c t collection hops hops') {before : List String}
    {segment owner : String} {hop : Hop} (hallowed : ∀ s ∈ before ++ [segment], t.Allows c s)
    (howner : c.destination? collection before = some owner)
    (hlink : c.link owner segment ≠ .none)
    (htarget : (c.link owner segment).target? = some hop.collection) :
    Spelled c t collection (hops.insert (before ++ [segment]) hop)
      (hops'.insert (c.spelledPath t collection (before ++ [segment])) hop) := by
  have hpath : IsPath (before ++ [segment]) := fun s hs => (hallowed s hs).isSegment
  have hne : before ++ [segment] ≠ [] := List.concat_ne_nil segment before
  have hblank : before ++ [segment] ≠ [""] := by
    intro hsame
    have hsegment : segment = "" := by
      simpa using congrArg List.getLast? hsame
    have hsegments := hallowed segment (List.mem_append_right _ List.mem_cons_self)
    exact hlink (hsegments.leads hsegment owner)
  have hspelled : IsPath (c.spelledPath t collection (before ++ [segment])) :=
    Context.isPath_spelledFrom ht hpath (some collection)
  have hroot := Hops.key_ne_of_ne_blank hpath hne hblank
  have hroot' := Hops.key_ne_of_ne_blank hspelled (mt Context.spelledPath_eq_nil hne)
    (mt Context.spelledPath_eq_blank hblank)
  have hother {other : List String} (hother : other ≠ []) (hfree : ∀ s ∈ other, t.Allows c s)
      (hdiffers : other ≠ before ++ [segment]) : Hops.key other ≠ Hops.key (before ++ [segment]) :=
    fun hkey => hdiffers <|
      Hops.key_injective (fun s hs => (hfree s hs).isSegment) hpath hother hne hkey
  refine ⟨fun path hsome hfree => ?_, ?_, ?_, fun path found hsome hfree hfound => ?_⟩
  · by_cases hsame : path = before ++ [segment]
    · rw [hsame, get?_insert_self, get?_insert_self]
    · rw [get?_insert_of_ne _ (hother hsome hfree hsame), get?_insert_of_ne]
      · exact h.same path hsome hfree
      · intro hkey
        have hwritten := Hops.key_injective
          (Context.isPath_spelledFrom ht (fun s hs => (hfree s hs).isSegment) (some collection))
          hspelled (mt Context.spelledPath_eq_nil hsome) (mt Context.spelledPath_eq_nil hne) hkey
        exact hsame (Context.spelledFrom_injective hfree hallowed hwritten)
  · rw [get?_insert_of_ne _ hroot.symm]
    exact h.root
  · rw [get?_insert_of_ne _ hroot'.symm]
    exact h.root'
  · by_cases hsame : path = before ++ [segment]
    · rw [hsame, get?_insert_self] at hfound
      rw [hsame, Context.destination?_concat, howner, Option.bind_some, htarget,
        ← Option.some.inj hfound]
    · rw [get?_insert_of_ne _ (hother hsome hfree hsame)] at hfound
      exact h.leads path found hsome hfree hfound

end Hops.Spelled

/-- The same statement, with the same joins recorded under what is written for their paths. -/
structure Scope.Spelled (c : Context) (t : Respelling) (collection : String)
    (scope scope' : Scope) : Prop where
  query : scope'.query = scope.query
  hops : scope.hops.Spelled c t collection scope'.hops

namespace Context

variable {c : Context} {t : Respelling} {collection : String} {inner : Bool}
  {scope scope' : Scope}

/-! ## Joins -/

/-- A link and that of what is written for its segment are joined alike. -/
theorem corresponds_join (ht : t.IsSound c) (hscope : scope.Spelled c t collection scope')
    {before : List String} {place : Place} {segment : String}
    (hallowed : ∀ s ∈ before ++ [segment], t.Allows c s)
    (hplace : c.destination? collection before = some place.collection)
    (hlink : c.link place.collection segment ≠ .none) :
    Corresponds (fun joined joined' => joined.1.Spelled c t collection joined'.1 ∧
        joined'.2 = joined.2 ∧
        c.destination? collection (before ++ [segment]) = some joined.2.collection)
      (c.join scope (before ++ [segment]) place segment (c.link place.collection segment))
      (c.join scope' (c.spelledPath t collection (before ++ [segment])) place
        (t.hop (some place.collection) segment)
        (c.link place.collection (t.hop (some place.collection) segment))) := by
  unfold join
  refine (corresponds_refl _).bind fun name _ hname => ?_
  subst hname
  rw [ht.apply_hop (fun segment link => c.joinTarget place segment name link)
    (fun hkey hkey' => hkey.joinTarget_eq hkey' c place _ _ name)]
  refine (corresponds_refl _).gives.bind ?_
  rintro ⟨target, condition⟩ _ ⟨rfl, k, k', hgives⟩
  have htarget := target?_of_joinTarget hgives
  refine corresponds_pure ⟨⟨?_, hscope.hops.insert ht hallowed hplace hlink htarget⟩, rfl, ?_⟩
  · rw [hscope.query]
  · rw [destination?_concat, hplace, Option.bind_some, htarget]

/-- Joining along a path takes the same way as along what is written for the path.  What the last
segments are does not matter. -/
theorem corresponds_joinFrom (ht : t.IsSound c) (last last' : String) (segments : List String) :
    ∀ {before : List String} {place : Place} {scope scope' : Scope},
      (∀ s ∈ before ++ segments, t.Allows c s) →
      c.destination? collection before = some place.collection →
      scope.Spelled c t collection scope' →
      Corresponds (fun joined joined' => joined.1.Spelled c t collection joined'.1 ∧
          joined'.2 = joined.2)
        (c.joinFrom inner place before scope (segments ++ [last]))
        (c.joinFrom inner place (c.spelledPath t collection before) scope'
          (c.spelledFrom t (some place.collection) segments ++ [last'])) := by
  induction segments with
  | nil => exact fun _ _ hscope => corresponds_pure ⟨hscope, rfl⟩
  | cons segment rest ih =>
    intro before place scope scope' hallowed hplace hscope
    rw [List.append_cons] at hallowed
    have hbefore : ∀ s ∈ before ++ [segment], t.Allows c s :=
      fun s hs => hallowed s (List.mem_append_left _ hs)
    have hspelled : c.spelledPath t collection before ++ [t.hop (some place.collection) segment] =
        c.spelledPath t collection (before ++ [segment]) := by
      rw [spelledPath_concat, hplace]
    -- what stands behind the segment is not empty
    obtain ⟨next, more, hmore⟩ := List.exists_cons_of_ne_nil (List.concat_ne_nil last rest)
    obtain ⟨next', more', hmore'⟩ := List.exists_cons_of_ne_nil (List.concat_ne_nil last'
      (c.spelledFrom t ((some place.collection).bind fun owner => (c.link owner segment).target?)
        rest))
    rw [spelledFrom, List.cons_append, List.cons_append, hmore, hmore', joinFrom_cons,
      joinFrom_cons, hspelled, hscope.hops.same _ (List.concat_ne_nil segment before) hbefore,
      ht.isToMany_link_hop, ht.apply_hop (fun _ link => leadsOn inner place link)
        (fun hkey hkey' => hkey.leadsOn_eq hkey' inner place),
      ht.apply_hop (fun _ link => isJoined inner place link)
        (fun hkey hkey' => hkey.isJoined_eq hkey' inner place), ← hmore, ← hmore']
    simp only [ht.link_hop_eq_none]
    split
    · exact corresponds_pure ⟨hscope, rfl⟩
    · next hlink =>
      have hnext {hop : Hop} (hhop : c.destination? collection (before ++ [segment]) =
          some hop.collection) : (some place.collection).bind
            (fun owner => (c.link owner segment).target?) = some hop.place.collection := by
        rw [Option.bind_some]
        rwa [destination?_concat, hplace, Option.bind_some] at hhop
      cases hfound : scope.hops.get? (before ++ [segment]) with
      | some hop =>
        dsimp only
        have hhop := hscope.hops.leads _ hop (List.concat_ne_nil segment before) hbefore hfound
        split
        · rw [hnext hhop]
          exact ih hallowed hhop hscope
        · exact corresponds_pure ⟨hscope, rfl⟩
      | none =>
        dsimp only
        split
        · refine (corresponds_join ht hscope hbefore hplace hlink).bind ?_
          rintro ⟨joined, hop⟩ ⟨joined', _⟩ ⟨hjoined, rfl, hhop⟩
          dsimp only at hjoined hhop ⊢
          split
          · rw [hnext hhop]
            refine (ih hallowed hhop hjoined).bind ?_
            rintro ⟨joined, several⟩ ⟨joined', _⟩ ⟨hlast, rfl⟩
            exact corresponds_pure ⟨hlast, rfl⟩
          · exact corresponds_pure ⟨hjoined, rfl⟩
        · exact corresponds_pure ⟨hscope, rfl⟩

/-- A path, and the one that is written for it but for the last segment. -/
inductive IsSpelled (c : Context) (t : Respelling) (collection : String) :
    List String → List String → Prop
  | mk {before : List String} (last last' : String) : (∀ s ∈ before, t.Allows c s) →
      IsSpelled c t collection (before ++ [last]) (c.spelledPath t collection before ++ [last'])

theorem corresponds_joinPath (ht : t.IsSound c) {path path' : List String}
    (hpath : c.IsSpelled t collection path path') (hscope : scope.Spelled c t collection scope') :
    Corresponds (fun joined joined' => joined.1.Spelled c t collection joined'.1 ∧
        joined'.2 = joined.2)
      (c.joinPath inner collection scope path) (c.joinPath inner collection scope' path') := by
  obtain ⟨last, last', hallowed⟩ := hpath
  exact corresponds_joinFrom ht last last' _ hallowed rfl hscope

theorem corresponds_joinPaths (ht : t.IsSound c) {paths paths' : List (List String)}
    (hpaths : List.Forall₂ (c.IsSpelled t collection) paths paths') :
    ∀ {scope scope' : Scope}, scope.Spelled c t collection scope' →
      Corresponds (fun joined joined' => joined.1.Spelled c t collection joined'.1 ∧
          joined'.2 = joined.2)
        (c.joinPaths inner collection scope paths)
        (c.joinPaths inner collection scope' paths') := by
  induction hpaths with
  | nil => exact fun hscope => corresponds_pure ⟨hscope, rfl⟩
  | cons hpath _ ih =>
    intro scope scope' hscope
    rw [joinPaths, joinPaths]
    refine (corresponds_joinPath ht hpath hscope).bind ?_
    rintro ⟨first, several⟩ ⟨first', _⟩ ⟨hfirst, rfl⟩
    refine (ih hfirst).bind ?_
    rintro ⟨last, more⟩ ⟨last', _⟩ ⟨hlast, rfl⟩
    exact corresponds_pure ⟨hlast, rfl⟩

end Context

end JsonSql
