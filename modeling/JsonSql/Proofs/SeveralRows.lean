import JsonSql.Proofs.Introductions
import Mathlib.Data.List.Infix

set_option autoImplicit false

/-!
# Joins to several rows

Whether a filter joins a link to several rows, said by the links of its paths alone
(`Context.WalksSeveral`).  The joins of the ordering and of the groups come first and are shared,
and a compilation notes only joins that it adds: what it tells of a filter is about the prefixes of
its paths that are not joined before (`repeatsRows_iff`).
-/

namespace JsonSql

open JsonSql.Sql

namespace Context

variable {c : Context} {inner : Bool} {collection : String}

/-! ## Prefixes that lead to several rows -/

/-- The link that the last segment of a path is joined along, if those before it lead on. -/
def prefixLink? (c : Context) (inner : Bool) (collection : String) (path : List String) :
    Option Link := do
  let last ← path.getLast?
  let place ← path.dropLast.foldlM (c.onward? inner) (.root collection)
  let link := c.link place.collection last
  if isJoined inner place link then some link else none

/-- A prefix that is joined along a link to several rows. -/
def JoinsSeveral (c : Context) (inner : Bool) (collection : String) (before : List String) : Prop :=
  (c.prefixLink? inner collection before).any Link.isToMany = true

instance (before : List String) : Decidable (c.JoinsSeveral inner collection before) :=
  inferInstanceAs (Decidable (_ = true))

/-- A path with a prefix that is joined along a link to several rows. -/
def WalksSeveral (c : Context) (inner : Bool) (collection : String) (path : List String) : Prop :=
  ∃ before, before <+: path.dropLast ∧ c.JoinsSeveral inner collection before

theorem not_joinsSeveral_nil : ¬ c.JoinsSeveral inner collection [] := by
  simp [JoinsSeveral, prefixLink?]

theorem prefixLink?_concat (before : List String) (segment : String) :
    c.prefixLink? inner collection (before ++ [segment]) =
      (before.foldlM (c.onward? inner) (.root collection)).bind fun place =>
        if isJoined inner place (c.link place.collection segment) then
          some (c.link place.collection segment)
        else none := by
  rw [prefixLink?, List.getLast?_concat, List.dropLast_concat]
  rfl

/-- What a segment is joined to at a place that a path has reached. -/
theorem HasReached.joinsSeveral {before : List String} {place : Place} {segment : String}
    (h : c.HasReached inner collection before place) :
    c.JoinsSeveral inner collection (before ++ [segment]) ↔
      isJoined inner place (c.link place.collection segment) = true ∧
        (c.link place.collection segment).isToMany = true := by
  obtain ⟨here, hhere, hcollection, hroot⟩ := h
  rw [JoinsSeveral, prefixLink?_concat, hhere, Option.bind_some, hcollection, isJoined_congr hroot]
  split
  · next hjoined => simp [hjoined]
  · next hjoined => simp [hjoined]

/-- A prefix that leads to several rows leads somewhere. -/
theorem prefixTarget?_of_joinsSeveral {before : List String}
    (h : c.JoinsSeveral inner collection before) :
    (c.prefixTarget? inner collection before).isSome := by
  rcases List.eq_nil_or_concat before with rfl | ⟨parents, segment, rfl⟩
  · exact absurd h not_joinsSeveral_nil
  · rw [List.concat_eq_append] at h ⊢
    rw [JoinsSeveral, prefixLink?_concat] at h
    rw [prefixTarget?_concat]
    cases hplace : parents.foldlM (c.onward? inner) (.root collection) with
    | none =>
      rw [hplace] at h
      cases h
    | some place =>
      rw [hplace, Option.bind_some] at h
      rw [Option.bind_some, joinedTarget?]
      split at h
      · next hjoined =>
        rw [if_pos hjoined]
        cases hlink : c.link place.collection segment with
        | none | manyToOne r | manyToAny r scope =>
          rw [hlink] at h
          cases h
        | oneToMany r | oneToAny r => rfl
      · cases h

/-- Beyond a segment that does not lead on nothing is joined. -/
theorem HasReached.not_joinsSeveral {before : List String} {place : Place} {segment : String}
    (h : c.HasReached inner collection before place)
    (hstops : c.onward? inner place segment = none) {walked : List String} (hwalked : walked ≠ []) :
    ¬ c.JoinsSeveral inner collection (before ++ segment :: walked) := by
  intro hseveral
  obtain ⟨hwithin, -⟩ := (h.joinsUpTo_of_onward? hstops walked (before ++ segment :: walked)).mp
    ⟨List.prefix_rfl, prefixTarget?_of_joinsSeveral hseveral⟩
  have hlength := hwithin.length_le
  simp only [List.length_append, List.length_cons, List.length_nil] at hlength
  exact hwalked (List.length_eq_zero_iff.mp (by omega))

/-! ## Joins of one path -/

/-- Beyond the segments before, a path has a prefix that leads to several rows and is not among
those of `prefixes`. -/
def AddsSeveral (c : Context) (inner : Bool) (collection : String)
    (prefixes : List String → Prop) (before segments : List String) : Prop :=
  ∃ walked, walked ≠ [] ∧ walked <+: segments.dropLast ∧
    c.JoinsSeveral inner collection (before ++ walked) ∧ ¬ prefixes (before ++ walked)

variable {prefixes : List String → Prop}

theorem addsSeveral_cons {before : List String} {segment next : String} {rest : List String} :
    c.AddsSeveral inner collection prefixes before (segment :: next :: rest) ↔
      (c.JoinsSeveral inner collection (before ++ [segment]) ∧ ¬ prefixes (before ++ [segment])) ∨
        c.AddsSeveral inner collection prefixes (before ++ [segment]) (next :: rest) := by
  rw [AddsSeveral, List.dropLast_cons_of_ne_nil (List.cons_ne_nil next rest)]
  constructor
  · rintro ⟨walked, hne, hwithin, hseveral, hnew⟩
    rcases List.prefix_cons_iff.mp hwithin with rfl | ⟨more, rfl, hmore⟩
    · exact absurd rfl hne
    · cases more with
      | nil => exact .inl ⟨hseveral, hnew⟩
      | cons further more =>
        rw [List.append_cons] at hseveral hnew
        exact .inr ⟨further :: more, List.cons_ne_nil _ _, hmore, hseveral, hnew⟩
  · rintro (⟨hseveral, hnew⟩ | ⟨walked, hne, hwithin, hseveral, hnew⟩)
    · exact ⟨[segment], List.cons_ne_nil _ _, List.prefix_cons_iff.mpr
        (.inr ⟨[], rfl, List.nil_prefix⟩), hseveral, hnew⟩
    · rw [← List.append_cons] at hseveral hnew
      exact ⟨segment :: walked, List.cons_ne_nil _ _, List.prefix_cons_iff.mpr
        (.inr ⟨walked, rfl, hwithin⟩), hseveral, hnew⟩

theorem not_addsSeveral_singleton {before : List String} {segment : String} :
    ¬ c.AddsSeveral inner collection prefixes before [segment] := by
  rintro ⟨walked, hne, hwithin, -⟩
  exact hne (List.prefix_nil.mp hwithin)

/-- Beyond a segment that does not lead on there is no such prefix. -/
theorem HasReached.not_addsSeveral {before : List String} {place : Place} {segment : String}
    (h : c.HasReached inner collection before place)
    (hstops : c.onward? inner place segment = none) (segments : List String) :
    ¬ c.AddsSeveral inner collection prefixes (before ++ [segment]) segments := by
  rintro ⟨walked, hne, -, hseveral, -⟩
  rw [← List.append_cons] at hseveral
  exact h.not_joinsSeveral hstops hne hseveral

/-- A prefix of a path is recorded only if it was joined before the path. -/
theorem prefixes_of_found {scope : Scope} {before : List String} {segment : String} {hop : Hop}
    (hpath : IsPath (before ++ [segment]))
    (h : scope.MatchesPrefixes c inner collection
      (fun below => prefixes below ∨ c.JoinsUpTo inner collection before below))
    (hfound : scope.hops.get? (before ++ [segment]) = some hop) :
    prefixes (before ++ [segment]) := by
  obtain ⟨walked, hmatches⟩ := h
  have hmem := hmatches.mem_of_get? hpath (by simp) hfound
  rcases (hmatches.complete _).mp (List.mem_map_of_mem (f := Prod.fst) hmem) with hbefore | hwithin
  · exact hbefore
  · have hlength := hwithin.1.length_le
    simp only [List.length_append, List.length_cons, List.length_nil] at hlength
    omega

theorem not_prefixes_of_fresh {scope : Scope} {path : List String} {others : List String → Prop}
    (h : scope.MatchesPrefixes c inner collection (fun below => prefixes below ∨ others below))
    (hfresh : scope.hops.get? path = none) : ¬ prefixes path := by
  obtain ⟨walked, hmatches⟩ := h
  intro hpath
  have hsome := hmatches.get?_isSome (.inl hpath)
  rw [hfresh] at hsome
  cases hsome

/-- Joining from a place that a path has reached tells whether the path adds a prefix that leads to
several rows. -/
theorem several_joinFrom :
    ∀ {rest : List String} {segment : String} {before : List String} {place : Place}
      {scope scope' : Scope} {several : Bool} {k k' : Nat},
      IsPath (before ++ segment :: rest) → c.HasReached inner collection before place →
      scope.MatchesPrefixes c inner collection
        (fun below => prefixes below ∨ c.JoinsUpTo inner collection before below) →
      (c.joinFrom inner place before scope (segment :: rest)).Gives k (scope', several) k' →
      (several = true ↔ c.AddsSeveral inner collection prefixes before (segment :: rest)) := by
  intro rest
  induction rest with
  | nil =>
    intro segment before place scope scope' several k k' _ _ _ h
    obtain ⟨h, rfl⟩ := Compile.gives_pure.mp h
    cases h
    exact iff_of_false Bool.false_ne_true not_addsSeveral_singleton
  | cons next rest ih =>
    intro segment before place scope scope' several k k' hpath hreached hscope h
    rw [List.append_cons] at hpath
    have hsegment : IsPath (before ++ [segment]) := fun s hs =>
      hpath s (List.mem_append_left _ hs)
    rw [addsSeveral_cons, hreached.joinsSeveral]
    -- a link that is not joined does not lead on either
    have hskip (hnone : isJoined inner place (c.link place.collection segment) = false) :
        (false = true ↔ ((isJoined inner place (c.link place.collection segment) = true ∧
            (c.link place.collection segment).isToMany = true) ∧ ¬ prefixes (before ++ [segment])) ∨
          c.AddsSeveral inner collection prefixes (before ++ [segment]) (next :: rest)) := by
      refine iff_of_false Bool.false_ne_true ?_
      rintro (⟨⟨hjoined, -⟩, -⟩ | hadds)
      · rw [hnone] at hjoined
        cases hjoined
      · refine hreached.not_addsSeveral ?_ _ hadds
        cases honward : c.onward? inner place segment with
        | none => rfl
        | some there =>
          obtain ⟨target, htarget, -⟩ := joinedTarget?_of_onward? honward
          rw [joinedTarget?, hnone] at htarget
          cases htarget
    rw [joinFrom] at h
    dsimp only at h
    split at h
    · next hlink =>
      obtain ⟨h, rfl⟩ := Compile.gives_pure.mp h
      cases h
      exact hskip (by rw [hlink]; rfl)
    · next hop hfound _ =>
      obtain ⟨htarget, hknown⟩ := matchesPrefixes_found hsegment hscope hfound
      have hbefore := prefixes_of_found hsegment hscope hfound
      rw [or_iff_right fun hnew => hnew.2 hbefore]
      split at h
      · next hleads =>
        have hlink : (c.link place.collection segment).target? = some hop.collection := by
          rw [hreached.joinedTarget?, joinedTarget?] at htarget
          split at htarget
          · exact htarget
          · cases htarget
        exact ih hpath (hreached.next hleads hlink) hknown h
      · next hstays =>
        obtain ⟨h, rfl⟩ := Compile.gives_pure.mp h
        cases h
        exact iff_of_false Bool.false_ne_true (hreached.not_addsSeveral (if_neg hstays) _)
    · next hfresh _ =>
      have hnew := not_prefixes_of_fresh hscope hfresh
      split at h
      · next hjoined =>
        simp only [Compile.gives_bind] at h
        obtain ⟨⟨scope₁, hop⟩, k₁, hjoin, h⟩ := h
        obtain ⟨hlink, hnext⟩ :=
          matchesPrefixes_join hsegment hreached hscope hfresh hjoined hjoin
        rw [and_iff_left hnew, and_iff_right hjoined]
        split at h
        · next hleads =>
          simp only [Compile.gives_bind, Compile.gives_pure] at h
          obtain ⟨⟨scope₂, several₂⟩, k₂, h, hresult, rfl⟩ := h
          cases hresult
          rw [Bool.or_eq_true, ih hpath (hreached.next hleads hlink) hnext h]
        · next hstays =>
          obtain ⟨h, rfl⟩ := Compile.gives_pure.mp h
          cases h
          exact (or_iff_left (hreached.not_addsSeveral (if_neg hstays) _)).symm
      · next hskipped =>
        obtain ⟨h, rfl⟩ := Compile.gives_pure.mp h
        cases h
        exact hskip (Bool.not_eq_true _ ▸ hskipped)

/-- Joining a path tells whether it adds a prefix that leads to several rows. -/
theorem several_joinPath {path : List String} {scope scope' : Scope} {several : Bool} {k k' : Nat}
    (hpath : IsPath path) (hscope : scope.MatchesPrefixes c inner collection prefixes)
    (h : (c.joinPath inner collection scope path).Gives k (scope', several) k') :
    several = true ↔ ∃ before, before <+: path.dropLast ∧
      c.JoinsSeveral inner collection before ∧ ¬ prefixes before := by
  have hadds : c.AddsSeveral inner collection prefixes [] path ↔ ∃ before,
      before <+: path.dropLast ∧ c.JoinsSeveral inner collection before ∧ ¬ prefixes before := by
    refine exists_congr fun before => ?_
    rw [List.nil_append, and_iff_right_iff_imp]
    rintro ⟨-, hseveral, -⟩ rfl
    exact not_joinsSeveral_nil hseveral
  rw [← hadds]
  cases path with
  | nil =>
    obtain ⟨h, rfl⟩ := Compile.gives_pure.mp h
    cases h
    refine iff_of_false Bool.false_ne_true ?_
    rintro ⟨walked, hne, hwithin, -⟩
    exact hne (List.prefix_nil.mp hwithin)
  | cons segment rest =>
    refine several_joinFrom hpath .root (matchesPrefixes_congr hscope fun below => ?_) h
    refine or_iff_left ?_
    rintro ⟨hwithin, hsome⟩
    rw [List.prefix_nil.mp hwithin] at hsome
    cases hsome

/-- Joining paths tells whether one of them adds a prefix that leads to several rows. -/
theorem several_joinPaths {paths : List (List String)} :
    ∀ {prefixes : List String → Prop} {scope scope' : Scope} {several : Bool} {k k' : Nat},
      (∀ path ∈ paths, IsPath path) → scope.MatchesPrefixes c inner collection prefixes →
      (c.joinPaths inner collection scope paths).Gives k (scope', several) k' →
      (several = true ↔ ∃ path ∈ paths, ∃ before, before <+: path.dropLast ∧
        c.JoinsSeveral inner collection before ∧ ¬ prefixes before) := by
  induction paths with
  | nil =>
    intro prefixes scope scope' several k k' _ _ h
    obtain ⟨h, rfl⟩ := Compile.gives_pure.mp h
    cases h
    simp
  | cons path rest ih =>
    intro prefixes scope scope' several k k' hpaths hscope h
    simp only [joinPaths, Compile.gives_bind, Compile.gives_pure] at h
    obtain ⟨⟨scope₁, several₁⟩, k₁, hfirst, ⟨scope₂, several₂⟩, k₂, hrest, hresult, rfl⟩ := h
    cases hresult
    have hpath := hpaths path List.mem_cons_self
    rw [Bool.or_eq_true, several_joinPath hpath hscope hfirst,
      ih (fun p hp => hpaths p (List.mem_cons_of_mem _ hp))
        (matchesPrefixes_joinPath hpath hscope hfirst) hrest]
    simp only [List.mem_cons, exists_eq_or_imp]
    -- what the first path joins counts for it, and not again for the others
    constructor
    · rintro (hfirst | ⟨other, hother, before, hwithin, hseveral, hnew⟩)
      · exact .inl hfirst
      · exact .inr ⟨other, hother, before, hwithin, hseveral, fun hbefore => hnew (.inl hbefore)⟩
    · rintro (hfirst | ⟨other, hother, before, hwithin, hseveral, hnew⟩)
      · exact .inl hfirst
      · by_cases hjoined : before <+: path.dropLast
        · exact .inl ⟨before, hjoined, hseveral, hnew⟩
        · refine .inr ⟨other, hother, before, hwithin, hseveral, ?_⟩
          rintro (hbefore | hfirst)
          · exact hnew hbefore
          · exact hjoined hfirst.1

/-! ## Joins before the filter -/

/-- The paths that the ordering and the groups of a request join; an inner statement is not
ordered. -/
def earlierPaths (inner : Bool) (r : Request) : List (List String) :=
  (if inner then [] else r.sort.map sortPath) ++ r.group.map fieldPath

/-- In an inner statement more links are joined, and more lead on. -/
theorem isJoined_inner {place : Place} {link : Link} (h : isJoined false place link = true) :
    isJoined inner place link = true := by
  cases link <;> simp_all [isJoined]

theorem leadsOn_inner {place : Place} {link : Link} (h : leadsOn false place link = true) :
    leadsOn inner place link = true := by
  cases link <;> simp_all [leadsOn]

/-- A path leads on in an inner statement where it leads on in another one. -/
theorem foldlM_onward?_inner {before : List String} : ∀ {place there : Place},
    before.foldlM (c.onward? false) place = some there →
      before.foldlM (c.onward? inner) place = some there := by
  induction before with
  | nil => exact fun h => h
  | cons segment rest ih =>
    intro place there h
    rw [List.foldlM_cons, Option.bind_eq_bind, Option.bind_eq_some_iff] at h ⊢
    obtain ⟨next, hnext, hrest⟩ := h
    refine ⟨next, ?_, ih hrest⟩
    rw [onward?] at hnext ⊢
    split at hnext
    · next hleads => exact (if_pos (leadsOn_inner hleads)).trans hnext
    · cases hnext

/-- An inner statement joins what another one joins. -/
theorem prefixTarget?_inner {path : List String} {target : String}
    (h : c.prefixTarget? false collection path = some target) :
    c.prefixTarget? inner collection path = some target := by
  rcases List.eq_nil_or_concat path with rfl | ⟨before, segment, rfl⟩
  · cases h
  · rw [List.concat_eq_append, prefixTarget?_concat, Option.bind_eq_some_iff] at h ⊢
    obtain ⟨place, hplace, htarget⟩ := h
    refine ⟨place, foldlM_onward?_inner hplace, ?_⟩
    rw [joinedTarget?] at htarget ⊢
    split at htarget
    · next hjoined => exact (if_pos (isJoined_inner hjoined)).trans htarget
    · cases htarget

theorem joinsAlong_joinedColumn {paths : List (List String)} {key : String}
    {scope scope' : Scope} {column : Column} {k k' : Nat}
    (hscope : c.JoinsAlong false collection paths scope)
    (h : (c.joinedColumn collection scope key).Gives k (scope', column) k') :
    c.JoinsAlong false collection (paths ++ [fieldPath key]) scope' := by
  simp only [joinedColumn, Compile.gives_bind, Compile.gives_pure] at h
  obtain ⟨⟨scope₁, several⟩, k₁, hjoin, found, k₂, hcolumn, hresult, rfl⟩ := h
  cases hresult
  exact joinsAlong_joinPath (isPath_fieldPath key) hscope hjoin

theorem joinsAlong_sortBy {paths : List (List String)} {entry : String} {scope scope' : Scope}
    {k k' : Nat} (hscope : c.JoinsAlong false collection paths scope)
    (h : (c.sortBy collection scope entry).Gives k scope' k') :
    c.JoinsAlong false collection (paths ++ [sortPath entry]) scope' := by
  simp only [sortBy, Compile.gives_bind, Compile.gives_lift, Compile.gives_pure] at h
  obtain ⟨⟨direction, key⟩, k₁, ⟨hkey, rfl⟩, ⟨scope₁, column⟩, k₂, hjoined, rfl, rfl⟩ := h
  have hnext := joinsAlong_joinedColumn hscope hjoined
  rw [← fieldPath_of_sortKey hkey]
  exact hnext

theorem joinsAlong_groupBy {paths : List (List String)} {key : String} {scope scope' : Scope}
    {k k' : Nat} (hscope : c.JoinsAlong false collection paths scope)
    (h : (c.groupBy collection scope key).Gives k scope' k') :
    c.JoinsAlong false collection (paths ++ [fieldPath key]) scope' := by
  simp only [groupBy, Compile.gives_bind, Compile.gives_pure] at h
  obtain ⟨⟨scope₁, column⟩, k₁, hjoined, rfl, rfl⟩ := h
  have hnext := joinsAlong_joinedColumn hscope hjoined
  exact hnext

theorem joinsAlong_orderStage {q : Query} {r : Request} {scope : Scope} {k k' : Nat}
    (hjoins : q.joins = []) (h : (c.orderStage collection inner r q).Gives k scope k') :
    c.JoinsAlong false collection (if inner then [] else r.sort.map sortPath) scope := by
  unfold orderStage at h
  split at h
  · next hinner =>
    obtain ⟨rfl, rfl⟩ := Compile.gives_pure.mp h
    rw [if_pos hinner]
    exact joinsAlong_nil hjoins
  · next hinner =>
    rw [if_neg hinner]
    obtain ⟨window, hwindow⟩ := Query.narrow_eq q (c.options.window r)
    rw [hwindow] at h
    refine Compile.foldlM_builds
      (P := fun done s _ => c.JoinsAlong false collection (done.map sortPath) s) ?_
      (joinsAlong_nil (q := { q with window }) hjoins) h
    intro done s entry j s' j' hdone hstep
    rw [List.map_append, List.map_singleton]
    exact joinsAlong_sortBy hdone hstep

theorem joinsAlong_searchStage {paths : List (List String)} {r : Request} {scope scope' : Scope}
    {k k' : Nat} (hscope : c.JoinsAlong false collection paths scope)
    (h : (c.searchStage collection r scope).Gives k scope' k') :
    c.JoinsAlong false collection paths scope' := by
  unfold searchStage at h
  split at h
  · obtain ⟨rfl, rfl⟩ := Compile.gives_pure.mp h
    exact hscope
  · simp only [Compile.gives_map, search, Compile.gives_bind, ask_gives, Compile.gives_pure] at h
    obtain ⟨sought, ⟨fields, k₁, -, rfl, -⟩, rfl⟩ := h
    exact hscope

theorem joinsAlong_groupStage {paths : List (List String)} {r : Request} {scope scope' : Scope}
    {k k' : Nat} (hscope : c.JoinsAlong false collection paths scope)
    (h : (r.group.foldlM (c.groupBy collection) scope).Gives k scope' k') :
    c.JoinsAlong false collection (paths ++ r.group.map fieldPath) scope' := by
  refine Compile.foldlM_builds (P := fun done s _ =>
    c.JoinsAlong false collection (paths ++ done.map fieldPath) s) ?_ ?_ h
  · intro done s key j s' j' hdone hstep
    rw [List.map_append, List.map_singleton, ← List.append_assoc]
    exact joinsAlong_groupBy hdone hstep
  · rw [List.map_nil, List.append_nil]
    exact hscope

/-- The joins before the filter match the prefixes of the ordering and of the groups. -/
theorem joinsAlong_before {q : Query} {r : Request} {applied : Applied} {k k' : Nat}
    (hjoins : q.joins = []) (h : (c.apply collection q r inner).Gives k applied k') :
    ∃ scope k₁ scope' k₂, c.JoinsAlong false collection (earlierPaths inner r) scope ∧
      (c.filterStage collection inner r scope).Gives k₁ (scope', applied.repeatsRows) k₂ := by
  simp only [apply_eq, Compile.gives_bind, Compile.gives_pure] at h
  obtain ⟨info, k₁, hinfo, scope₁, k₂, horder, scope₂, k₃, hsearch, scope₃, k₄, hgroup,
    ⟨scope₄, repeatsRows⟩, k₅, hfilter, scope₅, k₆, haggregate, rfl, rfl⟩ := h
  have hjoined := joinsAlong_groupStage
    (joinsAlong_searchStage (joinsAlong_orderStage hjoins horder) hsearch) hgroup
  exact ⟨scope₃, k₄, scope₄, k₅, hjoined, hfilter⟩

theorem joinsAlong_filterStage {paths : List (List String)} {r : Request} {scope scope' : Scope}
    {several : Bool} {k k' : Nat} (hscope : c.JoinsAlong false collection paths scope)
    (h : (c.filterStage collection false r scope).Gives k (scope', several) k') :
    c.JoinsAlong false collection (paths ++ c.requestPaths collection r) scope' := by
  unfold filterStage at h
  split at h
  · next hnone =>
    obtain ⟨hresult, rfl⟩ := Compile.gives_pure.mp h
    cases hresult
    rw [requestPaths, hnone, Option.toList_none, List.flatMap_nil, List.append_nil]
    exact hscope
  · next f hsome =>
    obtain ⟨joined, k₁, e?, hjoin, -, hhops, hquery⟩ := addFilter_gives (addFilter_of_restrict h)
    have hjoins : scope'.query.joins = joined.query.joins := by
      rw [hquery]
      cases e? <;> rfl
    rw [joinFilter_eq] at hjoin
    obtain ⟨walked, hmatches⟩ := joinsAlong_joinPaths
      (isPath_of_mem_filterPaths isPath_nil (isUnfolded_unfolded f)) hscope hjoin
    rw [requestPaths, hsome, Option.toList_some, List.flatMap_singleton]
    exact ⟨walked, by rw [hhops, hjoins]; exact hmatches⟩

theorem joinsAlong_aggregateStage {paths : List (List String)} {info : CollectionInfo}
    {r : Request} {scope scope' : Scope} {k k' : Nat}
    (hscope : c.JoinsAlong false info.name paths scope)
    (h : (c.aggregateStage info r scope).Gives k scope' k') :
    c.JoinsAlong false info.name (paths ++ (r.aggregate.flatMap Prod.snd).map fieldPath)
      scope' := by
  unfold aggregateStage at h
  split at h
  · next hempty =>
    obtain ⟨rfl, rfl⟩ := Compile.gives_pure.mp h
    rw [List.isEmpty_iff.mp hempty, List.flatMap_nil, List.map_nil, List.append_nil]
    exact hscope
  · simp only [addAggregate, Compile.gives_bind, Compile.gives_pure] at h
    obtain ⟨joined, k₁, hjoin, items, k₂, -, rfl, rfl⟩ := h
    have hjoined : c.JoinsAlong false info.name
        (paths ++ (r.aggregate.flatMap Prod.snd).map fieldPath) joined := by
      refine Compile.foldlM_builds (P := fun done s _ =>
        c.JoinsAlong false info.name (paths ++ done.map fieldPath) s) ?_ ?_ hjoin
      · intro done s field j s' j' hdone hstep
        obtain ⟨⟨s₁, several⟩, hpath, rfl⟩ := Compile.gives_map.mp hstep
        rw [List.map_append, List.map_singleton, ← List.append_assoc]
        exact joinsAlong_joinPath (isPath_fieldPath field) hdone hpath
      · rw [List.map_nil, List.append_nil]
        exact hscope
    rw [foldl_addItem]
    exact hjoined

/-- A filter is said to join several rows if one of its paths has a prefix that leads to several
rows and is not joined before the filter. -/
theorem repeatsRows_iff {q : Query} {r : Request} {applied : Applied} {k k' : Nat}
    (hjoins : q.joins = []) (h : (c.apply collection q r inner).Gives k applied k') :
    applied.repeatsRows = true ↔ ∃ path ∈ c.requestPaths collection r, ∃ before,
      before <+: path.dropLast ∧ c.JoinsSeveral inner collection before ∧
        ¬ c.JoinsPrefix false collection (earlierPaths inner r) before := by
  obtain ⟨scope, k₁, scope', k₂, ⟨walked, hmatches⟩, hfilter⟩ := joinsAlong_before hjoins h
  -- the joins of an inner statement go on from those of the groups
  have hscope : scope.MatchesPrefixes c inner collection
      (c.JoinsPrefix false collection (earlierPaths inner r)) :=
    ⟨walked, hmatches.distinct, hmatches.complete, hmatches.paths,
      fun entry hentry => prefixTarget?_inner (hmatches.target entry hentry), hmatches.recorded,
      hmatches.joined⟩
  unfold filterStage at hfilter
  split at hfilter
  · next hnone =>
    obtain ⟨hresult, -⟩ := Compile.gives_pure.mp hfilter
    obtain ⟨-, hflag⟩ := Prod.mk.inj hresult
    rw [hflag, requestPaths, hnone]
    simp
  · next f hsome =>
    obtain ⟨scope₁, k₃, e?, hjoin, -, -, -⟩ :=
      addFilter_gives (addFilter_of_restrict hfilter)
    rw [joinFilter_eq] at hjoin
    rw [requestPaths, hsome, Option.toList_some, List.flatMap_singleton]
    exact several_joinPaths (isPath_of_mem_filterPaths isPath_nil (isUnfolded_unfolded f)) hscope
      hjoin

/-- The ordering and the groups of a request join none of the links to several rows that its filter
walks. -/
def JoinsSeveralAnew (c : Context) (inner : Bool) (collection : String) (r : Request) : Prop :=
  ∀ path ∈ c.requestPaths collection r, ∀ before, before <+: path.dropLast →
    c.JoinsSeveral inner collection before →
      ¬ c.JoinsPrefix false collection (earlierPaths inner r) before

instance (paths : List (List String)) (before : List String) :
    Decidable (c.JoinsPrefix inner collection paths before) :=
  inferInstanceAs (Decidable (∃ path ∈ paths,
    before <+: path.dropLast ∧ (c.prefixTarget? inner collection before).isSome))

instance (r : Request) : Decidable (c.JoinsSeveralAnew inner collection r) :=
  decidable_of_iff (∀ path ∈ c.requestPaths collection r, ∀ before ∈ path.dropLast.inits,
      c.JoinsSeveral inner collection before →
        ¬ c.JoinsPrefix false collection (earlierPaths inner r) before) (by
    simp only [List.mem_inits, JoinsSeveralAnew])

end Context

/-! ## Requests -/

/-- Whether a request is said to join several rows is whether a path of its filter walks a link to
several rows, the same for every ordering, all groups and all aggregations, as long as the ordering
and the groups join none of these links before the filter does. -/
theorem repeatsRows_of_apply {s : Schema} {options : Options} {letters : Alias.Letters}
    {collection : String} {q : Query} {r : Request} {inner : Bool} {applied : Applied}
    (h : (s.compiler options letters).apply collection q r inner = .ok applied)
    (hjoins : q.joins = [])
    (hanew : (s.context options (s.compiler options letters).names).JoinsSeveralAnew inner
      collection r) :
    (applied.repeatsRows = true ↔
      ∃ path ∈ (s.context options (s.compiler options letters).names).requestPaths collection r,
        (s.context options (s.compiler options letters).names).WalksSeveral inner collection
          path) ∧
    ∀ other applied', other.filter = r.filter →
      (s.context options (s.compiler options letters).names).JoinsSeveralAnew inner collection
        other →
      (s.compiler options letters).apply collection q other inner = .ok applied' →
      applied'.repeatsRows = applied.repeatsRows := by
  have hrepeats {r : Request} {applied : Applied}
      (h : (s.compiler options letters).apply collection q r inner = .ok applied)
      (hanew : (s.context options (s.compiler options letters).names).JoinsSeveralAnew inner
        collection r) :
      applied.repeatsRows = true ↔
        ∃ path ∈ (s.context options (s.compiler options letters).names).requestPaths collection r,
          (s.context options (s.compiler options letters).names).WalksSeveral inner collection
            path := by
    obtain ⟨relations, k, hrelations, happly⟩ := Compiler.apply_eq_ok h
    obtain rfl : s.relations = relations := Except.ok.inj hrelations
    refine (Context.repeatsRows_iff hjoins happly).trans (exists_congr fun path => ?_)
    refine and_congr_right fun hpath => exists_congr fun before => and_congr_right fun hbefore => ?_
    exact and_iff_left_of_imp (hanew path hpath before hbefore)
  refine ⟨hrepeats h hanew, fun other applied' hfilter hother hagain => ?_⟩
  rw [Bool.eq_iff_iff, hrepeats h hanew, hrepeats hagain hother]
  rw [Context.requestPaths, Context.requestPaths, hfilter]

/-- Comments on articles with a comment that reads like this one. -/
def Request.alongside (sort : List String) : Request where
  filter := some (.of (.field "article.comments.body"
    (.compare [⟨.equal false false, some (.string "x")⟩])))
  sort

theorem repeatsRows_of_apply_blog :
    ∃ applied, (Schema.blog.compiler {} fun _ => 0).apply "comments"
        (Compiler.target "comments" {}) (Request.alongside ["-article.title"]) false =
          .ok applied ∧
      (Schema.blog.context {} (Schema.blog.compiler {} fun _ => 0).names).JoinsSeveralAnew false
        "comments" (Request.alongside ["-article.title"]) ∧
      (applied.repeatsRows = true ↔
        ∃ path ∈ (Schema.blog.context {}
            (Schema.blog.compiler {} fun _ => 0).names).requestPaths "comments"
              (Request.alongside ["-article.title"]),
          (Schema.blog.context {} (Schema.blog.compiler {} fun _ => 0).names).WalksSeveral false
            "comments" path) := by
  obtain ⟨applied, happlied, -⟩ : ∃ applied, (Schema.blog.compiler {} fun _ => 0).apply "comments"
      (Compiler.target "comments" {}) (Request.alongside ["-article.title"]) false =
        .ok applied ∧ applied.repeatsRows = true :=
    Except.exists_eq_ok (by decide +kernel)
  have hanew : (Schema.blog.context {} (Schema.blog.compiler {} fun _ => 0).names).JoinsSeveralAnew
      false "comments" (Request.alongside ["-article.title"]) := by
    decide +kernel
  exact ⟨applied, happlied, hanew, (repeatsRows_of_apply happlied rfl hanew).1⟩

/-- An ordering that joins the comments of the article first hides that the filter joins them. -/
theorem repeatsRows_of_apply_alongside :
    ∃ applied applied', (Schema.blog.compiler {} fun _ => 0).apply "comments"
        (Compiler.target "comments" {}) (Request.alongside ["article.comments.body"]) false =
          .ok applied ∧
      (Schema.blog.compiler {} fun _ => 0).apply "comments"
        (Compiler.target "comments" {}) (Request.alongside []) false = .ok applied' ∧
      (∃ path ∈ (Schema.blog.context {}
            (Schema.blog.compiler {} fun _ => 0).names).requestPaths "comments"
              (Request.alongside ["article.comments.body"]),
          (Schema.blog.context {} (Schema.blog.compiler {} fun _ => 0).names).WalksSeveral false
            "comments" path) ∧
      applied.repeatsRows = false ∧ applied'.repeatsRows = true := by
  obtain ⟨applied, happlied, hhidden⟩ : ∃ applied, (Schema.blog.compiler {} fun _ => 0).apply
      "comments" (Compiler.target "comments" {}) (Request.alongside ["article.comments.body"])
        false = .ok applied ∧ applied.repeatsRows = false :=
    Except.exists_eq_ok (by decide +kernel)
  obtain ⟨applied', happlied', htold⟩ : ∃ applied, (Schema.blog.compiler {} fun _ => 0).apply
      "comments" (Compiler.target "comments" {}) (Request.alongside []) false = .ok applied ∧
        applied.repeatsRows = true :=
    Except.exists_eq_ok (by decide +kernel)
  refine ⟨applied, applied', happlied, happlied', ?_, hhidden, htold⟩
  exact ⟨["article", "comments", "body"], by decide +kernel, ["article", "comments"],
    by decide +kernel, by decide +kernel⟩

end JsonSql
