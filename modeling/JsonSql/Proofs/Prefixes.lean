import JsonSql.Proofs.Joins
import JsonSql.Proofs.Paths
import Mathlib.Data.List.Nodup

set_option autoImplicit false

/-!
# Joined prefixes

Which prefixes of paths a statement joins, and to which collections, said by the links alone
(`Context.prefixTarget?`).  The joins of a statement and the record of them match these prefixes one
to one (`MatchesPrefixes`): joining one more path adds its prefixes that are not joined yet, and
nothing else (`matchesPrefixes_joinPaths`).
-/

namespace JsonSql

open JsonSql.Sql

/-! ## Targets of prefixes -/

/-- The collection that a link leads to. -/
def Link.target? : Link → Option String
  | .none => Option.none
  | .manyToOne r => r.related
  | .manyToAny _ scope => scope
  | .oneToMany r | .oneToAny r => some r.collection

/-- The place of a collection below the root, before it has a name of its own. -/
def Place.below (collection : String) : Place := ⟨collection, collection, false⟩

namespace Context

variable {c : Context} {inner : Bool} {collection : String}

/-- The collection that a segment is joined to from a place, if it is joined. -/
def joinedTarget? (c : Context) (inner : Bool) (place : Place) (segment : String) :
    Option String :=
  if isJoined inner place (c.link place.collection segment) then
    (c.link place.collection segment).target?
  else none

/-- The place that a path leads on from after a segment. -/
def onward? (c : Context) (inner : Bool) (place : Place) (segment : String) : Option Place :=
  if leadsOn inner place (c.link place.collection segment) then
    (c.link place.collection segment).target?.map Place.below
  else none

/-- The collection that a prefix of a path is joined to: its last segment is joined, and those
before it lead on. -/
def prefixTarget? (c : Context) (inner : Bool) (collection : String) (path : List String) :
    Option String := do
  let last ← path.getLast?
  let place ← path.dropLast.foldlM (c.onward? inner) (.root collection)
  c.joinedTarget? inner place last

theorem prefixTarget?_concat (before : List String) (segment : String) :
    c.prefixTarget? inner collection (before ++ [segment]) =
      (before.foldlM (c.onward? inner) (.root collection)).bind fun place =>
        c.joinedTarget? inner place segment := by
  rw [prefixTarget?, List.getLast?_concat, List.dropLast_concat]
  rfl

/-- Whether a link is joined and leads on depends on being at the root only. -/
theorem isJoined_congr {place other : Place} (h : place.isRoot = other.isRoot) (link : Link) :
    isJoined inner place link = isJoined inner other link := by
  cases link <;> simp [isJoined, h]

theorem leadsOn_congr {place other : Place} (h : place.isRoot = other.isRoot) (link : Link) :
    leadsOn inner place link = leadsOn inner other link := by
  cases link <;> simp [leadsOn, h]

theorem joinedTarget?_congr {place other : Place} (hcollection : place.collection = other.collection)
    (hroot : place.isRoot = other.isRoot) (segment : String) :
    c.joinedTarget? inner place segment = c.joinedTarget? inner other segment := by
  rw [joinedTarget?, joinedTarget?, hcollection, isJoined_congr hroot]

theorem onward?_congr {place other : Place} (hcollection : place.collection = other.collection)
    (hroot : place.isRoot = other.isRoot) (segment : String) :
    c.onward? inner place segment = c.onward? inner other segment := by
  rw [onward?, onward?, hcollection, leadsOn_congr hroot]

/-- A segment that leads on is joined. -/
theorem joinedTarget?_of_onward? {place next : Place} {segment : String}
    (h : c.onward? inner place segment = some next) :
    ∃ target, c.joinedTarget? inner place segment = some target ∧ next = .below target := by
  unfold onward? at h
  split at h
  · next hleads =>
    obtain ⟨target, htarget, rfl⟩ := Option.map_eq_some_iff.mp h
    refine ⟨target, ?_, rfl⟩
    have hjoined : isJoined inner place (c.link place.collection segment) = true := by
      cases hlink : c.link place.collection segment with
      | none =>
        rw [hlink] at htarget
        cases htarget
      | manyToOne r | manyToAny r scope | oneToAny r => rfl
      | oneToMany r =>
        rw [hlink] at hleads
        exact hleads
    rw [joinedTarget?, if_pos hjoined]
    exact htarget
  · cases h

/-- The target of a join is that of its link. -/
theorem target?_of_joinTarget {place : Place} {segment table target : String} {link : Link}
    {e : Expr} {k k' : Nat}
    (h : (c.joinTarget place segment table link).Gives k (target, e) k') :
    link.target? = some target := by
  cases link with
  | none => exact absurd h Compile.not_gives_throw
  | manyToOne r =>
    unfold joinTarget at h
    dsimp only at h
    split at h
    · exact absurd h Compile.not_gives_throw
    · next found hrelated =>
      simp only [Compile.gives_bind, Compile.gives_pure] at h
      obtain ⟨primary, k₁, -, hresult, -⟩ := h
      cases hresult
      exact hrelated
  | manyToAny r scope =>
    unfold joinTarget at h
    dsimp only at h
    split at h
    · exact absurd h Compile.not_gives_throw
    · next found =>
      split at h
      · simp only [Compile.gives_bind, Compile.gives_pure] at h
        obtain ⟨column, k₁, -, primary, k₂, -, hresult, -⟩ := h
        cases hresult
        rfl
      · exact absurd h Compile.not_gives_throw
  | oneToMany r =>
    rw [joinTarget] at h
    simp only [Compile.gives_bind, Compile.gives_pure] at h
    obtain ⟨primary, k₁, -, hresult, -⟩ := h
    cases hresult
    rfl
  | oneToAny r =>
    rw [joinTarget] at h
    simp only [Compile.gives_bind, Compile.gives_pure] at h
    obtain ⟨column, k₁, -, primary, k₂, -, hresult, -⟩ := h
    cases hresult
    rfl

/-! ## Prefixes of one path -/

/-- A prefix of a path that is joined on the way along it. -/
def JoinsUpTo (c : Context) (inner : Bool) (collection : String) (path before : List String) :
    Prop :=
  before <+: path ∧ (c.prefixTarget? inner collection before).isSome

/-- Where a path has got to: the place after the segments before, all of which lead on. -/
def HasReached (c : Context) (inner : Bool) (collection : String) (before : List String)
    (place : Place) : Prop :=
  ∃ here, before.foldlM (c.onward? inner) (.root collection) = some here ∧
    here.collection = place.collection ∧ here.isRoot = place.isRoot

namespace HasReached

variable {before : List String} {place : Place} {segment : String}

theorem root : c.HasReached inner collection [] (.root collection) :=
  ⟨.root collection, rfl, rfl, rfl⟩

theorem joinedTarget? (h : c.HasReached inner collection before place) :
    c.prefixTarget? inner collection (before ++ [segment]) =
      c.joinedTarget? inner place segment := by
  obtain ⟨here, hhere, hcollection, hroot⟩ := h
  rw [prefixTarget?_concat, hhere, Option.bind_some, joinedTarget?_congr hcollection hroot]

theorem onward? (h : c.HasReached inner collection before place) :
    (before ++ [segment]).foldlM (c.onward? inner) (.root collection) =
      c.onward? inner place segment := by
  obtain ⟨here, hhere, hcollection, hroot⟩ := h
  rw [List.foldlM_append, hhere]
  simp [onward?_congr hcollection hroot]

/-- A segment that leads on is walked. -/
theorem next (h : c.HasReached inner collection before place) {hop : Hop}
    (hleads : leadsOn inner place (c.link place.collection segment) = true)
    (htarget : (c.link place.collection segment).target? = some hop.collection) :
    c.HasReached inner collection (before ++ [segment]) hop.place := by
  refine ⟨.below hop.collection, ?_, rfl, rfl⟩
  rw [h.onward?, Context.onward?, if_pos hleads, htarget]
  rfl

/-- Beyond a segment that does not lead on nothing is joined. -/
theorem joinsUpTo_of_onward? (h : c.HasReached inner collection before place)
    (hstops : c.onward? inner place segment = none) (rest below : List String) :
    c.JoinsUpTo inner collection (before ++ segment :: rest) below ↔
      c.JoinsUpTo inner collection (before ++ [segment]) below := by
  rw [List.append_cons]
  constructor
  · rintro ⟨hwithin, hsome⟩
    refine ⟨?_, hsome⟩
    rcases List.prefix_or_prefix_of_prefix hwithin (List.prefix_append _ rest) with hshort | hlong
    · exact hshort
    · -- a longer prefix would walk on over the segment
      obtain ⟨more, rfl⟩ := hlong
      rcases List.eq_nil_or_concat more with rfl | ⟨middle, last, rfl⟩
      · exact (List.append_nil _).symm ▸ List.prefix_rfl
      · rw [List.concat_eq_append, ← List.append_assoc, prefixTarget?_concat,
          List.foldlM_append, h.onward?, hstops] at hsome
        cases hsome
  · rintro ⟨hwithin, hsome⟩
    exact ⟨hwithin.trans (List.prefix_append _ _), hsome⟩

/-- A segment that is not joined adds no prefix. -/
theorem joinsUpTo_of_not_joined (h : c.HasReached inner collection before place)
    (hnone : c.joinedTarget? inner place segment = none) (below : List String) :
    c.JoinsUpTo inner collection (before ++ [segment]) below ↔
      c.JoinsUpTo inner collection before below := by
  rw [JoinsUpTo, List.prefix_concat_iff]
  constructor
  · rintro ⟨rfl | hwithin, hsome⟩
    · rw [h.joinedTarget?, hnone] at hsome
      cases hsome
    · exact ⟨hwithin, hsome⟩
  · rintro ⟨hwithin, hsome⟩
    exact ⟨.inr hwithin, hsome⟩

end HasReached

/-- A segment that is joined adds one prefix. -/
theorem joinsUpTo_concat {before : List String} {segment : String}
    (hsome : (c.prefixTarget? inner collection (before ++ [segment])).isSome)
    (below : List String) :
    c.JoinsUpTo inner collection (before ++ [segment]) below ↔
      c.JoinsUpTo inner collection before below ∨ below = before ++ [segment] := by
  rw [JoinsUpTo, List.prefix_concat_iff]
  constructor
  · rintro ⟨rfl | hwithin, hbelow⟩
    · exact .inr rfl
    · exact .inl ⟨hwithin, hbelow⟩
  · rintro (⟨hwithin, hbelow⟩ | rfl)
    · exact ⟨.inr hwithin, hbelow⟩
    · exact ⟨.inl rfl, hsome⟩

end Context

/-! ## Records of joins -/

theorem member?_isSome {α : Type} {key : String} {members : List (String × α)}
    (h : key ∈ members.map Prod.fst) : (member? key members).isSome := by
  induction members with
  | nil => cases h
  | cons m rest ih =>
    obtain ⟨k, v⟩ := m
    rw [member?]
    split
    · rfl
    · next hkey =>
      rcases List.mem_cons.mp h with hsame | h
      · exact absurd hsame.symm hkey
      · exact ih h

/-- A new member is put at the end. -/
theorem putMember_of_fresh {α : Type} {key : String} {members : List (String × α)}
    (h : member? key members = none) (value : α) :
    putMember key value members = members ++ [(key, value)] := by
  induction members with
  | nil => rfl
  | cons m rest ih =>
    obtain ⟨k, v⟩ := m
    rw [member?] at h
    split at h
    · cases h
    · next hkey => rw [putMember, if_neg hkey, ih h, List.cons_append]

/-- The joins of a statement and the record of them match prefixes of paths, one join for each
prefix: it goes by the name and leads to the collection that are recorded for the prefix. -/
structure MatchesPrefixes (c : Context) (inner : Bool) (collection : String)
    (prefixes : List String → Prop) (walked : List (List String × Hop)) (hops : Hops)
    (joins : List Join) : Prop where
  distinct : (walked.map Prod.fst).Nodup
  complete : ∀ before, before ∈ walked.map Prod.fst ↔ prefixes before
  paths : ∀ before, prefixes before → IsPath before
  target : ∀ entry ∈ walked,
    c.prefixTarget? inner collection entry.1 = some entry.2.collection
  recorded : hops.entries = walked.map fun entry => (Hops.key entry.1, entry.2)
  joined : joins.map Join.target =
    walked.map fun entry => ⟨entry.2.collection, some entry.2.name⟩

namespace MatchesPrefixes

variable {c : Context} {inner : Bool} {collection : String} {prefixes : List String → Prop}
  {walked : List (List String × Hop)} {hops : Hops} {joins : List Join}

theorem nil : MatchesPrefixes c inner collection (fun _ => False) [] {} [] := by
  refine ⟨List.nodup_nil, fun before => ?_, fun _ h => h.elim, ?_, rfl, rfl⟩
  · simp
  · intro entry h
    cases h

theorem congr (h : MatchesPrefixes c inner collection prefixes walked hops joins)
    {others : List String → Prop} (hsame : ∀ before, others before ↔ prefixes before) :
    MatchesPrefixes c inner collection others walked hops joins := by
  have hothers : others = prefixes := funext fun before => propext (hsame before)
  rw [hothers]
  exact h

/-- Only prefixes with a segment are joined. -/
theorem ne_nil (h : MatchesPrefixes c inner collection prefixes walked hops joins)
    {entry : List String × Hop} (hentry : entry ∈ walked) : entry.1 ≠ [] := by
  intro hnil
  have htarget := h.target entry hentry
  rw [hnil] at htarget
  cases htarget

/-- What is recorded for a path is what was joined for it. -/
theorem mem_of_get? (h : MatchesPrefixes c inner collection prefixes walked hops joins)
    {path : List String} (hpath : IsPath path) (hne : path ≠ []) {hop : Hop}
    (hfound : hops.get? path = some hop) : (path, hop) ∈ walked := by
  have hmem := member?_mem hfound
  rw [h.recorded] at hmem
  obtain ⟨⟨other, found⟩, hother, hentry⟩ := List.mem_map.mp hmem
  obtain ⟨hkey, rfl⟩ := Prod.mk.inj hentry
  have hothers : IsPath other :=
    h.paths other ((h.complete other).mp (List.mem_map_of_mem hother))
  rw [Hops.key_injective hpath hothers hne (h.ne_nil hother) hkey.symm]
  exact hother

theorem get?_isSome (h : MatchesPrefixes c inner collection prefixes walked hops joins)
    {path : List String} (hpath : prefixes path) : (hops.get? path).isSome := by
  refine member?_isSome ?_
  obtain ⟨entry, hentry, rfl⟩ := List.mem_map.mp ((h.complete path).mpr hpath)
  rw [h.recorded, List.map_map]
  exact List.mem_map.mpr ⟨entry, hentry, rfl⟩

/-- What was joined for a prefix is recorded for it. -/
theorem get?_of_mem (h : MatchesPrefixes c inner collection prefixes walked hops joins)
    {path : List String} {hop : Hop} (hmem : (path, hop) ∈ walked) : hops.get? path = some hop := by
  have hprefix := (h.complete path).mp (List.mem_map_of_mem (f := Prod.fst) hmem)
  obtain ⟨found, hfound⟩ := Option.isSome_iff_exists.mp (h.get?_isSome hprefix)
  have hother := h.mem_of_get? (h.paths path hprefix) (h.ne_nil hmem) hfound
  have hsame := List.inj_on_of_nodup_map h.distinct hother hmem rfl
  rw [hfound, (Prod.mk.inj hsame).2]

/-- One more join for a prefix that is not joined yet. -/
theorem insert (h : MatchesPrefixes c inner collection prefixes walked hops joins)
    {path : List String} {hop : Hop} {condition : Expr} (hpath : IsPath path)
    (hfresh : hops.get? path = none)
    (htarget : c.prefixTarget? inner collection path = some hop.collection) :
    MatchesPrefixes c inner collection (fun before => prefixes before ∨ before = path)
      (walked ++ [(path, hop)]) (hops.insert path hop)
      (joins ++ [⟨⟨hop.collection, some hop.name⟩, condition⟩]) := by
  have hnew : path ∉ walked.map Prod.fst := by
    intro hmem
    have hsome := h.get?_isSome ((h.complete path).mp hmem)
    rw [hfresh] at hsome
    cases hsome
  refine ⟨?_, ?_, ?_, ?_, ?_, ?_⟩
  · rw [List.map_append, List.nodup_append]
    refine ⟨h.distinct, List.pairwise_singleton _ _, ?_⟩
    rintro before hbefore other hother rfl
    rw [List.map_singleton, List.mem_singleton] at hother
    rw [hother] at hbefore
    exact hnew hbefore
  · intro before
    rw [List.map_append, List.mem_append, h.complete, List.map_singleton, List.mem_singleton]
  · rintro before (hbefore | rfl)
    · exact h.paths before hbefore
    · exact hpath
  · intro entry hentry
    rcases List.mem_append.mp hentry with hentry | hentry
    · exact h.target entry hentry
    · rw [List.mem_singleton.mp hentry]
      exact htarget
  · rw [Hops.insert, putMember_of_fresh hfresh, h.recorded, List.map_append,
      List.map_singleton]
  · rw [List.map_append, h.joined, List.map_append]
    rfl

end MatchesPrefixes

/-! ## Runs -/

/-- The joins of a scope match prefixes of paths. -/
def Scope.MatchesPrefixes (c : Context) (inner : Bool) (collection : String)
    (prefixes : List String → Prop) (scope : Scope) : Prop :=
  ∃ walked, JsonSql.MatchesPrefixes c inner collection prefixes walked scope.hops
    scope.query.joins

namespace Context

variable {c : Context} {inner : Bool} {collection : String}

theorem matchesPrefixes_congr {prefixes others : List String → Prop} {scope : Scope}
    (h : scope.MatchesPrefixes c inner collection prefixes)
    (hsame : ∀ before, others before ↔ prefixes before) :
    scope.MatchesPrefixes c inner collection others := by
  obtain ⟨walked, h⟩ := h
  exact ⟨walked, h.congr hsame⟩

/-- A prefix that is recorded is joined already. -/
theorem matchesPrefixes_found {prefixes : List String → Prop} {scope : Scope}
    {before : List String} {segment : String} {hop : Hop} (hpath : IsPath (before ++ [segment]))
    (h : scope.MatchesPrefixes c inner collection
      (fun below => prefixes below ∨ c.JoinsUpTo inner collection before below))
    (hfound : scope.hops.get? (before ++ [segment]) = some hop) :
    c.prefixTarget? inner collection (before ++ [segment]) = some hop.collection ∧
      scope.MatchesPrefixes c inner collection (fun below => prefixes below ∨
        c.JoinsUpTo inner collection (before ++ [segment]) below) := by
  obtain ⟨walked, hmatches⟩ := h
  have hmem := hmatches.mem_of_get? hpath (by simp) hfound
  have htarget := hmatches.target _ hmem
  refine ⟨htarget, walked, hmatches.congr fun below => ?_⟩
  have hknown := (hmatches.complete _).mp (List.mem_map_of_mem (f := Prod.fst) hmem)
  rw [joinsUpTo_concat (by rw [htarget]; rfl), ← or_assoc]
  constructor
  · rintro (hbelow | rfl)
    · exact hbelow
    · exact hknown
  · exact .inl

/-- A prefix that is not recorded is joined and recorded. -/
theorem matchesPrefixes_join {prefixes : List String → Prop} {scope scope' : Scope}
    {before : List String} {segment : String} {place : Place} {hop : Hop} {k k' : Nat}
    (hpath : IsPath (before ++ [segment])) (hreached : c.HasReached inner collection before place)
    (h : scope.MatchesPrefixes c inner collection
      (fun below => prefixes below ∨ c.JoinsUpTo inner collection before below))
    (hfresh : scope.hops.get? (before ++ [segment]) = none)
    (hjoined : isJoined inner place (c.link place.collection segment) = true)
    (hjoin : (c.join scope (before ++ [segment]) place segment
      (c.link place.collection segment)).Gives k (scope', hop) k') :
    (c.link place.collection segment).target? = some hop.collection ∧
      scope'.MatchesPrefixes c inner collection (fun below => prefixes below ∨
        c.JoinsUpTo inner collection (before ++ [segment]) below) := by
  obtain ⟨walked, hmatches⟩ := h
  obtain ⟨target, condition, htarget, rfl, rfl⟩ := join_gives hjoin
  have hlink := target?_of_joinTarget htarget
  have hwithin : c.prefixTarget? inner collection (before ++ [segment]) = some target := by
    rw [hreached.joinedTarget?, joinedTarget?, if_pos hjoined]
    exact hlink
  refine ⟨hlink, _, (hmatches.insert hpath hfresh hwithin).congr fun below => ?_⟩
  rw [joinsUpTo_concat (by rw [hwithin]; rfl), or_assoc]

/-- Joining from a place that a path has reached adds the prefixes of the path beyond it.  The
invariant of the walk is that the prefixes up to the place are joined. -/
theorem matchesPrefixes_joinFrom {prefixes : List String → Prop} :
    ∀ {rest : List String} {segment : String} {before : List String} {place : Place}
      {scope scope' : Scope} {several : Bool} {k k' : Nat},
      IsPath (before ++ segment :: rest) → c.HasReached inner collection before place →
      scope.MatchesPrefixes c inner collection
        (fun below => prefixes below ∨ c.JoinsUpTo inner collection before below) →
      (c.joinFrom inner place before scope (segment :: rest)).Gives k (scope', several) k' →
      scope'.MatchesPrefixes c inner collection (fun below => prefixes below ∨
        c.JoinsUpTo inner collection (before ++ segment :: rest).dropLast below) := by
  intro rest
  induction rest with
  | nil =>
    intro segment before place scope scope' several k k' _ _ hscope h
    obtain ⟨h, rfl⟩ := Compile.gives_pure.mp h
    cases h
    rw [List.dropLast_concat]
    exact hscope
  | cons next rest ih =>
    intro segment before place scope scope' several k k' hpath hreached hscope h
    have hwhole : before ++ segment :: next :: rest = (before ++ [segment]) ++ next :: rest := by
      rw [List.append_assoc, List.singleton_append]
    have hinit : (before ++ segment :: next :: rest).dropLast =
        before ++ segment :: (next :: rest).dropLast := by
      rw [List.dropLast_append_of_ne_nil (List.cons_ne_nil _ _),
        List.dropLast_cons_of_ne_nil (List.cons_ne_nil _ _)]
    have hsegment : IsPath (before ++ [segment]) := fun s hs =>
      hpath s (hwhole ▸ List.mem_append_left _ hs)
    -- the walk stops at the segment, whether it is joined or not
    have hstop {scope : Scope} (hstops : c.onward? inner place segment = none)
        (hscope : scope.MatchesPrefixes c inner collection (fun below => prefixes below ∨
          c.JoinsUpTo inner collection (before ++ [segment]) below)) :
        scope.MatchesPrefixes c inner collection (fun below => prefixes below ∨
          c.JoinsUpTo inner collection (before ++ segment :: next :: rest).dropLast below) := by
      refine matchesPrefixes_congr hscope fun below => ?_
      rw [hinit, hreached.joinsUpTo_of_onward? hstops]
    have hskip (hnone : c.joinedTarget? inner place segment = none) :
        scope.MatchesPrefixes c inner collection (fun below => prefixes below ∨
          c.JoinsUpTo inner collection (before ++ segment :: next :: rest).dropLast below) := by
      refine hstop ?_ (matchesPrefixes_congr hscope fun below => by
        rw [hreached.joinsUpTo_of_not_joined hnone])
      cases honward : c.onward? inner place segment with
      | none => rfl
      | some there =>
        obtain ⟨target, htarget, -⟩ := joinedTarget?_of_onward? honward
        rw [hnone] at htarget
        cases htarget
    rw [hwhole] at hpath
    rw [joinFrom] at h
    dsimp only at h
    split at h
    · next hlink =>
      obtain ⟨h, rfl⟩ := Compile.gives_pure.mp h
      cases h
      exact hskip (by rw [joinedTarget?, hlink]; rfl)
    · next hop hfound _ =>
      obtain ⟨htarget, hknown⟩ := matchesPrefixes_found hsegment hscope hfound
      split at h
      · next hleads =>
        have hlink : (c.link place.collection segment).target? = some hop.collection := by
          rw [hreached.joinedTarget?, joinedTarget?] at htarget
          split at htarget
          · exact htarget
          · cases htarget
        rw [hwhole]
        exact ih hpath (hreached.next hleads hlink) hknown h
      · next hstays =>
        obtain ⟨h, rfl⟩ := Compile.gives_pure.mp h
        cases h
        exact hstop (if_neg hstays) hknown
    · next hfresh _ =>
      split at h
      · next hjoined =>
        simp only [Compile.gives_bind] at h
        obtain ⟨⟨scope₁, hop⟩, k₁, hjoin, h⟩ := h
        obtain ⟨hlink, hnext⟩ :=
          matchesPrefixes_join hsegment hreached hscope hfresh hjoined hjoin
        split at h
        · next hleads =>
          simp only [Compile.gives_bind, Compile.gives_pure] at h
          obtain ⟨⟨scope₂, several₂⟩, k₂, h, hresult, rfl⟩ := h
          cases hresult
          rw [hwhole]
          exact ih hpath (hreached.next hleads hlink) hnext h
        · next hstays =>
          obtain ⟨h, rfl⟩ := Compile.gives_pure.mp h
          cases h
          exact hstop (if_neg hstays) hnext
      · next hskipped =>
        obtain ⟨h, rfl⟩ := Compile.gives_pure.mp h
        cases h
        exact hskip (if_neg hskipped)

/-- Joining one more path adds its prefixes. -/
theorem matchesPrefixes_joinPath {prefixes : List String → Prop} {path : List String}
    {scope scope' : Scope} {several : Bool} {k k' : Nat} (hpath : IsPath path)
    (hscope : scope.MatchesPrefixes c inner collection prefixes)
    (h : (c.joinPath inner collection scope path).Gives k (scope', several) k') :
    scope'.MatchesPrefixes c inner collection
      (fun below => prefixes below ∨ c.JoinsUpTo inner collection path.dropLast below) := by
  have hnone (below : List String) : ¬ c.JoinsUpTo inner collection [] below := by
    rintro ⟨hwithin, hsome⟩
    rw [List.prefix_nil.mp hwithin] at hsome
    cases hsome
  have hstart : scope.MatchesPrefixes c inner collection
      (fun below => prefixes below ∨ c.JoinsUpTo inner collection [] below) :=
    matchesPrefixes_congr hscope fun below => or_iff_left (hnone below)
  cases path with
  | nil =>
    obtain ⟨h, rfl⟩ := Compile.gives_pure.mp h
    cases h
    exact hstart
  | cons segment rest => exact matchesPrefixes_joinFrom hpath .root hstart h

/-- The prefixes of paths that are joined. -/
def JoinsPrefix (c : Context) (inner : Bool) (collection : String) (paths : List (List String))
    (before : List String) : Prop :=
  ∃ path ∈ paths, c.JoinsUpTo inner collection path.dropLast before

theorem joinsPrefix_append {first second : List (List String)} {before : List String} :
    c.JoinsPrefix inner collection (first ++ second) before ↔
      c.JoinsPrefix inner collection first before ∨
        c.JoinsPrefix inner collection second before := by
  simp only [JoinsPrefix, List.mem_append, or_and_right, exists_or]

theorem joinsPrefix_singleton {path before : List String} :
    c.JoinsPrefix inner collection [path] before ↔
      c.JoinsUpTo inner collection path.dropLast before := by
  simp [JoinsPrefix]

/-- A scope whose joins match the prefixes of these paths. -/
def JoinsAlong (c : Context) (inner : Bool) (collection : String) (paths : List (List String))
    (scope : Scope) : Prop :=
  scope.MatchesPrefixes c inner collection (c.JoinsPrefix inner collection paths)

theorem joinsAlong_nil {q : Query} (hjoins : q.joins = []) :
    c.JoinsAlong inner collection [] { query := q } := by
  refine ⟨[], ?_⟩
  rw [hjoins]
  exact MatchesPrefixes.nil.congr fun before => by simp [JoinsPrefix]

theorem joinsAlong_joinPath {paths : List (List String)} {path : List String}
    {scope scope' : Scope} {several : Bool} {k k' : Nat} (hpath : IsPath path)
    (hscope : c.JoinsAlong inner collection paths scope)
    (h : (c.joinPath inner collection scope path).Gives k (scope', several) k') :
    c.JoinsAlong inner collection (paths ++ [path]) scope' :=
  matchesPrefixes_congr (matchesPrefixes_joinPath hpath hscope h) fun before => by
    rw [joinsPrefix_append, joinsPrefix_singleton]

/-- Joining paths one after another joins their prefixes. -/
theorem joinsAlong_joinPaths {others : List (List String)} :
    ∀ {paths : List (List String)} {scope scope' : Scope} {several : Bool} {k k' : Nat},
      (∀ path ∈ others, IsPath path) → c.JoinsAlong inner collection paths scope →
      (c.joinPaths inner collection scope others).Gives k (scope', several) k' →
      c.JoinsAlong inner collection (paths ++ others) scope' := by
  induction others with
  | nil =>
    intro paths scope scope' several k k' _ hscope h
    obtain ⟨h, rfl⟩ := Compile.gives_pure.mp h
    cases h
    rw [List.append_nil]
    exact hscope
  | cons path rest ih =>
    intro paths scope scope' several k k' hpaths hscope h
    simp only [joinPaths, Compile.gives_bind, Compile.gives_pure] at h
    obtain ⟨⟨scope₁, several₁⟩, k₁, hfirst, ⟨scope₂, several₂⟩, k₂, hrest, hresult, rfl⟩ := h
    cases hresult
    have hnext := joinsAlong_joinPath (hpaths path List.mem_cons_self) hscope hfirst
    rw [List.append_cons]
    exact ih (fun p hp => hpaths p (List.mem_cons_of_mem _ hp)) hnext hrest

namespace JoinsAlong

variable {paths : List (List String)} {scope : Scope} {path : List String}

/-- What is recorded for a path is one of the prefixes, and is joined to where it leads. -/
theorem of_get? (h : c.JoinsAlong inner collection paths scope) (hpath : IsPath path)
    (hne : path ≠ []) {hop : Hop} (hfound : scope.hops.get? path = some hop) :
    c.JoinsPrefix inner collection paths path ∧
      c.prefixTarget? inner collection path = some hop.collection := by
  obtain ⟨walked, hmatches⟩ := h
  have hmem := hmatches.mem_of_get? hpath hne hfound
  exact ⟨(hmatches.complete path).mp (List.mem_map_of_mem (f := Prod.fst) hmem),
    hmatches.target _ hmem⟩

theorem isSome_get?_iff (h : c.JoinsAlong inner collection paths scope) (hpath : IsPath path)
    (hne : path ≠ []) :
    (scope.hops.get? path).isSome ↔ c.JoinsPrefix inner collection paths path := by
  constructor
  · intro hsome
    obtain ⟨hop, hfound⟩ := Option.isSome_iff_exists.mp hsome
    exact (h.of_get? hpath hne hfound).1
  · intro hjoined
    obtain ⟨walked, hmatches⟩ := h
    exact hmatches.get?_isSome hjoined

/-- A prefix that is joined has a segment, and is a path of segments. -/
theorem isPath (h : c.JoinsAlong inner collection paths scope)
    (hjoined : c.JoinsPrefix inner collection paths path) : path ≠ [] ∧ IsPath path := by
  obtain ⟨walked, hmatches⟩ := h
  refine ⟨?_, hmatches.paths path hjoined⟩
  rintro rfl
  obtain ⟨-, -, -, hnone⟩ := hjoined
  cases hnone

end JoinsAlong

end Context

end JsonSql
