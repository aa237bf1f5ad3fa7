import JsonSql.Proofs.Carried
import JsonSql.Proofs.Parts

set_option autoImplicit false

/-!
# Paths that can be joined

Whether a path can be joined is said by its links alone (`Context.JoinsFrom`), so it depends neither
on the statement nor on what is joined before.  What one statement has joined another one can join,
in any order and as often as it likes (`carries_joinPaths_subset`).
-/

namespace JsonSql

open JsonSql.Sql

namespace Compile

variable {α β : Type} {R : α → β → Prop} {x : Compile α} {y : Compile β}

/-- What either step gives is known of its results. -/
theorem Carries.of_gives {P : α → Prop} {Q : β → Prop} (h : Carries R x y)
    (hleft : ∀ k a k', x.Gives k a k' → P a) (hright : ∀ k b k', y.Gives k b k' → Q b) :
    Carries (fun a b => R a b ∧ P a ∧ Q b) x y := by
  intro k a k' ha j
  obtain ⟨b, j', hb, hab⟩ := h k a k' ha j
  exact ⟨b, j', hb, hab, hleft k a k' ha, hright j b j' hb⟩

end Compile

open Compile (Carries carries_pure)

/-! ## Joins that can be made again -/

/-- A segment can be joined from a collection, whatever the tables are called. -/
def Context.JoinsTo (c : Context) (owner segment target : String) : Prop :=
  ∀ (place : Place) (table : String) (k : Nat), place.collection = owner →
    ∃ condition k', (c.joinTarget place segment table (c.link owner segment)).Gives k
      (target, condition) k'

/-- Every join that is recorded can be made again from where its path has led before. -/
def Hops.Joinable (c : Context) (collection : String) (hops : Hops) : Prop :=
  ∀ before segment hop, IsPath (before ++ [segment]) →
    hops.get? (before ++ [segment]) = some hop →
    ∃ owner, c.destination? collection before = some owner ∧ c.JoinsTo owner segment hop.collection

/-- Every segment on the way along a path can be joined, if it is joined at all. -/
def Context.JoinsFrom (c : Context) (inner : Bool) : Place → List String → Prop
  | place, segment :: next :: rest =>
    (isJoined inner place (c.link place.collection segment) = true →
      ∃ target, c.JoinsTo place.collection segment target) ∧
    ∀ there, c.onward? inner place segment = some there → c.JoinsFrom inner there (next :: rest)
  | _, _ => True

theorem Context.JoinsTo.target? {c : Context} {owner segment target : String}
    (h : c.JoinsTo owner segment target) : (c.link owner segment).target? = some target := by
  obtain ⟨condition, k', hgives⟩ := h ⟨owner, "", false⟩ "" 0 rfl
  exact target?_of_joinTarget hgives

namespace Hops

variable {c : Context} {collection : String} {hops : Hops}

theorem joinable_empty : Joinable c collection {} := fun _ _ _ _ hfound => (by cases hfound)

theorem Joinable.insert {before : List String} {segment owner : String} {hop : Hop}
    (h : Joinable c collection hops) (hpath : IsPath (before ++ [segment]))
    (howner : c.destination? collection before = some owner)
    (hjoins : c.JoinsTo owner segment hop.collection) :
    Joinable c collection (hops.insert (before ++ [segment]) hop) := by
  intro before' segment' found hpath' hfound
  rcases get?_insert_eq_some hfound with ⟨hkey, rfl⟩ | ⟨-, hold⟩
  · have hsame := key_injective hpath' hpath (by simp) (by simp) hkey
    obtain ⟨rfl, hsegment⟩ := List.append_inj' hsame rfl
    obtain rfl := List.singleton_inj.mp hsegment
    exact ⟨owner, howner, hjoins⟩
  · exact h before' segment' found hpath' hold

theorem Leads.insert {before : List String} {segment : String} {hop : Hop}
    (h : Leads c collection hops) (hpath : IsPath (before ++ [segment]))
    (hthere : c.destination? collection (before ++ [segment]) = some hop.collection) :
    Leads c collection (hops.insert (before ++ [segment]) hop) := by
  intro other found hne hother hfound
  rcases get?_insert_eq_some hfound with ⟨hkey, rfl⟩ | ⟨-, hold⟩
  · obtain rfl := key_injective hother hpath hne (by simp) hkey
    exact hthere
  · exact h other found hne hother hold

/-- What can be joined again leads where its path leads. -/
theorem Joinable.leads (h : Joinable c collection hops) : hops.Leads c collection := by
  intro path hop hne hpath hfound
  obtain ⟨before, segment, rfl⟩ := (List.eq_nil_or_concat' path).resolve_left hne
  obtain ⟨owner, howner, hjoins⟩ := h before segment hop hpath hfound
  rw [Context.destination?_concat, howner, Option.bind_some, hjoins.target?]

end Hops

namespace Context

variable {c : Context} {inner : Bool} {collection : String}

theorem joinsTo_of_gives {place : Place} {segment table target : String} {condition : Expr}
    {k k' : Nat} (h : (c.joinTarget place segment table (c.link place.collection segment)).Gives k
      (target, condition) k') :
    c.JoinsTo place.collection segment target := by
  intro place' table' j hsame
  have hcarries : Carries (fun found found' => found.1 = found'.1)
      (c.joinTarget place segment table (c.link place.collection segment))
      (c.joinTarget place' segment table' (c.link place.collection segment)) :=
    carries_joinTarget hsame.symm _
  obtain ⟨⟨found, condition'⟩, j', hfound, rfl⟩ := hcarries k (target, condition) k' h j
  exact ⟨condition', j', hfound⟩

/-- The name of the table that a path starts from does not matter. -/
theorem joinsFrom_congr {place other : Place} (hsame : place.collection = other.collection)
    (hroot : place.isRoot = other.isRoot) (path : List String) :
    c.JoinsFrom inner place path ↔ c.JoinsFrom inner other path := by
  match path with
  | [] | [_] => exact Iff.rfl
  | segment :: next :: rest =>
    rw [JoinsFrom, JoinsFrom, hsame, isJoined_congr hroot, onward?_congr hsame hroot]

theorem joinsFrom_place (hop : Hop) (path : List String) :
    c.JoinsFrom inner hop.place path ↔ c.JoinsFrom inner (.below hop.collection) path := by
  apply joinsFrom_congr <;> rfl

/-- From a segment that leads on, a path goes on where the join of the segment has led. -/
theorem joinsFrom_cons {place : Place} {segment next : String} {rest : List String} (hop : Hop)
    (htarget : c.JoinsTo place.collection segment hop.collection)
    (hnext : leadsOn inner place (c.link place.collection segment) = true →
      c.JoinsFrom inner hop.place (next :: rest)) :
    c.JoinsFrom inner place (segment :: next :: rest) := by
  refine ⟨fun _ => ⟨hop.collection, htarget⟩, fun there hthere => ?_⟩
  unfold onward? at hthere
  split at hthere
  · next hleads =>
    rw [htarget.target?, Option.map_some] at hthere
    rw [← Option.some.inj hthere]
    exact (joinsFrom_place hop _).mp (hnext hleads)
  · cases hthere

/-- What is joined along the segments of a path can be joined, and all that is recorded can still be
joined again. -/
theorem joinsFrom_of_gives {segments : List String} :
    ∀ (before : List String) (place : Place) {scope scope' : Scope} {several : Bool} {k k' : Nat},
      IsPath (before ++ segments) → c.destination? collection before = some place.collection →
      scope.hops.Joinable c collection →
      (c.joinFrom inner place before scope segments).Gives k (scope', several) k' →
      c.JoinsFrom inner place segments ∧ scope'.hops.Joinable c collection := by
  induction segments with
  | nil =>
    intro before place scope scope' several k k' _ _ hjoinable h
    obtain ⟨h, rfl⟩ := Compile.gives_pure.mp h
    cases h
    exact ⟨trivial, hjoinable⟩
  | cons segment segments ih =>
    intro before place scope scope' several k k' hpath howner hjoinable h
    cases segments with
    | nil =>
      obtain ⟨h, rfl⟩ := Compile.gives_pure.mp h
      cases h
      exact ⟨trivial, hjoinable⟩
    | cons next rest =>
      rw [List.append_cons] at hpath
      have hsegment : IsPath (before ++ [segment]) := fun s hs =>
        hpath s (List.mem_append_left _ hs)
      have hthere {target : String} (htarget : c.JoinsTo place.collection segment target) :
          c.destination? collection (before ++ [segment]) = some target := by
        rw [destination?_concat, howner, Option.bind_some, htarget.target?]
      -- a segment that is not joined ends the path
      have hstops (hnone : isJoined inner place (c.link place.collection segment) = false) :
          c.JoinsFrom inner place (segment :: next :: rest) := by
        refine ⟨fun hjoined => absurd hjoined (by rw [hnone]; exact Bool.false_ne_true),
          fun there hthere => ?_⟩
        obtain ⟨target, htarget, -⟩ := joinedTarget?_of_onward? hthere
        rw [joinedTarget?, hnone] at htarget
        cases htarget
      rw [joinFrom_cons] at h
      split at h
      · next hlink =>
        obtain ⟨h, rfl⟩ := Compile.gives_pure.mp h
        cases h
        exact ⟨hstops (by rw [hlink]; rfl), hjoinable⟩
      · next hlink =>
        split at h
        · next hop hfound =>
          obtain ⟨owner, howner', htarget⟩ := hjoinable before segment hop hsegment hfound
          obtain rfl : place.collection = owner := Option.some.inj (howner.symm.trans howner')
          split at h
          · obtain ⟨hrest, hjoinable'⟩ := ih _ _ hpath (hthere htarget) hjoinable h
            exact ⟨joinsFrom_cons hop htarget fun _ => hrest, hjoinable'⟩
          · next hstays =>
            obtain ⟨h, rfl⟩ := Compile.gives_pure.mp h
            cases h
            exact ⟨joinsFrom_cons hop htarget fun hleads => absurd hleads hstays, hjoinable⟩
        · split at h
          · simp only [Compile.gives_bind] at h
            obtain ⟨⟨scope₁, hop⟩, k₁, hjoin, h⟩ := h
            obtain ⟨target, condition, hgives, rfl, rfl⟩ := join_gives hjoin
            have htarget := joinsTo_of_gives hgives
            have hjoinable₁ : (scope.hops.insert (before ++ [segment])
                ⟨c.names k, target⟩).Joinable c collection :=
              hjoinable.insert hsegment howner htarget
            split at h
            · simp only [Compile.gives_bind, Compile.gives_pure] at h
              obtain ⟨⟨scope₂, several₂⟩, k₂, h, hresult, rfl⟩ := h
              cases hresult
              obtain ⟨hrest, hjoinable'⟩ := ih _ _ hpath (hthere htarget) hjoinable₁ h
              exact ⟨joinsFrom_cons ⟨c.names k, target⟩ htarget fun _ => hrest, hjoinable'⟩
            · next hstays =>
              obtain ⟨h, rfl⟩ := Compile.gives_pure.mp h
              cases h
              exact ⟨joinsFrom_cons ⟨c.names k, target⟩ htarget
                fun hleads => absurd hleads hstays, hjoinable₁⟩
          · next hskipped =>
            obtain ⟨h, rfl⟩ := Compile.gives_pure.mp h
            cases h
            exact ⟨hstops (by simpa using hskipped), hjoinable⟩

/-- A segment that can be joined is joined under a fresh alias. -/
theorem JoinsTo.exists_join {place : Place} {segment target : String} {scope : Scope}
    (h : c.JoinsTo place.collection segment target) (path : List String) (k : Nat) :
    ∃ scope' hop k', (c.join scope path place segment (c.link place.collection segment)).Gives k
        (scope', hop) k' ∧
      hop.collection = target ∧ scope'.hops = scope.hops.insert path hop := by
  obtain ⟨condition, k', hgives⟩ := h place (c.names k) (k + 1) rfl
  refine ⟨{ query := scope.query.addJoin ⟨target, some (c.names k)⟩ condition
            hops := scope.hops.insert path ⟨c.names k, target⟩ },
    ⟨c.names k, target⟩, k', ?_, rfl, rfl⟩
  simp only [join, Compile.gives_bind, freshAlias_gives, Compile.gives_pure]
  exact ⟨c.names k, k + 1, ⟨rfl, rfl⟩, (target, condition), k', hgives, rfl, rfl⟩

/-- A path that can be joined is joined, whatever was joined before. -/
theorem exists_joinFrom {segments : List String} :
    ∀ (before : List String) (place : Place) (scope : Scope),
      IsPath (before ++ segments) → c.destination? collection before = some place.collection →
      scope.hops.Leads c collection → c.JoinsFrom inner place segments →
      ∀ k, ∃ joined k', (c.joinFrom inner place before scope segments).Gives k joined k' := by
  induction segments with
  | nil => exact fun _ _ _ _ _ _ _ k => ⟨_, k, Compile.gives_pure.mpr ⟨rfl, rfl⟩⟩
  | cons segment segments ih =>
    intro before place scope hpath howner hleads hjoins k
    have hends (result : Scope × Bool) (j : Nat) :
        ∃ joined k', (pure result : Compile (Scope × Bool)).Gives j joined k' :=
      ⟨result, j, Compile.gives_pure.mpr ⟨rfl, rfl⟩⟩
    cases segments with
    | nil => exact hends _ k
    | cons next rest =>
      obtain ⟨hcan, hgo⟩ := hjoins
      rw [List.append_cons] at hpath
      have hsegment : IsPath (before ++ [segment]) := fun s hs =>
        hpath s (List.mem_append_left _ hs)
      have hthere : c.destination? collection (before ++ [segment]) =
          (c.link place.collection segment).target? := by
        rw [destination?_concat, howner, Option.bind_some]
      -- from where the segment leads, the rest of the path can be joined
      have hrest (hop : Hop) (scope : Scope)
          (hlead : leadsOn inner place (c.link place.collection segment) = true)
          (htarget : c.destination? collection (before ++ [segment]) = some hop.collection)
          (hleads : scope.hops.Leads c collection) (j : Nat) : ∃ joined k',
            (c.joinFrom inner hop.place (before ++ [segment]) scope (next :: rest)).Gives j
              joined k' := by
        have honward : c.onward? inner place segment = some (.below hop.collection) := by
          rw [onward?, if_pos hlead, ← hthere, htarget, Option.map_some]
        exact ih _ hop.place scope hpath htarget hleads
          ((joinsFrom_place hop _).mpr (hgo _ honward)) j
      rw [joinFrom_cons]
      split
      · exact hends _ k
      · split
        · next hop hfound =>
          split
          · next hlead => exact hrest hop _ hlead (hleads _ hop (by simp) hsegment hfound) hleads k
          · exact hends _ k
        · split
          · next hjoined =>
            obtain ⟨target, htarget⟩ := hcan hjoined
            obtain ⟨scope₁, hop, k₁, hjoin, rfl, hhops⟩ :=
              htarget.exists_join (before ++ [segment]) k
            have hled : c.destination? collection (before ++ [segment]) = some hop.collection :=
              hthere.trans htarget.target?
            simp only [Compile.gives_bind]
            split
            · next hlead =>
              have hleads₁ : scope₁.hops.Leads c collection :=
                hhops ▸ hleads.insert hsegment hled
              obtain ⟨joined, k₂, hlast⟩ := hrest hop scope₁ hlead hled hleads₁ k₁
              exact ⟨_, k₂, _, k₁, hjoin, Compile.gives_bind.mpr
                ⟨joined, k₂, hlast, Compile.gives_pure.mpr ⟨rfl, rfl⟩⟩⟩
            · exact ⟨_, k₁, _, k₁, hjoin, Compile.gives_pure.mpr ⟨rfl, rfl⟩⟩
          · exact hends _ k

/-! ## Paths of a statement -/

/-- All the paths that are joined can be joined. -/
theorem joinsFrom_of_joinPaths {paths : List (List String)} :
    ∀ {scope scope' : Scope} {several : Bool} {k k' : Nat}, (∀ path ∈ paths, IsPath path) →
      scope.hops.Joinable c collection →
      (c.joinPaths inner collection scope paths).Gives k (scope', several) k' →
      (∀ path ∈ paths, c.JoinsFrom inner (.root collection) path) ∧
        scope'.hops.Joinable c collection := by
  induction paths with
  | nil =>
    intro scope scope' several k k' _ hjoinable h
    obtain ⟨h, rfl⟩ := Compile.gives_pure.mp h
    cases h
    exact ⟨fun path hpath => absurd hpath List.not_mem_nil, hjoinable⟩
  | cons path rest ih =>
    intro scope scope' several k k' hpaths hjoinable h
    simp only [joinPaths, Compile.gives_bind, Compile.gives_pure] at h
    obtain ⟨⟨scope₁, several₁⟩, k₁, hfirst, ⟨scope₂, several₂⟩, k₂, hrest, hresult, rfl⟩ := h
    cases hresult
    obtain ⟨hpath, hjoinable₁⟩ := joinsFrom_of_gives [] (.root collection)
      (hpaths path List.mem_cons_self) rfl hjoinable hfirst
    obtain ⟨hothers, hjoinable₂⟩ :=
      ih (fun p hp => hpaths p (List.mem_cons_of_mem _ hp)) hjoinable₁ hrest
    exact ⟨List.forall_mem_cons.mpr ⟨hpath, hothers⟩, hjoinable₂⟩

/-- Paths that can be joined are joined one after another. -/
theorem exists_joinPaths {paths : List (List String)} :
    ∀ {scope : Scope}, (∀ path ∈ paths, IsPath path) → scope.hops.Leads c collection →
      (∀ path ∈ paths, c.JoinsFrom inner (.root collection) path) →
      ∀ k, ∃ joined k', (c.joinPaths inner collection scope paths).Gives k joined k' := by
  induction paths with
  | nil => exact fun _ _ _ k => ⟨_, k, Compile.gives_pure.mpr ⟨rfl, rfl⟩⟩
  | cons path rest ih =>
    intro scope hpaths hleads hjoins k
    obtain ⟨hpath, hrest⟩ := List.forall_mem_cons.mp hpaths
    obtain ⟨hfirst, hothers⟩ := List.forall_mem_cons.mp hjoins
    obtain ⟨⟨scope₁, several₁⟩, k₁, hjoin⟩ :=
      exists_joinFrom [] (.root collection) scope hpath rfl hleads hfirst k
    obtain ⟨⟨scope₂, several₂⟩, k₂, hlast⟩ := ih hrest (hleads.joinPath hpath hjoin) hothers k₁
    simp only [joinPaths, Compile.gives_bind, Compile.gives_pure]
    exact ⟨_, k₂, (scope₁, several₁), k₁, hjoin, (scope₂, several₂), k₂, hlast, rfl, rfl⟩

/-- What one statement has joined another one can join: the same paths or fewer of them, in any
order. -/
theorem carries_joinPaths_subset {paths fewer : List (List String)} {scope scope' : Scope}
    (hpaths : ∀ path ∈ paths, IsPath path) (hsub : fewer ⊆ paths)
    (hjoinable : scope.hops.Joinable c collection) (hleads : scope'.hops.Leads c collection) :
    Carries (fun _ _ => True) (c.joinPaths inner collection scope paths)
      (c.joinPaths inner collection scope' fewer) := by
  intro k joined k' h j
  obtain ⟨hjoins, -⟩ := joinsFrom_of_joinPaths hpaths hjoinable h
  obtain ⟨joined', j', h'⟩ := exists_joinPaths (fun path hpath => hpaths path (hsub hpath)) hleads
    (fun path hpath => hjoins path (hsub hpath)) j
  exact ⟨joined', j', h', trivial⟩

/-- All that a request adds before its filter can be joined again. -/
theorem Prepares.joinable {paths : List (List String)} {start scope : Scope} {k₀ k : Nat}
    (hpaths : ∀ path ∈ paths, IsPath path) (hstart : start.hops.Joinable c collection)
    (h : c.Prepares collection paths start k₀ scope k) : scope.hops.Joinable c collection := by
  induction h with
  | refl => exact hstart
  | join _ hpath hjoin ih =>
    exact (joinsFrom_of_gives [] (.root collection) (hpaths _ hpath) rfl ih hjoin).2
  | rest _ _ _ _ ih => exact ih

/-- A search joins nothing. -/
theorem searchStage_hops {r : Request} {scope scope' : Scope} {k k' : Nat}
    (h : (c.searchStage collection r scope).Gives k scope' k') : scope'.hops = scope.hops := by
  unfold searchStage at h
  split at h
  · obtain ⟨rfl, -⟩ := Compile.gives_pure.mp h
    rfl
  · obtain ⟨q, -, rfl⟩ := Compile.gives_map.mp h
    rfl

/-- What is joined before the filter of a request can be joined again. -/
theorem joinable_before {q : Query} {r : Request} {scope₁ scope₂ scope₃ : Scope}
    {k₁ k₂ k₃ k₄ : Nat} (horder : (c.orderStage collection false r q).Gives 0 scope₁ k₁)
    (hsearch : (c.searchStage collection r scope₁).Gives k₁ scope₂ k₂)
    (hgroup : (r.group.foldlM (c.groupBy collection) scope₂).Gives k₃ scope₃ k₄) :
    scope₃.hops.Joinable c collection := by
  have hordered : scope₁.hops.Joinable c collection := (Prepares.of_orderStage horder).joinable
    (List.forall_mem_map.mpr fun entry _ => isPath_fieldPath _) Hops.joinable_empty
  exact (Prepares.of_groupStage hgroup).joinable
    (List.forall_mem_map.mpr fun key _ => isPath_fieldPath key)
    (searchStage_hops hsearch ▸ hordered)

/-! ## Filters -/

/-- Two statements agree at a prefix that both of them join, or neither. -/
theorem JoinsAlong.agreeAt {paths paths' : List (List String)} {scope scope' : Scope}
    {path : List String} (h : c.JoinsAlong inner collection paths scope)
    (h' : c.JoinsAlong inner collection paths' scope') (hne : path ≠ []) (hpath : IsPath path)
    (hsame : c.JoinsPrefix inner collection paths path ↔
      c.JoinsPrefix inner collection paths' path) :
    scope.hops.AgreeAt scope'.hops path := by
  unfold Hops.AgreeAt
  cases hfound : scope.hops.get? path with
  | some hop =>
    obtain ⟨hjoined, hthere⟩ := h.of_get? hpath hne hfound
    obtain ⟨hop', hfound'⟩ := Option.isSome_iff_exists.mp
      ((h'.isSome_get?_iff hpath hne).mpr (hsame.mp hjoined))
    obtain ⟨-, hthere'⟩ := h'.of_get? hpath hne hfound'
    rw [hfound', Option.map_some, Option.map_some]
    exact hthere.symm.trans hthere'
  | none =>
    cases hfound' : scope'.hops.get? path with
    | none => rfl
    | some hop' =>
      obtain ⟨hjoined, -⟩ := h'.of_get? hpath hne hfound'
      have hsome := (h.isSome_get?_iff hpath hne).mpr (hsame.mpr hjoined)
      rw [hfound] at hsome
      cases hsome

/-- Statements that join these paths, one of them more than the other, agree at the parents of the
paths that both join. -/
theorem agreeAt_parents {base paths fewer : List (List String)} {scope scope' : Scope}
    (hpaths : ∀ path ∈ fewer, IsPath path) (hsub : fewer ⊆ paths)
    (hblank : c.JoinsPrefix inner collection paths [""] → c.JoinsPrefix inner collection fewer [""])
    (h : c.JoinsAlong inner collection (base ++ paths) scope)
    (h' : c.JoinsAlong inner collection (base ++ fewer) scope') :
    ∀ path ∈ fewer, scope.hops.AgreeAt scope'.hops path.dropLast := by
  intro path hpath
  have hmore {before : List String} (hinitial : c.JoinsPrefix inner collection fewer before) :
      c.JoinsPrefix inner collection paths before :=
    let ⟨walked, hwalked, hjoined⟩ := hinitial
    ⟨walked, hsub hwalked, hjoined⟩
  by_cases hparents : path.dropLast = []
  · -- no parents are recorded under the key of one blank segment
    have hkey : scope.hops.AgreeAt scope'.hops [""] := by
      refine h.agreeAt h' (by simp) (by unfold IsPath IsSegment; decide) ?_
      rw [joinsPrefix_append, joinsPrefix_append]
      exact or_congr_right ⟨hblank, hmore⟩
    rw [hparents]
    exact hkey
  · have hsegments : IsPath path.dropLast := fun segment hsegment =>
      hpaths path hpath segment (List.mem_of_mem_dropLast hsegment)
    refine h.agreeAt h' hparents hsegments ⟨?_, ?_⟩
    · rintro ⟨-, -, -, hsome⟩
      exact ⟨path, List.mem_append_right _ hpath, List.prefix_rfl, hsome⟩
    · rintro ⟨-, -, -, hsome⟩
      exact ⟨path, List.mem_append_right _ (hsub hpath), List.prefix_rfl, hsome⟩

/-- A statement that can be restricted by a filter can be restricted by another one of the same
paths or fewer, whose condition compiles on joins that agree where it looks. -/
theorem carries_addFilter {f other : Filter} {base : List (List String)} {scope : Scope}
    (hf : f.IsUnfolded)
    (hsub : c.filterPaths collection [] other ⊆ c.filterPaths collection [] f)
    (hblank : c.JoinsPrefix inner collection (c.filterPaths collection [] f) [""] →
      c.JoinsPrefix inner collection (c.filterPaths collection [] other) [""])
    (hjoinable : scope.hops.Joinable c collection)
    (halong : c.JoinsAlong inner collection base scope)
    (hcondition : ∀ hops hops', (∀ path ∈ c.filterPaths collection [] other,
        hops.AgreeAt hops' path.dropLast) →
      Carries (fun _ _ => True) (c.condition? hops collection [] f)
        (c.condition? hops' collection [] other)) :
    Carries (fun _ _ => True)
      (c.addFilter inner collection scope f fun hops => c.condition? hops collection [] f)
      (c.addFilter inner collection scope other
        fun hops => c.condition? hops collection [] other) := by
  have hpaths : ∀ path ∈ c.filterPaths collection [] f, IsPath path :=
    isPath_of_mem_filterPaths isPath_nil hf
  have hothers : ∀ path ∈ c.filterPaths collection [] other, IsPath path :=
    fun path hpath => hpaths path (hsub hpath)
  have halong (paths : List (List String)) (hpaths : ∀ path ∈ paths, IsPath path) (k : Nat)
      (joined : Scope × Bool) (k' : Nat)
      (h : (c.joinPaths inner collection scope paths).Gives k joined k') :
      c.JoinsAlong inner collection (base ++ paths) joined.1 :=
    joinsAlong_joinPaths hpaths halong h
  rw [addFilter, addFilter, restricted, restricted, joinFilter_eq, joinFilter_eq]
  refine ((carries_joinPaths_subset hpaths hsub hjoinable hjoinable.leads).of_gives
    (halong _ hpaths) (halong _ hothers)).bind fun joined joined' hjoined => ?_
  obtain ⟨-, hall, hsome⟩ := hjoined
  refine (hcondition _ _ (agreeAt_parents hothers hsub hblank hall hsome)).bind
    fun e? e'? _ => ?_
  cases e? <;> cases e'? <;> exact carries_pure trivial

end Context

/-- What is given within a compilation is what the compiler gives. -/
theorem Compiler.apply_of_gives {compiler : Compiler} {collection : String} {q : Query}
    {r : Request} {inner : Bool} {relations : List Relation} {applied : Applied} {k : Nat}
    (hrelations : compiler.provider.relations = .ok relations)
    (h : (Context.apply { compiler with relations } collection q r inner).Gives 0 applied k) :
    compiler.apply collection q r inner = .ok applied := by
  have hrun : (Context.apply { compiler with relations } collection q r inner).run 0 =
      .ok (applied, k) := h
  rw [apply, hrelations]
  simp only [Except.mapError, bind, Except.bind, hrun]
  rfl

/-- A request that is added to a read of its collection is compiled. -/
theorem Compiler.compile_of_gives {compiler : Compiler} {collection : String} {r : Request}
    {relations : List Relation} {applied : Applied} {k : Nat}
    (hrelations : compiler.provider.relations = .ok relations)
    (h : (Context.apply { compiler with relations } collection (target collection r) r
      false).Gives 0 applied k) : compiler.compile collection r = .ok applied.query := by
  rw [compile, apply_of_gives hrelations h]
  rfl

end JsonSql
