import JsonSql.Proofs.Joinable
import JsonSql.Proofs.Reorderings

set_option autoImplicit false

/-!
# Compilations of reordered filters

A reordered filter compiles if the filter does.  Which clause makes a join depends on the order, and
so do the aliases that are issued; but which joins are made in the end does not, and every clause
finds the join that it looks at.
-/

namespace JsonSql

open JsonSql.Sql

namespace Compile

variable {α β ι : Type} {R S : α → β → Prop} {x : Compile α} {y : Compile β}

theorem Carries.mono (h : Carries R x y) (hle : ∀ a b, R a b → S a b) : Carries S x y := by
  intro k a k' ha j
  obtain ⟨b, j', hb, hab⟩ := h k a k' ha j
  exact ⟨b, j', hb, hle a b hab⟩

/-- Where a step carries over to a second one and that one to a third one, the first one carries over
to the third one. -/
theorem Carries.trans {γ : Type} {z : Compile γ} (hxy : Carries (fun _ _ => True) x y)
    (hyz : Carries (fun _ _ => True) y z) : Carries (fun _ _ => True) x z := by
  intro k a k' ha j
  obtain ⟨b, i, hb, -⟩ := hxy k a k' ha j
  exact (hyz j b i hb j).imp fun _ => Exists.imp fun _ hc => ⟨hc.1, trivial⟩

/-- Steps that keep a relation, one after another. -/
theorem carries_foldlM {f : α → ι → Compile α} {g : β → ι → Compile β}
    (step : ∀ a b item, R a b → Carries R (f a item) (g b item)) (items : List ι) :
    ∀ {a b}, R a b → Carries R (items.foldlM f a) (items.foldlM g b) := by
  induction items with
  | nil => exact fun hab => carries_pure hab
  | cons item rest ih =>
    intro a b hab
    rw [List.foldlM_cons, List.foldlM_cons]
    exact (step a b item hab).bind fun _ _ hnext => ih hnext

/-- Steps that succeed from any count of aliases do so one after another. -/
theorem exists_mapM {f : ι → Compile α} {items : List ι}
    (h : ∀ item ∈ items, ∀ k, ∃ a k', (f item).Gives k a k') (k : Nat) :
    ∃ results k', (items.mapM f).Gives k results k' := by
  induction items generalizing k with
  | nil => exact ⟨[], k, gives_pure.mpr ⟨rfl, rfl⟩⟩
  | cons item rest ih =>
    obtain ⟨a, k₁, hfirst⟩ := h item List.mem_cons_self k
    obtain ⟨results, k₂, hrest⟩ := ih (fun i hi => h i (List.mem_cons_of_mem _ hi)) k₁
    rw [List.mapM_cons]
    simp only [gives_bind, gives_pure]
    exact ⟨a :: results, k₂, a, k₁, hfirst, results, k₂, hrest, rfl, rfl⟩

/-- Steps for the items of a list carry over to those for another list if each of these carries
over from one of the first list. -/
theorem carries_mapM_of_mem {f : ι → Compile α} {g : ι → Compile β} {items others : List ι}
    (h : ∀ other ∈ others, ∃ item ∈ items, Carries (fun _ _ => True) (f item) (g other)) :
    Carries (fun _ _ => True) (items.mapM f) (others.mapM g) := by
  intro k results k' hgives j
  have hothers : ∀ other ∈ others, ∀ i, ∃ b i', (g other).Gives i b i' := by
    intro other hother i
    obtain ⟨item, hitem, hcarries⟩ := h other hother
    obtain ⟨a, -, k₁, k₂, ha⟩ := exists_mem_of_mapM hgives hitem
    obtain ⟨b, i', hb, -⟩ := hcarries k₁ a k₂ ha i
    exact ⟨b, i', hb⟩
  obtain ⟨results', j', hgives'⟩ := exists_mapM hothers j
  exact ⟨results', j', hgives', trivial⟩

end Compile

open Compile (Carries carries_pure carries_throw carries_lift carries_foldlM carries_mapM_of_mem)

/-- A computation succeeds for the items of a list if it does for each. -/
theorem Except.exists_mapM_eq_ok {ε α β : Type} {f : β → Except ε α} {items : List β}
    (h : ∀ item ∈ items, ∃ a, f item = .ok a) : ∃ results, items.mapM f = .ok results := by
  induction items with
  | nil => exact ⟨[], rfl⟩
  | cons item rest ih =>
    obtain ⟨a, hfirst⟩ := h item List.mem_cons_self
    obtain ⟨results, hrest⟩ := ih fun i hi => h i (List.mem_cons_of_mem _ hi)
    refine ⟨a :: results, ?_⟩
    rw [List.mapM_cons, hfirst, hrest]
    rfl

theorem areUnfoldedClauses_iff {clauses : List Clause} :
    AreUnfoldedClauses clauses ↔ ∀ clause ∈ clauses, clause.IsUnfolded := by
  induction clauses with
  | nil => simp [AreUnfoldedClauses]
  | cons clause rest ih => rw [AreUnfoldedClauses, ih, List.forall_mem_cons]

theorem areUnfolded_iff {filters : List Filter} :
    AreUnfolded filters ↔ ∀ f ∈ filters, f.IsUnfolded := by
  induction filters with
  | nil => simp [AreUnfolded]
  | cons f rest ih => rw [AreUnfolded, ih, List.forall_mem_cons]

theorem mem_within {α : Type} {before after : List α} {x y other : α}
    (h : other ∈ before ++ y :: after) : other = y ∨ other ∈ before ++ x :: after := by
  simp only [List.mem_append, List.mem_cons] at h ⊢
  tauto

namespace Context

variable {c : Context} {hops hops' : Hops} {collection : String} {parents : List String}

/-! ## Conditions one after another -/

theorem clauseConditions_eq_mapM (clauses : List Clause) :
    c.clauseConditions hops collection parents clauses =
      (fun parts => parts.flatMap Option.toList) <$>
        clauses.mapM (c.clauseCondition? hops collection parents) := by
  induction clauses with
  | nil => rw [clauseConditions, List.mapM_nil, map_pure, List.flatMap_nil]
  | cons clause rest ih =>
    rw [clauseConditions, ih, List.mapM_cons]
    simp [List.flatMap_cons]

theorem groupConditions_eq_mapM (filters : List Filter) :
    c.groupConditions hops collection parents filters =
      (fun parts => parts.flatMap fun part => (part.map Expr.paren).toList) <$>
        filters.mapM (c.condition? hops collection parents) := by
  induction filters with
  | nil => rw [groupConditions, List.mapM_nil, map_pure, List.flatMap_nil]
  | cons f rest ih =>
    rw [groupConditions, ih, List.mapM_cons]
    simp [List.flatMap_cons]

/-- Clauses compile that carry over one by one. -/
theorem carries_clauses {xs ys : List Clause}
    (h : ∀ y ∈ ys, ∃ x ∈ xs, Carries (fun _ _ => True)
      (c.clauseCondition? hops collection parents x)
      (c.clauseCondition? hops' collection parents y)) :
    Carries (fun _ _ => True) (c.condition? hops collection parents ⟨xs⟩)
      (c.condition? hops' collection parents ⟨ys⟩) := by
  rw [condition?, condition?, clauseConditions_eq_mapM, clauseConditions_eq_mapM]
  exact ((carries_mapM_of_mem h).map (S := fun _ _ => True) fun _ _ _ => trivial).map
    fun _ _ _ => trivial

/-- So do the filters of a group. -/
theorem carries_group {fs gs : List Filter}
    (h : ∀ g ∈ gs, ∃ f ∈ fs, Carries (fun _ _ => True)
      (c.condition? hops collection parents f) (c.condition? hops' collection parents g)) :
    Carries (fun _ _ => True) (c.groupConditions hops collection parents fs)
      (c.groupConditions hops' collection parents gs) := by
  rw [groupConditions_eq_mapM, groupConditions_eq_mapM]
  exact (carries_mapM_of_mem h).map fun _ _ _ => trivial

/-- The filters of a group compile in any order. -/
theorem carries_group_of_perm {fs gs : List Filter} (hperm : fs.Perm gs)
    (hagree : ∀ path ∈ c.filtersPaths collection parents gs, hops.AgreeAt hops' path.dropLast) :
    Carries (fun _ _ => True) (c.groupConditions hops collection parents fs)
      (c.groupConditions hops' collection parents gs) := by
  rw [filtersPaths_eq_flatMap] at hagree
  refine carries_group fun g hg => ⟨g, hperm.mem_iff.mpr hg, ?_⟩
  exact (carries_condition? collection parents g fun path hpath =>
    hagree path (List.mem_flatMap.mpr ⟨g, hg, hpath⟩)).mono fun _ _ _ => trivial

/-- A group compiles in which one filter carries over to another one. -/
theorem carries_group_within {before after : List Filter} {f g : Filter}
    (h : (∀ path ∈ c.filterPaths collection parents g, hops.AgreeAt hops' path.dropLast) →
      Carries (fun _ _ => True) (c.condition? hops collection parents f)
        (c.condition? hops' collection parents g))
    (hagree : ∀ path ∈ c.filtersPaths collection parents (before ++ g :: after),
      hops.AgreeAt hops' path.dropLast) :
    Carries (fun _ _ => True) (c.groupConditions hops collection parents (before ++ f :: after))
      (c.groupConditions hops' collection parents (before ++ g :: after)) := by
  rw [filtersPaths_eq_flatMap] at hagree
  refine carries_group fun other hother => ?_
  have hwithin : ∀ path ∈ c.filterPaths collection parents other,
      hops.AgreeAt hops' path.dropLast :=
    fun path hpath => hagree path (List.mem_flatMap.mpr ⟨other, hother, hpath⟩)
  rcases mem_within hother with rfl | hsame
  · exact ⟨f, by simp, h hwithin⟩
  · exact ⟨other, hsame,
      (carries_condition? collection parents other hwithin).mono fun _ _ _ => trivial⟩

/-- Comparisons compile in any order. -/
theorem compareAll?_of_perm {column : Column} {xs ys : List Comparison} {e? : Option Expr}
    (hperm : xs.Perm ys) (h : c.compareAll? column xs = .ok e?) :
    ∃ e'?, c.compareAll? column ys = .ok e'? := by
  rw [compareAll?, Except.bind_eq_ok_iff] at h
  obtain ⟨parts, hparts, -⟩ := h
  obtain ⟨others, hothers⟩ := Except.exists_mapM_eq_ok fun comparison hcomparison =>
    Except.exists_of_mapM_eq_ok hparts comparison (hperm.mem_iff.mpr hcomparison)
  exact ⟨conjunction? others.reduceOption, by rw [compareAll?, hothers]; rfl⟩

/-! ## One list permuted -/

/-- The keys of the related rows that a filter selects are found where those of another filter
are. -/
theorem carries_existential_of {owner table table' : String} {link : Link}
    {quantifier : Quantifier} {f g : Filter} (hf : f.IsUnfolded)
    (hpaths : ∀ related, (c.filterPaths related [] f).Perm (c.filterPaths related [] g))
    (h : ∀ related hops hops', (∀ path ∈ c.filterPaths related [] g,
        hops.AgreeAt hops' path.dropLast) →
      Carries (fun _ _ => True) (c.condition? hops related [] f)
        (c.condition? hops' related [] g)) :
    Carries (fun _ _ => True)
      (c.existential owner table link quantifier f
        fun related hops => c.condition? hops related [] f)
      (c.existential owner table' link quantifier g
        fun related hops => c.condition? hops related [] g) := by
  have hkeys : Carries (fun found found' => found = found' ∧ found.2.1.joins = [])
      (relatedKeys owner link) (relatedKeys owner link) := by
    cases link with
    | oneToMany r => exact carries_pure ⟨rfl, rfl⟩
    | oneToAny r =>
      unfold relatedKeys
      dsimp only
      cases r.info.discriminator with
      | none => exact carries_throw
      | some column => exact carries_pure ⟨rfl, rfl⟩
    | none | manyToOne _ | manyToAny _ _ => exact carries_throw
  unfold existential amongKeys
  refine hkeys.bind fun ⟨r, keys, polymorphic⟩ _ ⟨hsame, hjoins⟩ => ?_
  subst hsame
  dsimp only at hjoins ⊢
  refine (carries_collection c r.collection).bind fun _ _ _ => ?_
  have hsub := (hpaths r.collection).symm.subset
  refine (carries_addFilter hf hsub (fun ⟨path, hpath, hjoined⟩ =>
    ⟨path, (hpaths r.collection).subset hpath, hjoined⟩) Hops.joinable_empty
    (joinsAlong_nil hjoins) (h r.collection)).bind fun _ _ _ => ?_
  exact (carries_primary c owner).bind fun _ _ _ => carries_pure trivial

end Context

mutual
/-- A filter of which one list is permuted compiles if the filter does, on joins that agree where
it looks. -/
theorem Filter.Permutes.carries {c : Context} {hops hops' : Hops} (collection : String) :
    ∀ {f g : Filter}, f.Permutes g → f.IsUnfolded → ∀ parents,
      (∀ path ∈ c.filterPaths collection parents g, hops.AgreeAt hops' path.dropLast) →
      Carries (fun _ _ => True) (c.condition? hops collection parents f)
        (c.condition? hops' collection parents g)
  | ⟨xs⟩, ⟨ys⟩, .clauses hperm, _, parents, hagree => by
    rw [Context.filterPaths, Context.clausesPaths_eq_flatMap] at hagree
    refine Context.carries_clauses fun y hy => ⟨y, hperm.mem_iff.mpr hy, ?_⟩
    exact (Context.carries_clauseCondition? collection parents y fun path hpath =>
      hagree path (List.mem_flatMap.mpr ⟨y, hy, hpath⟩)).mono fun _ _ _ => trivial
  | _, _, .within before after (x := x) (y := y) h, hf, parents, hagree => by
    rw [Filter.IsUnfolded, areUnfoldedClauses_iff] at hf
    rw [Context.filterPaths, Context.clausesPaths_eq_flatMap] at hagree
    refine Context.carries_clauses fun other hother => ?_
    have hwithin : ∀ path ∈ c.clausePaths collection parents other,
        hops.AgreeAt hops' path.dropLast :=
      fun path hpath => hagree path (List.mem_flatMap.mpr ⟨other, hother, hpath⟩)
    have hx : x ∈ before ++ x :: after := by simp
    rcases mem_within hother with hchanged | hsame
    · rw [hchanged] at hwithin ⊢
      exact ⟨x, hx, h.carries collection (hf x hx) parents hwithin⟩
    · exact ⟨other, hsame, (Context.carries_clauseCondition? collection parents other
        hwithin).mono fun _ _ _ => trivial⟩

theorem Clause.Permutes.carries {c : Context} {hops hops' : Hops} (collection : String) :
    ∀ {x y : Clause}, x.Permutes y → x.IsUnfolded → ∀ parents,
      (∀ path ∈ c.clausePaths collection parents y, hops.AgreeAt hops' path.dropLast) →
      Carries (fun _ _ => True) (c.clauseCondition? hops collection parents x)
        (c.clauseCondition? hops' collection parents y)
  | _, _, .all hperm, _, parents, hagree => by
    rw [Context.clausePaths] at hagree
    rw [Context.clauseCondition?, Context.clauseCondition?]
    exact (Context.carries_group_of_perm hperm hagree).map fun _ _ _ => trivial
  | _, _, .any hperm, _, parents, hagree => by
    rw [Context.clausePaths] at hagree
    rw [Context.clauseCondition?, Context.clauseCondition?, holdsAlways_of_perm hperm]
    split
    · exact carries_pure trivial
    · next hrestricts =>
      rw [if_neg hrestricts] at hagree
      exact (Context.carries_group_of_perm hperm hagree).map fun _ _ _ => trivial
  | _, _, .withinAll before after h, hf, parents, hagree => by
    rw [Clause.IsUnfolded, areUnfolded_iff] at hf
    rw [Context.clausePaths] at hagree
    rw [Context.clauseCondition?, Context.clauseCondition?]
    exact (Context.carries_group_within (h.carries collection (hf _ (by simp)) parents)
      hagree).map fun _ _ _ => trivial
  | _, _, .withinAny before after h, hf, parents, hagree => by
    rw [Clause.IsUnfolded, areUnfolded_iff] at hf
    rw [Context.clausePaths] at hagree
    rw [Context.clauseCondition?, Context.clauseCondition?, holdsAlways_within h]
    split
    · exact carries_pure trivial
    · next hrestricts =>
      rw [if_neg hrestricts] at hagree
      exact (Context.carries_group_within (h.carries collection (hf _ (by simp)) parents)
        hagree).map fun _ _ _ => trivial
  | _, _, .field key h, hf, parents, hagree => by
    rw [Clause.IsUnfolded] at hf
    rw [Context.clausePaths] at hagree
    rw [Context.clauseCondition?, Context.clauseCondition?]
    refine h.carries collection hf.2 parents key fun hjoined path hpath => ?_
    rw [if_neg (by rw [hjoined]; exact Bool.false_ne_true)] at hagree
    exact hagree path hpath

theorem FieldCondition.Permutes.carries {c : Context} {hops hops' : Hops} (collection : String) :
    ∀ {x y : FieldCondition}, x.Permutes y → x.IsUnfolded → ∀ parents key,
      (c.startsExistential collection parents key = false →
        ∀ path ∈ c.conditionPaths collection (parents ++ [Text.trim key]) y,
          hops.AgreeAt hops' path.dropLast) →
      Carries (fun _ _ => True) (c.fieldCondition? hops collection parents key x)
        (c.fieldCondition? hops' collection parents key y)
  | _, _, .compare hperm, _, parents, key, hagree => by
    rw [Context.fieldCondition?, Context.fieldCondition?]
    split
    · exact Carries.bind (R := fun _ _ => False) carries_throw fun _ _ h => h.elim
    · next hjoined =>
      have hparents := hagree (by simpa using hjoined) _ (List.mem_singleton_self _)
      refine (Context.carries_column fun _ => hparents).bind fun column column' hsame => ?_
      refine carries_lift fun e? he => ?_
      obtain ⟨found, hfound, -⟩ := Context.compareAll?_agree hsame he
      obtain ⟨e'?, he'⟩ := Context.compareAll?_of_perm hperm hfound
      exact ⟨e'?, he', trivial⟩
  | _, _, .nested (f := f) h, hf, parents, key, hagree => by
    have hf : f.IsUnfolded := hf
    rw [Context.fieldCondition?, Context.fieldCondition?]
    split
    · exact (Context.carries_existential_of hf (fun related => h.filterPaths c related [])
        fun related _ _ => h.carries related hf []).map fun _ _ _ => trivial
    · next hjoined =>
      exact h.carries collection hf (parents ++ [Text.trim key])
        (hagree (by simpa using hjoined))
  | _, _, .quantified quantifier (f := f) h, hf, parents, key, hagree => by
    have hf : f.IsUnfolded := hf
    rw [Context.fieldCondition?, Context.fieldCondition?]
    split
    · exact (Context.carries_existential_of hf (fun related => h.filterPaths c related [])
        fun related _ _ => h.carries related hf []).map fun _ _ _ => trivial
    · next hjoined =>
      have hparents := hagree (by simpa using hjoined) _ (List.mem_singleton_self _)
      rw [List.dropLast_concat] at hparents
      refine (carries_lift fun found hfound =>
        Context.quantifiedLink_agree hparents hfound).bind
          fun ⟨hop, link⟩ ⟨hop', link'⟩ ⟨hcollection, hlink⟩ => ?_
      dsimp only at hcollection hlink ⊢
      rw [← hcollection, ← hlink]
      exact (Context.carries_existential_of hf (fun related => h.filterPaths c related [])
        fun related _ _ => h.carries related hf []).map fun _ _ _ => trivial
end

/-! ## Requests -/

namespace Context

variable {c : Context} {inner : Bool} {collection : String}

/-- Statements that have joined the same prefixes know the same paths. -/
theorem JoinsAlong.agree {paths paths' : List (List String)} {scope scope' : Scope}
    (h : c.JoinsAlong inner collection paths scope)
    (h' : c.JoinsAlong inner collection paths' scope')
    (hsame : ∀ before, c.JoinsPrefix inner collection paths before ↔
      c.JoinsPrefix inner collection paths' before) : scope.hops.Agree scope'.hops := by
  intro path
  -- what a path that is no list of segments finds is recorded for the segments of its key
  have hkey : Hops.key (Text.split '.' (Hops.key path)) = Hops.key path :=
    Text.join_split '.' (Hops.key path)
  have hagree := h.agreeAt h' (Text.split_ne_nil '.' (Hops.key path))
    (isPath_split (Hops.key path)) (hsame _)
  unfold Hops.AgreeAt Hops.get? at hagree ⊢
  rwa [hkey] at hagree

theorem joinsPrefix_of_perm {paths paths' : List (List String)} (hperm : paths.Perm paths')
    (before : List String) : c.JoinsPrefix inner collection paths before ↔
      c.JoinsPrefix inner collection paths' before := by
  simp only [JoinsPrefix, hperm.mem_iff]

/-- Aggregations are added to a statement that knows the same paths. -/
theorem carries_aggregateStage {info : CollectionInfo} {r r' : Request} {scope scope' : Scope}
    (hsame : r.aggregate = r'.aggregate) (hagree : scope.hops.Agree scope'.hops) :
    Carries (fun _ _ => True) (c.aggregateStage info r scope) (c.aggregateStage info r' scope') := by
  rw [aggregateStage, aggregateStage, ← hsame]
  split
  · exact carries_pure trivial
  · have hexpr (scope scope' : Scope) (hagree : scope.hops.Agree scope'.hops)
        (aggregation : Aggregation) (field : String) : Carries (fun _ _ => True)
          (c.aggregateExpr info scope aggregation field)
          (c.aggregateExpr info scope' aggregation field) := by
      unfold aggregateExpr
      split
      · split
        · exact carries_pure trivial
        · exact carries_throw
      · exact (carries_column fun _ => hagree _).bind fun _ _ _ => carries_pure trivial
    have hitems (scope scope' : Scope) (hagree : scope.hops.Agree scope'.hops)
        (entry : Aggregation × List String) : Carries (fun _ _ => True)
          (c.aggregateItems info scope entry) (c.aggregateItems info scope' entry) := by
      obtain ⟨aggregation, fields⟩ := entry
      unfold aggregateItems
      dsimp only
      split
      · exact carries_pure trivial
      · exact carries_mapM_of_mem fun field hfield => ⟨field, hfield,
          (hexpr scope scope' hagree aggregation field).bind fun _ _ _ => carries_pure trivial⟩
    unfold addAggregate joinAggregate
    refine (carries_foldlM (R := fun scope scope' => scope.hops.Agree scope'.hops)
      (fun joined joined' field hagree => ?_) _ hagree).bind fun joined joined' hagree => ?_
    · exact (carries_joinFrom rfl rfl hagree).map fun _ _ hnext => hnext
    · exact (carries_mapM_of_mem fun entry hentry =>
        ⟨entry, hentry, hitems joined joined' hagree entry⟩).bind fun _ _ _ => carries_pure trivial

/-- A statement that can be restricted by a filter can be restricted by the reordered one. -/
theorem carries_restrict_reordered {f g : Filter} {base : List (List String)} {scope : Scope}
    (h : f.Reorders g) (hjoinable : scope.hops.Joinable c collection)
    (halong : c.JoinsAlong inner collection base scope) :
    Carries (fun _ _ => True) (c.restrict inner collection scope f)
      (c.restrict inner collection scope g) := by
  have hpermutes {f g : Filter} (hstep : f.Permutes g) :
      Carries (fun _ _ => True) (c.restrict inner collection scope f)
        (c.restrict inner collection scope g) := by
    have hperm := hstep.unfolded.filterPaths c collection []
    rw [restrict_eq, restrict_eq]
    exact carries_addFilter (isUnfolded_unfolded f) hperm.symm.subset
      (joinsPrefix_of_perm hperm _).mp hjoinable halong
      fun _ _ => hstep.unfolded.carries collection (isUnfolded_unfolded f) []
  induction h with
  | refl => exact hpermutes (.refl f)
  | tail _ hstep ih => exact ih.trans (hpermutes hstep)

theorem walkedPaths_reordered {r : Request} {f g : Filter} (hfilter : r.filter = some f)
    (h : f.Reorders g) : (c.walkedPaths collection r).Perm
      (c.walkedPaths collection { r with filter := some g }) := by
  rw [walkedPaths, walkedPaths, requestPaths, requestPaths, hfilter, Option.toList_some,
    List.flatMap_singleton, Option.toList_some, List.flatMap_singleton]
  exact ((h.unfolded.filterPaths c collection []).append_left _).append_right _

/-- A request that can be added to a statement can be added with its filter reordered. -/
theorem apply_of_reorders {q : Query} {r : Request} {f g : Filter} {applied : Applied} {k : Nat}
    (hjoins : q.joins = []) (hfilter : r.filter = some f) (hreorders : f.Reorders g)
    (h : (c.apply collection q r false).Gives 0 applied k) :
    ∃ applied' k', (c.apply collection q { r with filter := some g } false).Gives 0 applied'
      k' := by
  simp only [apply_eq, Compile.gives_bind, Compile.gives_pure] at h
  obtain ⟨info, k₁, hinfo, scope₁, k₂, horder, scope₂, k₃, hsearch, scope₃, k₄, hgroup,
    ⟨scope₄, repeatsRows⟩, k₅, hrestrict, scope₅, k₆, haggregate, -⟩ := h
  obtain rfl := (collection_gives.mp hinfo).2
  have hjoinable := joinable_before horder hsearch hgroup
  have halong := joinsAlong_groupStage
    (joinsAlong_searchStage (joinsAlong_orderStage hjoins horder) hsearch) hgroup
  have halong₄ := joinsAlong_filterStage halong hrestrict
  rw [filterStage, hfilter] at hrestrict
  obtain ⟨⟨scope₄', repeatsRows'⟩, k₅', hrestrict', -⟩ :=
    carries_restrict_reordered hreorders hjoinable halong _ _ _ hrestrict k₄
  have hstage : (c.filterStage collection false { r with filter := some g } scope₃).Gives k₄
      (scope₄', repeatsRows') k₅' := hrestrict'
  have hagree : scope₄.hops.Agree scope₄'.hops := by
    refine halong₄.agree (joinsAlong_filterStage halong hstage) (joinsPrefix_of_perm ?_)
    rw [requestPaths, requestPaths, hfilter, Option.toList_some, List.flatMap_singleton,
      Option.toList_some, List.flatMap_singleton]
    exact (hreorders.unfolded.filterPaths c collection []).append_left _
  obtain ⟨scope₅', k₆', haggregate', -⟩ : ∃ scope₅' k₆', (c.aggregateStage info
      { r with filter := some g } scope₄').Gives k₅' scope₅' k₆' ∧ True :=
    carries_aggregateStage rfl hagree _ _ _ haggregate k₅'
  refine ⟨⟨scope₅'.query, repeatsRows'⟩, k₆', ?_⟩
  simp only [apply_eq, Compile.gives_bind, Compile.gives_pure]
  exact ⟨info, _, hinfo, scope₁, k₂, horder, scope₂, k₃, hsearch, scope₃, k₄, hgroup,
    ⟨scope₄', repeatsRows'⟩, k₅', hstage, scope₅', k₆', haggregate', rfl, rfl⟩

end Context

end JsonSql
