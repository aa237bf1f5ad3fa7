import JsonSql.Proofs.Asked
import JsonSql.Proofs.Joinable
import JsonSql.Proofs.Reorderings

set_option autoImplicit false

/-!
# Parts of filters that compile alike

A filter with a clause replaced at one place (`Filter.Replaces`), however deep the place is and
however the keys on the way there are dotted.  The place is known by the collection that its keys
are looked up on and the segments before them (`Site`).  Two clauses are alike at a site if they
join the same paths and have the same condition, or conditions that fail for the same kind of
reason, on all joins that lead where their paths lead (`Clause.Alike`).  A filter in which a clause
is replaced by one that is alike compiles as before (`Compiler.apply_of_alike`).
-/

namespace JsonSql

open JsonSql.Sql

/-! ## Compilations with the same results -/

/-- Results that are the same up to the kind of their error are the same if the first one is no
error. -/
theorem Except.exists_ok_of_mapError_eq {ε κ α : Type} {kind : ε → κ} {x y : Except ε α}
    (h : x.mapError kind = y.mapError kind) (hok : x.isOk = true) :
    ∃ a, x = .ok a ∧ y = .ok a := by
  cases x with
  | error e => cases hok
  | ok a =>
    cases y with
    | error e => cases h
    | ok a' =>
      obtain rfl := Except.ok.inj h
      exact ⟨a, rfl, rfl⟩

namespace Compile

variable {κ α β : Type} {kind : QueryError → κ} {x y : Compile α}

/-- Two compilations give the same from every count of aliases, or fail for the same kind of
reason. -/
def SameUpTo (kind : QueryError → κ) (x y : Compile α) : Prop :=
  ∀ k, (x k).mapError kind = (y k).mapError kind

namespace SameUpTo

theorem refl (x : Compile α) : SameUpTo kind x x := fun _ => rfl

theorem throw {e e' : QueryError} (h : kind e = kind e') :
    SameUpTo kind (throw e : Compile α) (throw e') :=
  fun _ => congrArg Except.error h

/-- Two steps in a row; the second ones have to agree on what the first ones give. -/
theorem bind {f g : α → Compile β} (h : SameUpTo kind x y)
    (hnext : ∀ a k k', x.Gives k a k' → SameUpTo kind (f a) (g a)) :
    SameUpTo kind (x >>= f) (y >>= g) := by
  intro k
  have hfirst := h k
  simp only [Bind.bind, StateT.bind, Except.bind]
  cases hx : x k with
  | error e =>
    cases hy : y k with
    | error e' =>
      rw [hx, hy] at hfirst
      exact congrArg Except.error (Except.error.inj hfirst)
    | ok found =>
      rw [hx, hy] at hfirst
      cases hfirst
  | ok found =>
    cases hy : y k with
    | error e' =>
      rw [hx, hy] at hfirst
      cases hfirst
    | ok found' =>
      rw [hx, hy] at hfirst
      obtain rfl : found = found' := Except.ok.inj hfirst
      exact hnext found.1 k found.2 hx found.2

theorem map (h : SameUpTo kind x y) (f : α → β) : SameUpTo kind (f <$> x) (f <$> y) := by
  rw [← bind_pure_comp, ← bind_pure_comp]
  exact h.bind fun a _ _ _ => refl (pure (f a))

end SameUpTo

end Compile

open Compile (SameUpTo)

/-! ## Sites -/

/-- Where a clause of a filter stands: the collection that its key is looked up on, and the segments
before its key. -/
structure Site where
  collection : String
  parents : List String := []

/-- The segments of a key before the last one. -/
def parentSegments (key : String) : List String := (Text.split '.' key).dropLast

/-- The last segment of a key. -/
def lastSegment (key : String) : String := (Text.split '.' key).getLast (Text.split_ne_nil '.' key)

theorem split_eq_concat (key : String) :
    Text.split '.' key = parentSegments key ++ [lastSegment key] :=
  (List.dropLast_append_getLast _).symm

theorem isSegment_lastSegment (key : String) : IsSegment (lastSegment key) :=
  isPath_split key _ (List.getLast_mem _)

theorem isPath_parentSegments (key : String) : IsPath (parentSegments key) :=
  fun segment hsegment => isPath_split key segment (List.dropLast_subset _ hsegment)

namespace Context

variable {c : Context} {site : Site}

/-- The site of a filter on the rows that a segment lists. -/
def inside (c : Context) (site : Site) (segment : String) : Site :=
  { collection := c.relatedCollection site.collection site.parents segment }

/-- The site of a filter that is nested under a segment. -/
def below (c : Context) (site : Site) (segment : String) : Site :=
  if c.startsExistential site.collection site.parents segment then c.inside site segment
  else { site with parents := site.parents ++ [Text.trim segment] }

/-- The site of what is asked at the end of segments. -/
def siteAlong (c : Context) (site : Site) (segments : List String) : Site :=
  segments.foldl (fun site segment => c.below site (Text.trim segment)) site

/-- The site of the last segment of a key. -/
def siteOf (c : Context) (site : Site) (key : String) : Site :=
  c.siteAlong site (parentSegments key)

theorem isPath_inside {segment : String} : IsPath (c.inside site segment).parents := isPath_nil

theorem isPath_below {segment : String} (hsite : IsPath site.parents)
    (hsegment : IsSegment segment) : IsPath (c.below site segment).parents := by
  unfold below
  split
  · exact isPath_nil
  · exact hsite.append hsegment.trim

theorem isPath_siteAlong {segments : List String} (hsite : IsPath site.parents)
    (hsegments : IsPath segments) : IsPath (c.siteAlong site segments).parents := by
  induction segments generalizing site with
  | nil => exact hsite
  | cons segment rest ih =>
    exact ih (isPath_below hsite (hsegments segment List.mem_cons_self).trim)
      fun s hs => hsegments s (List.mem_cons_of_mem _ hs)

theorem isPath_siteOf (hsite : IsPath site.parents) (key : String) :
    IsPath (c.siteOf site key).parents :=
  isPath_siteAlong hsite (isPath_parentSegments key)

end Context

/-! ## Replaced clauses -/

mutual
/-- The second filter is the first one with a clause replaced at one place, where `R` relates the
old one and the new one. -/
inductive Filter.Replaces (c : Context) (R : Site → Clause → Clause → Prop) :
    Site → Filter → Filter → Prop
  | clause {site : Site} {x y : Clause} (before after : List Clause) :
      x.Replaces c R site y →
      Filter.Replaces c R site ⟨before ++ x :: after⟩ ⟨before ++ y :: after⟩

/-- The second clause is the first one with a clause replaced at one place. -/
inductive Clause.Replaces (c : Context) (R : Site → Clause → Clause → Prop) :
    Site → Clause → Clause → Prop
  | here {site : Site} {x y : Clause} : R site x y → Clause.Replaces c R site x y
  | all {site : Site} {f g : Filter} (before after : List Filter) :
      f.Replaces c R site g →
      Clause.Replaces c R site (.all (before ++ f :: after)) (.all (before ++ g :: after))
  | any {site : Site} {f g : Filter} (before after : List Filter) :
      f.Replaces c R site g →
      Clause.Replaces c R site (.any (before ++ f :: after)) (.any (before ++ g :: after))
  | nested {site : Site} {f g : Filter} (key : String) :
      f.Replaces c R (c.below (c.siteOf site key) (lastSegment key)) g →
      Clause.Replaces c R site (.field key (.nested f)) (.field key (.nested g))
  | quantified {site : Site} {f g : Filter} (key : String) (quantifier : Quantifier) :
      f.Replaces c R (c.inside (c.siteOf site key) (lastSegment key)) g →
      Clause.Replaces c R site (.field key (.quantified quantifier f))
        (.field key (.quantified quantifier g))
end

/-! ## Clauses that are alike -/

section

variable {κ : Type} {c : Context} {kind : QueryError → κ} {site : Site}

/-- Two filters, each segment of a key by itself, join the same paths and have the same condition,
or fail for the same kind of reason. -/
structure Filter.Alike (c : Context) (kind : QueryError → κ) (site : Site) (f g : Filter) :
    Prop where
  isEmpty : f.isEmpty = g.isEmpty
  paths : c.filterPaths site.collection site.parents f =
    c.filterPaths site.collection site.parents g
  condition : ∀ hops, hops.Leads c site.collection →
    SameUpTo kind (c.condition? hops site.collection site.parents f)
      (c.condition? hops site.collection site.parents g)

/-- Two clauses join the same paths and have the same condition, or fail for the same kind of
reason. -/
structure Clause.Alike (c : Context) (kind : QueryError → κ) (site : Site) (x y : Clause) :
    Prop where
  paths : c.clausePaths site.collection site.parents x =
    c.clausePaths site.collection site.parents y
  condition : ∀ hops, hops.Leads c site.collection →
    SameUpTo kind (c.clauseCondition? hops site.collection site.parents x)
      (c.clauseCondition? hops site.collection site.parents y)

namespace Clause.Alike

variable {x y : Clause}

/-- A filter with a clause replaced. -/
theorem filter (h : x.Alike c kind site y) (before after : List Clause) :
    Filter.Alike c kind site ⟨before ++ x :: after⟩ ⟨before ++ y :: after⟩ where
  isEmpty := by cases before <;> rfl
  paths := by
    simp only [Context.filterPaths, Context.clausesPaths_eq_flatMap, List.flatMap_append,
      List.flatMap_cons, h.paths]
  condition hops hleads := by
    rw [Context.condition?, Context.condition?]
    refine SameUpTo.map ?_ _
    induction before with
    | nil =>
      rw [List.nil_append, List.nil_append, Context.clauseConditions, Context.clauseConditions]
      exact (h.condition hops hleads).bind fun part _ _ _ => .refl _
    | cons clause rest ih =>
      rw [List.cons_append, List.cons_append, Context.clauseConditions, Context.clauseConditions]
      exact (SameUpTo.refl _).bind fun part _ _ _ => ih.bind fun parts _ _ _ => .refl _

end Clause.Alike

namespace Filter.Alike

variable {f g : Filter}

theorem holdsAlways_eq (h : f.Alike c kind site g) (before after : List Filter) :
    holdsAlways (before ++ f :: after) = holdsAlways (before ++ g :: after) := by
  simp [holdsAlways, h.isEmpty]

theorem groupConditions (h : f.Alike c kind site g) (before after : List Filter) {hops : Hops}
    (hleads : hops.Leads c site.collection) :
    SameUpTo kind
      (c.groupConditions hops site.collection site.parents (before ++ f :: after))
      (c.groupConditions hops site.collection site.parents (before ++ g :: after)) := by
  induction before with
  | nil =>
    rw [List.nil_append, List.nil_append, Context.groupConditions, Context.groupConditions]
    exact (h.condition hops hleads).bind fun part _ _ _ => .refl _
  | cons first rest ih =>
    rw [List.cons_append, List.cons_append, Context.groupConditions, Context.groupConditions]
    exact (SameUpTo.refl _).bind fun part _ _ _ => ih.bind fun parts _ _ _ => .refl _

theorem filtersPaths (h : f.Alike c kind site g) (before after : List Filter) :
    c.filtersPaths site.collection site.parents (before ++ f :: after) =
      c.filtersPaths site.collection site.parents (before ++ g :: after) := by
  simp only [Context.filtersPaths_eq_flatMap, List.flatMap_append, List.flatMap_cons, h.paths]

theorem all (h : f.Alike c kind site g) (before after : List Filter) :
    Clause.Alike c kind site (.all (before ++ f :: after)) (.all (before ++ g :: after)) where
  paths := by
    rw [Context.clausePaths, Context.clausePaths]
    exact h.filtersPaths before after
  condition hops hleads := by
    rw [Context.clauseCondition?, Context.clauseCondition?]
    exact (h.groupConditions before after hleads).map _

theorem any (h : f.Alike c kind site g) (before after : List Filter) :
    Clause.Alike c kind site (.any (before ++ f :: after)) (.any (before ++ g :: after)) where
  paths := by
    rw [Context.clausePaths, Context.clausePaths, h.holdsAlways_eq before after,
      h.filtersPaths before after]
  condition hops hleads := by
    rw [Context.clauseCondition?, Context.clauseCondition?, h.holdsAlways_eq before after]
    split
    · exact .refl _
    · exact (h.groupConditions before after hleads).map _

/-- Statements of keys that are restricted by one filter or the other one. -/
theorem addFilter {there : String} (hf : f.IsUnfolded)
    (h : f.Alike c kind { collection := there } g) (scope : Scope)
    (hleads : scope.hops.Leads c there) (inner : Bool) :
    SameUpTo kind (c.addFilter inner there scope f fun hops => c.condition? hops there [] f)
      (c.addFilter inner there scope g fun hops => c.condition? hops there [] g) := by
  have hjoin : c.joinFilter inner there [] scope f = c.joinFilter inner there [] scope g := by
    rw [Context.joinFilter_eq, Context.joinFilter_eq, h.paths]
  rw [Context.addFilter, Context.addFilter, Context.restricted, Context.restricted, ← hjoin]
  refine (SameUpTo.refl _).bind ?_
  rintro ⟨joined, several⟩ k k' hgives
  exact (h.condition joined.hops (hleads.joinFilter hf hgives)).bind fun part _ _ _ => .refl _

/-- Existential conditions of one filter and the other one. -/
theorem existential {owner table there : String} {link : Link} (hf : f.IsUnfolded)
    (h : f.Alike c kind { collection := there } g) (quantifier : Quantifier)
    (hthere : ∀ r, link.relation? = some r → r.collection = there) :
    SameUpTo kind
      (c.existential owner table link quantifier f
        fun related hops => c.condition? hops related [] f)
      (c.existential owner table link quantifier g
        fun related hops => c.condition? hops related [] g) := by
  rw [Context.existential, Context.existential, Context.amongKeys, Context.amongKeys]
  refine (SameUpTo.refl _).bind ?_
  rintro ⟨r, keys, polymorphic⟩ k k' hkeys
  obtain ⟨known, hreferring, rfl⟩ := Context.isReferring_of_relatedKeys hkeys
  obtain rfl := hthere r hreferring.relation?_eq
  refine (SameUpTo.refl _).bind fun _ _ _ _ => ?_
  -- The statement of the keys starts without joins, so each of its joins leads where its path does.
  exact (h.addFilter hf { query := r.keysWith [] known } Hops.Leads.empty true).bind
    fun _ _ _ _ => .refl _

/-- What is nested under a segment. -/
theorem nested {key : String} (hf : f.IsUnfolded) (h : f.Alike c kind (c.below site key) g) :
    Clause.Alike c kind site (.field key (.nested f)) (.field key (.nested g)) := by
  unfold Context.below at h
  by_cases hstart : c.startsExistential site.collection site.parents key = true
  · rw [if_pos hstart] at h
    refine ⟨?_, fun hops hleads => ?_⟩
    · rw [Context.clausePaths, Context.clausePaths, if_pos hstart, if_pos hstart]
    · rw [Context.clauseCondition?, Context.clauseCondition?, Context.fieldCondition?,
        Context.fieldCondition?, if_pos hstart, if_pos hstart]
      refine (existential hf h .some fun r hr => ?_).map _
      exact (Context.relatedCollection_eq (by rw [Context.relatedLink?, if_pos hstart]) hr).symm
  · rw [if_neg hstart] at h
    refine ⟨?_, fun hops hleads => ?_⟩
    · rw [Context.clausePaths, Context.clausePaths, if_neg hstart, if_neg hstart,
        Context.conditionPaths, Context.conditionPaths]
      exact h.paths
    · rw [Context.clauseCondition?, Context.clauseCondition?, Context.fieldCondition?,
        Context.fieldCondition?, if_neg hstart, if_neg hstart]
      exact h.condition hops hleads

/-- What is asked of the rows that a segment lists. -/
theorem quantified {key : String} (hsite : IsPath site.parents) (hf : f.IsUnfolded)
    (h : f.Alike c kind (c.inside site key) g) (quantifier : Quantifier) :
    Clause.Alike c kind site (.field key (.quantified quantifier f))
      (.field key (.quantified quantifier g)) := by
  refine ⟨?_, fun hops hleads => ?_⟩
  · rw [Context.clausePaths, Context.clausePaths, Context.conditionPaths, Context.conditionPaths]
  rw [Context.clauseCondition?, Context.clauseCondition?, Context.fieldCondition?,
    Context.fieldCondition?]
  by_cases hstart : c.startsExistential site.collection site.parents key = true
  · rw [if_pos hstart, if_pos hstart]
    refine (existential hf h quantifier fun r hr => ?_).map _
    exact (Context.relatedCollection_eq (by rw [Context.relatedLink?, if_pos hstart]) hr).symm
  · rw [if_neg hstart, if_neg hstart]
    refine (SameUpTo.refl _).bind ?_
    rintro ⟨hop, link⟩ k k' hfound
    obtain ⟨hhop, hlink, hmany⟩ := Context.quantifiedLink_eq_ok (Compile.gives_lift.mp hfound).1
    have hasked : c.IsAsked hops site.collection site.parents key hop.collection hop.name link :=
      ⟨hmany, .inr ⟨Bool.eq_false_iff.mpr hstart, hop, hhop, rfl, rfl, hlink⟩⟩
    refine (existential hf h quantifier fun r hr => ?_).map _
    exact (Context.relatedCollection_eq (hleads.relatedLink? hsite hasked) hr).symm

end Filter.Alike

/-- What is asked at the end of two keys whose segments before the last one are the same but for
blanks around them. -/
theorem Clause.Alike.along {before before' : List String} {last last' : String}
    {condition condition' : FieldCondition} (hbefore : IsPath before)
    (htrims : before.map Text.trim = before'.map Text.trim) (hlast : IsSegment last)
    (hunfolded : condition.IsUnfolded)
    (h : Clause.Alike c kind (c.siteAlong site before) (.field last condition)
      (.field last' condition')) :
    Clause.Alike c kind site (.along (before ++ [last]) condition)
      (.along (before' ++ [last']) condition') := by
  -- Each segment moves the site on by its text without blanks, which is the same in both keys.
  induction before generalizing before' site with
  | nil =>
    obtain rfl : before' = [] := List.map_eq_nil_iff.mp htrims.symm
    exact h
  | cons segment rest ih =>
    cases before' with
    | nil => cases htrims
    | cons segment' rest' =>
      rw [List.map_cons, List.map_cons] at htrims
      obtain ⟨hsegment, hrest⟩ := List.cons.inj htrims
      have hpath : IsPath (rest ++ [last]) :=
        IsPath.append (fun s hs => hbefore s (List.mem_cons_of_mem _ hs)) hlast
      have hinner : Filter.IsUnfolded (.of (.along (rest ++ [last]) condition)) :=
        ⟨isUnfolded_along hpath hunfolded, trivial⟩
      rw [List.cons_append, List.cons_append, Clause.along_cons (by simp),
        Clause.along_cons (by simp), ← hsegment]
      have hnested := ih (fun s hs => hbefore s (List.mem_cons_of_mem _ hs)) hrest h
      exact Filter.Alike.nested hinner (hnested.filter [] [])

end

/-! ## Replaced clauses that are alike -/

section

variable {κ : Type} {c : Context} {kind : QueryError → κ} {R : Site → Clause → Clause → Prop}

/-- What is asked at the end of a key, each segment of the key by itself. -/
theorem Clause.Alike.field {site : Site} {key : String} {condition condition' : FieldCondition}
    (h : Clause.Alike c kind (c.siteOf site key) (.field (lastSegment key) condition.unfolded)
      (.field (lastSegment key) condition'.unfolded)) :
    Clause.Alike c kind site (Clause.field key condition).unfolded
      (Clause.field key condition').unfolded := by
  rw [Clause.unfolded, Clause.unfolded, split_eq_concat]
  exact h.along (isPath_parentSegments key) rfl (isSegment_lastSegment key)
    (condition_isUnfolded_unfolded condition)

mutual
/-- A filter with a clause replaced by one that is alike. -/
theorem Filter.Replaces.alike (hR : ∀ {site x y}, IsPath site.parents → R site x y →
      Clause.Alike c kind site x.unfolded y.unfolded) :
    ∀ {site : Site} {f g : Filter}, IsPath site.parents → f.Replaces c R site g →
      Filter.Alike c kind site f.unfolded g.unfolded
  | _, _, _, hsite, .clause before after h => by
    rw [Filter.unfolded, Filter.unfolded, Filter.unfoldedClauses_eq_map,
      Filter.unfoldedClauses_eq_map, List.map_append, List.map_append, List.map_cons, List.map_cons]
    exact (h.alike hR hsite).filter _ _

theorem Clause.Replaces.alike (hR : ∀ {site x y}, IsPath site.parents → R site x y →
      Clause.Alike c kind site x.unfolded y.unfolded) :
    ∀ {site : Site} {x y : Clause}, IsPath site.parents → x.Replaces c R site y →
      Clause.Alike c kind site x.unfolded y.unfolded
  | _, _, _, hsite, .here h => hR hsite h
  | _, _, _, hsite, .all before after h => by
    rw [Clause.unfolded, Clause.unfolded, Filter.unfoldedAll_eq_map, Filter.unfoldedAll_eq_map,
      List.map_append, List.map_append, List.map_cons, List.map_cons]
    exact (h.alike hR hsite).all _ _
  | _, _, _, hsite, .any before after h => by
    rw [Clause.unfolded, Clause.unfolded, Filter.unfoldedAll_eq_map, Filter.unfoldedAll_eq_map,
      List.map_append, List.map_append, List.map_cons, List.map_cons]
    exact (h.alike hR hsite).any _ _
  | _, _, _, hsite, .nested (f := f) key h =>
    have hthere :=
      Context.isPath_below (Context.isPath_siteOf hsite key) (isSegment_lastSegment key)
    .field (Filter.Alike.nested (isUnfolded_unfolded f) (h.alike hR hthere))
  | _, _, _, hsite, .quantified (f := f) key quantifier h =>
    .field (Filter.Alike.quantified (Context.isPath_siteOf hsite key) (isUnfolded_unfolded f)
      (h.alike hR Context.isPath_inside) quantifier)
end

end

/-! ## Requests -/

section

variable {κ : Type} {c : Context} {kind : QueryError → κ} {collection : String} {f g : Filter}

namespace Context

/-- All joins that a request makes before its filter lead where their paths lead. -/
theorem leads_before {q : Query} {r : Request} {inner : Bool} {scope₁ scope₂ scope₃ : Scope}
    {k₁ k₂ k₃ k₄ k₅ k₆ : Nat} (horder : (c.orderStage collection inner r q).Gives k₁ scope₁ k₂)
    (hsearch : (c.searchStage collection r scope₁).Gives k₃ scope₂ k₄)
    (hgroup : (r.group.foldlM (c.groupBy collection) scope₂).Gives k₅ scope₃ k₆) :
    scope₃.hops.Leads c collection := by
  have hordered : scope₁.hops.Leads c collection := by
    cases inner with
    | true =>
      obtain ⟨rfl, -⟩ := Compile.gives_pure.mp horder
      exact Hops.Leads.empty
    | false =>
      exact (Prepares.of_orderStage horder).leads
        (List.forall_mem_map.mpr fun entry _ => isPath_fieldPath _) Hops.Leads.empty
  exact (Prepares.of_groupStage hgroup).leads
    (List.forall_mem_map.mpr fun key _ => isPath_fieldPath key)
    (searchStage_hops hsearch ▸ hordered)

/-- Requests with filters that are alike are added alike. -/
theorem sameUpTo_apply (h : f.unfolded.Alike c kind { collection } g.unfolded) (q : Query)
    (r : Request) (inner : Bool) :
    SameUpTo kind (c.apply collection q { r with filter := some f } inner)
      (c.apply collection q { r with filter := some g } inner) := by
  rw [apply_eq, apply_eq]
  refine (SameUpTo.refl _).bind fun info _ _ _ => ?_
  refine (SameUpTo.refl _).bind fun scope₁ _ _ horder => ?_
  refine (SameUpTo.refl _).bind fun scope₂ _ _ hsearch => ?_
  refine (SameUpTo.refl _).bind fun scope₃ _ _ hgroup => ?_
  have hfiltered : SameUpTo kind (c.restrict inner collection scope₃ f)
      (c.restrict inner collection scope₃ g) := by
    rw [restrict_eq, restrict_eq]
    exact h.addFilter (isUnfolded_unfolded f) scope₃ (leads_before horder hsearch hgroup) inner
  exact hfiltered.bind fun restricted _ _ _ => .refl _

end Context

/-- The compilation of a request starts from no alias. -/
theorem Compiler.apply_eq_map (s : Schema) (options : Options) (names : Nat → String) (q : Query)
    (r : Request) (inner : Bool) :
    Compiler.apply { provider := s.provider, options, names } collection q r inner =
      ((s.context options names).apply collection q r inner 0).map Prod.fst := by
  have hrun : Compiler.apply { provider := s.provider, options, names } collection q r inner =
      (s.context options names).apply collection q r inner 0 >>= fun found => pure found.1 := rfl
  rw [hrun]
  cases (s.context options names).apply collection q r inner 0 <;> rfl

/-- Requests with filters that are alike give the same statement and the same flag, or fail for the
same kind of reason. -/
theorem Compiler.apply_of_alike {s : Schema} {options : Options} {names : Nat → String}
    (h : f.unfolded.Alike (s.context options names) kind { collection } g.unfolded) (q : Query)
    (r : Request) (inner : Bool) :
    (Compiler.apply { provider := s.provider, options, names } collection q
        { r with filter := some f } inner).mapError kind =
      (Compiler.apply { provider := s.provider, options, names } collection q
        { r with filter := some g } inner).mapError kind := by
  have hmap {α β : Type} (x : Except QueryError α) (f : α → β) :
      (x.map f).mapError kind = (x.mapError kind).map f := by cases x <;> rfl
  rw [Compiler.apply_eq_map, Compiler.apply_eq_map, hmap, hmap,
    Context.sameUpTo_apply h q r inner 0]

end

end JsonSql
