import JsonSql.Proofs.DottedKeys
import JsonSql.Proofs.Joinable

set_option autoImplicit false

/-!
# Fewer clauses

A filter that compiles does so without some of its clauses as well.  What is joined without them was
joined with them too, though perhaps for one of the clauses that are gone, so each join that is
still needed can be made; and the other clauses find what they look at.
-/

namespace JsonSql

open JsonSql.Sql

namespace Compile

variable {α β γ δ : Type} {R : α → β → Prop} {S : γ → δ → Prop} {x : Compile α} {y : Compile β}

/-- One more step before the first one. -/
theorem Carries.bind_left {f : α → Compile γ} {z : Compile δ}
    (h : ∀ k a k', x.Gives k a k' → Carries S (f a) z) : Carries S (x >>= f) z := by
  intro k c k' hgives j
  obtain ⟨a, k₁, ha, hc⟩ := gives_bind.mp hgives
  exact h k a k₁ ha k₁ c k' hc j

/-- Something more is made of the result of the first step. -/
theorem Carries.map_left {f : α → γ} {T : γ → β → Prop} (h : Carries R x y)
    (hnext : ∀ a b, R a b → T (f a) b) : Carries T (x >>= fun a => pure (f a)) y := by
  intro k c k' hgives j
  obtain ⟨a, k₁, ha, hresult⟩ := gives_bind.mp hgives
  obtain ⟨rfl, -⟩ := gives_pure.mp hresult
  obtain ⟨b, j', hb, hab⟩ := h k a k₁ ha j
  exact ⟨b, j', hb, hnext a b hab⟩

end Compile

open Compile (Carries carries_pure)

namespace Context

variable {c : Context} {inner : Bool} {collection : String}

/-! ## Fewer conditions -/

theorem clausesPaths_append (c : Context) (parents : List String) (clauses others : List Clause) :
    c.clausesPaths collection parents (clauses ++ others) =
      c.clausesPaths collection parents clauses ++ c.clausesPaths collection parents others := by
  induction clauses with
  | nil => rfl
  | cons clause rest ih =>
    rw [List.cons_append, clausesPaths, clausesPaths, ih, List.append_assoc]

theorem clausesPaths_sublist (c : Context) {clauses fewer : List Clause}
    (hsub : fewer.Sublist clauses) (parents : List String) :
    (c.clausesPaths collection parents fewer).Sublist
      (c.clausesPaths collection parents clauses) := by
  induction hsub with
  | slnil => exact List.Sublist.refl _
  | cons clause _ ih =>
    rw [clausesPaths]
    exact ih.trans (List.sublist_append_right _ _)
  | cons_cons clause _ ih =>
    rw [clausesPaths, clausesPaths]
    exact List.Sublist.append (List.Sublist.refl _) ih

theorem filterPaths_sublist (c : Context) {f fewer : Filter}
    (hsub : fewer.clauses.Sublist f.clauses) (parents : List String) :
    (c.filterPaths collection parents fewer).Sublist (c.filterPaths collection parents f) := by
  obtain ⟨clauses⟩ := f
  obtain ⟨rest⟩ := fewer
  rw [filterPaths, filterPaths]
  exact c.clausesPaths_sublist hsub parents

/-- Fewer clauses compile as well, on joins that agree where they look. -/
theorem carries_clauseConditions_sublist {hops hops' : Hops} {clauses fewer : List Clause}
    (hsub : fewer.Sublist clauses) (parents : List String) :
    (∀ path ∈ c.clausesPaths collection parents fewer, hops.AgreeAt hops' path.dropLast) →
      Carries (fun _ _ => True) (c.clauseConditions hops collection parents clauses)
        (c.clauseConditions hops' collection parents fewer) := by
  induction hsub with
  | slnil => exact fun _ => carries_pure trivial
  | cons clause _ ih =>
    intro hagree
    rw [clauseConditions]
    exact Carries.bind_left fun _ _ _ _ => (ih hagree).map_left fun _ _ _ => trivial
  | cons_cons clause _ ih =>
    intro hagree
    rw [clausesPaths] at hagree
    rw [clauseConditions, clauseConditions]
    refine (carries_clauseCondition? collection parents clause fun path hpath =>
      hagree path (List.mem_append_left _ hpath)).bind fun _ _ _ => ?_
    exact (ih fun path hpath => hagree path (List.mem_append_right _ hpath)).bind
      fun _ _ _ => carries_pure trivial

theorem carries_condition?_sublist {hops hops' : Hops} {f fewer : Filter}
    (hsub : fewer.clauses.Sublist f.clauses) (parents : List String)
    (hagree : ∀ path ∈ c.filterPaths collection parents fewer,
      hops.AgreeAt hops' path.dropLast) :
    Carries (fun _ _ => True) (c.condition? hops collection parents f)
      (c.condition? hops' collection parents fewer) := by
  obtain ⟨clauses⟩ := f
  obtain ⟨rest⟩ := fewer
  rw [filterPaths] at hagree
  rw [condition?, condition?]
  exact (carries_clauseConditions_sublist hsub parents hagree).map fun _ _ _ => trivial

/-! ## Fewer clauses -/

/-- A statement that can be restricted by a filter can be restricted by some of its clauses. -/
theorem carries_restrict_sublist {f fewer : Filter} {base : List (List String)} {scope : Scope}
    (hsub : fewer.unfolded.clauses.Sublist f.unfolded.clauses)
    (hblank : c.JoinsPrefix inner collection (c.filterPaths collection [] f.unfolded) [""] →
      c.JoinsPrefix inner collection (c.filterPaths collection [] fewer.unfolded) [""])
    (hjoinable : scope.hops.Joinable c collection)
    (halong : c.JoinsAlong inner collection base scope) :
    Carries (fun _ _ => True) (c.restrict inner collection scope f)
      (c.restrict inner collection scope fewer) := by
  rw [restrict_eq, restrict_eq]
  exact carries_addFilter (isUnfolded_unfolded f) (c.filterPaths_sublist hsub []).subset hblank
    hjoinable halong fun _ _ hagree => carries_condition?_sublist hsub [] hagree

/-- A request without aggregations that can be added to a statement can be added without some of the
clauses of its filter. -/
theorem apply_sublist {q : Query} {r : Request} {f fewer : Filter} {applied : Applied} {k : Nat}
    (hjoins : q.joins = []) (hfilter : r.filter = some f) (haggregate : r.aggregate = [])
    (hsub : fewer.unfolded.clauses.Sublist f.unfolded.clauses)
    (hblank : c.JoinsPrefix false collection (c.filterPaths collection [] f.unfolded) [""] →
      c.JoinsPrefix false collection (c.filterPaths collection [] fewer.unfolded) [""])
    (h : (c.apply collection q r false).Gives 0 applied k) :
    ∃ applied' k', (c.apply collection q { r with filter := some fewer } false).Gives 0 applied'
      k' := by
  simp only [apply_eq, Compile.gives_bind, Compile.gives_pure] at h
  obtain ⟨info, k₁, hinfo, scope₁, k₂, horder, scope₂, k₃, hsearch, scope₃, k₄, hgroup,
    ⟨scope₄, repeatsRows⟩, k₅, hrestrict, -⟩ := h
  obtain rfl := (collection_gives.mp hinfo).2
  have hjoinable := joinable_before horder hsearch hgroup
  have halong := joinsAlong_groupStage
    (joinsAlong_searchStage (joinsAlong_orderStage hjoins horder) hsearch) hgroup
  rw [filterStage, hfilter] at hrestrict
  obtain ⟨⟨scope₄', repeatsRows'⟩, k₅', hrestrict', -⟩ :=
    carries_restrict_sublist hsub hblank hjoinable halong _ _ _ hrestrict k₄
  refine ⟨⟨scope₄'.query, repeatsRows'⟩, k₅', ?_⟩
  simp only [apply_eq, Compile.gives_bind, Compile.gives_pure]
  refine ⟨info, _, hinfo, scope₁, k₂, horder, scope₂, k₃, hsearch, scope₃, k₄, hgroup,
    ⟨scope₄', repeatsRows'⟩, k₅', hrestrict', scope₄', k₅', ?_, rfl, rfl⟩
  rw [aggregateStage, if_pos (List.isEmpty_iff.mpr haggregate), Compile.gives_pure]
  exact ⟨rfl, rfl⟩

end Context

namespace Compiler

variable {compiler : Compiler} {collection : String} {r : Request}

/-- A request without aggregations that compiles does so without some of the clauses of its
filter. -/
theorem exists_compile_sublist {f fewer : Filter} {q : Query} (hfilter : r.filter = some f)
    (haggregate : r.aggregate = [])
    (hsub : fewer.unfolded.clauses.Sublist f.unfolded.clauses)
    (hblank : ∀ relations, compiler.provider.relations = .ok relations →
      Context.JoinsPrefix { compiler with relations } false collection
          (Context.filterPaths { compiler with relations } collection [] f.unfolded) [""] →
        Context.JoinsPrefix { compiler with relations } false collection
          (Context.filterPaths { compiler with relations } collection [] fewer.unfolded) [""])
    (h : compiler.compile collection r = .ok q) :
    ∃ q', compiler.compile collection { r with filter := some fewer } = .ok q' := by
  obtain ⟨applied, happlied, -⟩ := compile_eq_ok h
  obtain ⟨relations, k, hrelations, happly⟩ := apply_eq_ok happlied
  obtain ⟨applied', k', happly'⟩ := Context.apply_sublist (target_joins collection r) hfilter
    haggregate hsub (hblank relations hrelations) happly
  exact ⟨applied'.query, compile_of_gives hrelations happly'⟩

end Compiler

end JsonSql
