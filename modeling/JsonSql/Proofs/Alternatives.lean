import JsonSql.Proofs.Carried
import JsonSql.Proofs.Selection

set_option autoImplicit false

/-!
# Alternatives

A group of alternatives is left out for a child that has no clauses at all.  A child that has
clauses and still compiles to no condition, since they are empty groups or comparisons without a
value, is itself left out, and the others remain.
-/

namespace JsonSql

open JsonSql.Sql

namespace Context

variable {c : Context} {hops : Hops} {collection : String} {parents : List String}
  {filters : List Filter}

/-- A filter compiles on its own. -/
def Compiles (c : Context) (hops : Hops) (collection : String) (parents : List String)
    (f : Filter) : Prop :=
  ∃ k e? k', (c.predicatePass hops collection parents f).Gives k e? k'

/-- A filter compiles on its own to no condition. -/
def RestrictsNothing (c : Context) (hops : Hops) (collection : String) (parents : List String)
    (f : Filter) : Prop :=
  ∃ k k', (c.predicatePass hops collection parents f).Gives k none k'

/-- What a filter compiles to from one count of aliases it compiles to from any other. -/
theorem Compiles.gives {f : Filter} (h : c.Compiles hops collection parents f) (k : Nat) :
    ∃ e? k', (c.predicatePass hops collection parents f).Gives k e? k' ∧
      (e? = none ↔ c.RestrictsNothing hops collection parents f) := by
  obtain ⟨j, e?, j', hgives⟩ := h
  obtain ⟨e'?, k', hgives', -⟩ := carries_predicatePass hops collection parents f j e? j' hgives k
  refine ⟨e'?, k', hgives', fun hnone => ⟨k, k', hnone ▸ hgives'⟩, fun ⟨i, i', hnothing⟩ => ?_⟩
  obtain ⟨found, m, hfound, hsame⟩ :=
    carries_predicatePass hops collection parents f i none i' hnothing k
  obtain ⟨rfl, -⟩ := Prod.mk.inj (Except.ok.inj (hgives'.symm.trans hfound))
  exact Option.isNone_iff_eq_none.mp (by simpa using hsame.symm)

/-- Where each filter of a group compiles, the group does, to the conditions of those that restrict
something. -/
theorem groupPredicates_gives (h : ∀ f ∈ filters, c.Compiles hops collection parents f) :
    ∀ k, ∃ conditions k', (c.groupPredicates hops collection parents filters).Gives k
        (conditions.reduceOption.map Expr.paren) k' ∧
      List.Forall₂ (fun f e? => ∃ j j', (c.predicatePass hops collection parents f).Gives j e? j')
        filters conditions ∧
      (conditions.reduceOption = [] ↔
        ∀ f ∈ filters, c.RestrictsNothing hops collection parents f) := by
  induction filters with
  | nil =>
    intro k
    exact ⟨[], k, by rw [groupPredicates]; exact Compile.gives_pure.mpr ⟨rfl, rfl⟩, .nil, by simp⟩
  | cons f rest ih =>
    intro k
    obtain ⟨e?, k₁, hfirst, hnothing⟩ := (h f List.mem_cons_self).gives k
    obtain ⟨conditions, k', hrest, hall, hnone⟩ :=
      ih (fun g hg => h g (List.mem_cons_of_mem _ hg)) k₁
    refine ⟨e? :: conditions, k', ?_, .cons ⟨k, k₁, hfirst⟩ hall, ?_⟩
    · rw [groupPredicates]
      simp only [Compile.gives_bind, Compile.gives_pure]
      refine ⟨e?, k₁, hfirst, _, k', hrest, ?_, rfl⟩
      cases e? <;> rfl
    · rw [List.forall_mem_cons, ← hnothing, ← hnone]
      cases e? with
      | none => exact ⟨fun hrest => ⟨rfl, hrest⟩, And.right⟩
      | some e => exact ⟨fun hcons => (by cases hcons), fun hsome => (by cases hsome.1)⟩

/-- A group of alternatives all of which compile does so itself.  It restricts nothing exactly if
one of them has no clauses or all of them restrict nothing; else it asks that one of those holds
that do restrict something. -/
theorem clausePredicate?_any (h : ∀ f ∈ filters, c.Compiles hops collection parents f) (k : Nat) :
    ∃ e? k', (c.clausePredicate? hops collection parents (.any filters)).Gives k e? k' ∧
      (e? = none ↔ (∃ f ∈ filters, f.clauses = []) ∨
        ∀ f ∈ filters, c.RestrictsNothing hops collection parents f) ∧
      ∀ e, e? = some e → ∃ conditions, List.Forall₂ (fun f e? => ∃ j j',
          (c.predicatePass hops collection parents f).Gives j e? j') filters conditions ∧
        disjunction? (conditions.reduceOption.map Expr.paren) = some e := by
  rw [clausePredicate?]
  split
  · next halways =>
    obtain ⟨f, hf, hempty⟩ := List.any_eq_true.mp halways
    refine ⟨none, k, Compile.gives_pure.mpr ⟨rfl, rfl⟩, ?_, fun e he => (by cases he)⟩
    exact iff_of_true rfl (.inl ⟨f, hf, List.isEmpty_iff.mp hempty⟩)
  · next hnever =>
    obtain ⟨conditions, k', hgives, hall, hnone⟩ := groupPredicates_gives h k
    refine ⟨_, k', Compile.gives_map.mpr ⟨_, hgives, rfl⟩, ?_, fun e he => ⟨conditions, hall, he⟩⟩
    have hsome : ¬ ∃ f ∈ filters, f.clauses = [] := by
      rintro ⟨f, hf, hempty⟩
      exact hnever (List.any_eq_true.mpr ⟨f, hf, List.isEmpty_iff.mpr hempty⟩)
    rw [or_iff_right hsome, ← hnone]
    cases conditions.reduceOption <;> simp [disjunction?]

end Context

/-- Articles of any kind, by an empty group, or with a title. -/
def Filter.anyOrTitled : List Filter :=
  [.of (.all []), .of (.field "title" (.compare [⟨.equal false false, some (.string "x")⟩]))]

/-- The compilation of requests against the blog. -/
def Context.blog : Context := Schema.blog.context {} Alias.sequential

theorem compiles_anyOrTitled :
    ∀ f ∈ Filter.anyOrTitled, Context.blog.Compiles {} "articles" [] f := by
  have hok : ∀ f ∈ Filter.anyOrTitled,
      (Context.blog.predicatePass {} "articles" [] f 0).toOption.isSome = true := by
    decide +kernel
  intro f hf
  obtain ⟨e?, k', hgives⟩ := Compile.exists_gives (hok f hf)
  exact ⟨0, e?, k', hgives⟩

theorem clausePredicate?_any_blog :
    (∀ f ∈ Filter.anyOrTitled, Context.blog.Compiles {} "articles" [] f) ∧
      ∃ e? k', (Context.blog.clausePredicate? {} "articles" [] (.any Filter.anyOrTitled)).Gives 0
          e? k' ∧
        (e? = none ↔ (∃ f ∈ Filter.anyOrTitled, f.clauses = []) ∨
          ∀ f ∈ Filter.anyOrTitled, Context.blog.RestrictsNothing {} "articles" [] f) ∧
        ∀ e, e? = some e → ∃ conditions, List.Forall₂ (fun f e? => ∃ j j',
            (Context.blog.predicatePass {} "articles" [] f).Gives j e? j') Filter.anyOrTitled
              conditions ∧
          disjunction? (conditions.reduceOption.map Expr.paren) = some e :=
  ⟨compiles_anyOrTitled, Context.clausePredicate?_any compiles_anyOrTitled 0⟩

/-- A child that restricts nothing, but has a clause, does not make its group restrict nothing. -/
theorem clausePredicate?_any_restricts :
    (∃ f ∈ Filter.anyOrTitled, Context.blog.RestrictsNothing {} "articles" [] f) ∧
      (∀ f ∈ Filter.anyOrTitled, Context.blog.Compiles {} "articles" [] f) ∧
      ∃ e k', (Context.blog.clausePredicate? {} "articles" [] (.any Filter.anyOrTitled)).Gives 0
        (some e) k' := by
  refine ⟨⟨_, List.mem_cons_self, 0, 0, rfl⟩, compiles_anyOrTitled, ?_⟩
  obtain ⟨e, k', hgives, -⟩ : ∃ e k', (Context.blog.clausePredicate? {} "articles" []
      (.any Filter.anyOrTitled)).Gives 0 (some e) k' ∧ e.isDisjunction = false :=
    Compile.exists_gives_some (f := Expr.isDisjunction) (by decide +kernel)
  exact ⟨e, k', hgives⟩

end JsonSql
