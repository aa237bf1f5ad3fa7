import JsonSql.Proofs.Copies

set_option autoImplicit false

/-!
# Orderings

An ordering joins the paths of its entries.  Along links to one row this changes nothing but the
order of the rows.  A path that walks a link to several rows below the first one joins it as well,
and repeats rows unless the filter joins it anyway.
-/

namespace JsonSql

open JsonSql.Sql

variable {E : Engine} {s : Schema} {db : Database E} {options : Options} {collection : String}
  {r : Request}

namespace Context

variable {c : Context}

/-- The ordering of a request joins links to several rows only where its filter does. -/
def SortsWithin (c : Context) (collection : String) (r : Request) : Prop :=
  ∀ entry ∈ r.sort, c.SeveralWithin collection (c.requestPaths collection r) (sortPath entry)

instance : Decidable (c.SortsWithin collection r) :=
  inferInstanceAs (Decidable (∀ entry ∈ r.sort,
    c.SeveralWithin collection (c.requestPaths collection r) (sortPath entry)))

end Context

/-- An ordering leaves the rows that a request returns as they are, each as often, if it joins links
to several rows only where the filter does, and no alias is spelled like a collection. -/
theorem output_perm_of_sort {letters letters' : Alias.Letters} {q q' : Query}
    (hkeys : s.HasKeys db) (htexts : s.HasKeyTexts db) (hgroup : r.group = [])
    (haggregate : r.aggregate = []) (hlimit : options.effectiveLimit r.limit < 0)
    (hoffset : r.offset = none)
    (hsorts : (s.context options (s.compiler options letters).names).SortsWithin collection r)
    (havoids : ∀ name ∈ (s.compiler options letters).issued collection r,
      s.collection? name = none)
    (havoids' : ∀ name ∈ (s.compiler options letters').issued collection { r with sort := [] },
      s.collection? name = none)
    (h : (s.compiler options letters).compile collection r = .ok q)
    (h' : (s.compiler options letters').compile collection { r with sort := [] } = .ok q') :
    (q.output db []).Perm (q'.output db []) ∧ q.window = none ∧ q'.window = none := by
  have hinjective (letters : Alias.Letters) :
      Function.Injective (s.compiler options letters).names := Alias.names_injective _ _ letters
  let c := s.context options (s.compiler options letters).names
  have hpaths : c.walkedPaths collection r =
      r.sort.map sortPath ++ c.requestPaths collection r :=
    Context.walkedPaths_whole hgroup haggregate
  have hpaths' : c.walkedPaths collection { r with sort := [] } = c.requestPaths collection r :=
    Context.walkedPaths_whole hgroup haggregate
  have hwithin : ∀ path ∈ c.walkedPaths collection r,
      c.SeveralWithin collection (c.walkedPaths collection { r with sort := [] }) path := by
    intro path hpath
    rw [hpaths']
    rw [hpaths] at hpath
    rcases List.mem_append.mp hpath with hsorted | hfilter
    · obtain ⟨entry, hentry, rfl⟩ := List.mem_map.mp hsorted
      exact hsorts entry hentry
    · exact Context.severalWithin_of_mem hfilter
  obtain ⟨hperm, hwindow, hwindow'⟩ := output_perm_of_compile r { r with sort := [] } hkeys htexts
    hgroup haggregate hgroup haggregate rfl
    (filtersAgree_refl (hinjective letters) (hinjective letters') r.filter)
    (by
      show c.walkedPaths collection { r with sort := [] } ⊆ c.walkedPaths collection r
      rw [hpaths, hpaths']
      exact List.subset_append_right _ _) hwithin havoids havoids' h h'
  refine ⟨hperm, hwindow.trans ?_, hwindow'.trans ?_⟩
  · rw [Options.narrow_window (r := r) rfl hlimit hoffset]
    rfl
  · rw [Options.narrow_window (r := { r with sort := [] }) rfl hlimit hoffset]
    rfl

/-- Comments on articles with a comment that reads like this one, all of them, in an order. -/
def Request.allAlongside (sort : List String) : Request :=
  { Request.alongside sort with limit := some (-1) }

theorem output_perm_of_sort_blog :
    ∃ q q', (Schema.blog.compiler {} fun _ => 0).compile "comments"
        (Request.allAlongside ["article.comments.body", "-article.title"]) = .ok q ∧
      (Schema.blog.compiler {} fun _ => 0).compile "comments" (Request.allAlongside []) = .ok q' ∧
      (q.output Database.busy []).Perm (q'.output Database.busy []) ∧ q.window = none ∧
      q'.window = none := by
  obtain ⟨q, hq⟩ : ∃ q, (Schema.blog.compiler {} fun _ => 0).compile "comments"
      (Request.allAlongside ["article.comments.body", "-article.title"]) = .ok q :=
    Compiler.exists_compile (by decide +kernel)
  obtain ⟨q', hq'⟩ : ∃ q', (Schema.blog.compiler {} fun _ => 0).compile "comments"
      (Request.allAlongside []) = .ok q' :=
    Compiler.exists_compile (by decide +kernel)
  have hsorts : (Schema.blog.context {} (Schema.blog.compiler {} fun _ => 0).names).SortsWithin
      "comments" (Request.allAlongside ["article.comments.body", "-article.title"]) := by
    decide +kernel
  have hlimit : ({} : Options).effectiveLimit
      (Request.allAlongside ["article.comments.body", "-article.title"]).limit < 0 := by
    decide
  exact ⟨q, q', hq, hq', output_perm_of_sort hasKeys_busy hasKeyTexts_busy rfl rfl hlimit rfl hsorts
    (collection?_issued_blog _ _) (collection?_issued_blog _ _) hq hq'⟩

/-- Comments in the order of the comments on their articles come once for each of these. -/
theorem not_output_perm_of_sort_blog :
    Schema.blog.HasKeys Database.busy ∧ Schema.blog.HasKeyTexts Database.busy ∧
      ∃ q q', (Schema.blog.compiler {} fun _ => 0).compile "comments"
          { sort := ["article.comments.body"], limit := some (-1) } = .ok q ∧
        (Schema.blog.compiler {} fun _ => 0).compile "comments" { limit := some (-1) } = .ok q' ∧
        q.window = none ∧ q'.window = none ∧
        (∀ name ∈ q.introduced, Schema.blog.collection? name = none) ∧
        ¬ (q.output Database.busy []).Perm (q'.output Database.busy []) := by
  exact ⟨hasKeys_busy, hasKeyTexts_busy,
    exists_not_perm (by decide : 4 ≠ 2) (by decide +kernel) (by decide +kernel)⟩

end JsonSql
