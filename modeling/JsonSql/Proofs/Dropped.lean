import JsonSql.Proofs.Copies
import JsonSql.Proofs.FewerClauses
import JsonSql.Proofs.RowsBelow

set_option autoImplicit false

/-!
# Dropped comparisons

A comparison that lacks its value, or that has other than two bounds for a range, restricts nothing.
A clause of such comparisons can be left out: the request still compiles, and returns the same rows,
each as often (`output_perm_of_dropped`).  But the path of the clause is joined all the same, so
this holds where it joins links to several rows only where the rest of the request does.
-/

namespace JsonSql

open JsonSql.Sql

variable {E : Engine} {s : Schema} {db : Database E} {options : Options} {names : Nat → String}
  {collection : String}

/-! ## Comparisons that restrict nothing -/

/-- The bounds of a range: the pieces of a text between commas, the items of a list or else the
value itself, but no nulls. -/
def Json.bounds (value : Json) : List Json :=
  let items := match value with
    | .string s => (Text.split ',' s).map fun piece => Json.string (Text.trim piece)
    | .array items => items
    | value => [value]
  items.filter fun item => !item.isNull

theorem Sql.Literal.list_pair (d : Dialect) (kind : ValueKind) (value : Json) :
    Literal.list d kind .pair value = value.bounds.map (Literal.ofJson d kind) := by
  cases value <;> rfl

/-- A comparison lacks the value that its operator takes, or is with a range that has not exactly
two bounds. -/
def Comparison.IsDropped (comparison : Comparison) : Prop :=
  (comparison.value = none ∧ comparison.operator.arity ≠ .none) ∨
    comparison.operator.arity = .pair ∧ ∀ value ∈ comparison.value, value.bounds.length ≠ 2

instance (comparison : Comparison) : Decidable comparison.IsDropped :=
  inferInstanceAs (Decidable ((comparison.value = none ∧ comparison.operator.arity ≠ .none) ∨
    comparison.operator.arity = .pair ∧ ∀ value ∈ comparison.value, value.bounds.length ≠ 2))

theorem Operator.exists_eq_between {operator : Operator} (h : operator.arity = .pair) :
    ∃ negated, operator = .between negated := by
  cases operator with
  | between negated => exact ⟨negated, rfl⟩
  | _ => cases h

namespace Context

variable {c : Context} {hops : Hops} {parents : List String} {k k' : Nat}

/-- A dropped comparison has no condition. -/
theorem compare?_of_isDropped {column : Column} {comparison : Comparison} {e? : Option Expr}
    (hdropped : comparison.IsDropped) (h : c.compare? column comparison = .ok e?) : e? = none := by
  obtain ⟨operator, value⟩ := comparison
  rw [compare?, Except.bind_eq_ok_iff] at h
  obtain ⟨-, -, h⟩ := h
  dsimp only at h
  split at h
  · cases h
    rfl
  · next hvalue =>
    rcases hdropped with ⟨rfl, htakes⟩ | ⟨hpair, hbounds⟩
    · exact absurd ⟨htakes, rfl⟩ hvalue
    · obtain ⟨negated, rfl⟩ := Operator.exists_eq_between hpair
      cases value with
      | none => exact absurd ⟨fun hnone => (by cases hnone), rfl⟩ hvalue
      | some value =>
        have hlength :
            (value.bounds.map (Literal.ofJson c.dialect column.valueKind)).length ≠ 2 := by
          rw [List.length_map]
          exact hbounds value rfl
        unfold Operator.arity Operator.predicate? at h
        dsimp only at h
        rw [Literal.list_pair] at h
        split at h
        · next low high hboth => exact absurd (hboth ▸ rfl) hlength
        · cases h
          rfl

theorem compareAll?_of_isDropped {column : Column} {comparisons : List Comparison}
    {e? : Option Expr} (hdropped : ∀ comparison ∈ comparisons, comparison.IsDropped)
    (h : c.compareAll? column comparisons = .ok e?) : e? = none := by
  rw [compareAll?, Except.bind_eq_ok_iff] at h
  obtain ⟨parts, hparts, hresult⟩ := h
  cases hresult
  suffices hnone : parts.reduceOption = [] by rw [hnone]; rfl
  induction comparisons generalizing parts with
  | nil =>
    cases hparts
    rfl
  | cons comparison rest ih =>
    rw [List.mapM_cons, Except.bind_eq_ok_iff] at hparts
    obtain ⟨part, hpart, hparts⟩ := hparts
    rw [Except.bind_eq_ok_iff] at hparts
    obtain ⟨others, hothers, hresult⟩ := hparts
    cases hresult
    obtain rfl := compare?_of_isDropped (hdropped comparison List.mem_cons_self) hpart
    exact ih (fun x hx => hdropped x (List.mem_cons_of_mem _ hx)) others hothers

/-- A field that is compared with nothing has no condition. -/
theorem fieldCondition?_of_isDropped {key : String} {comparisons : List Comparison}
    {e? : Option Expr} (hdropped : ∀ comparison ∈ comparisons, comparison.IsDropped)
    (h : (c.fieldCondition? hops collection parents key (.compare comparisons)).Gives k e? k') :
    e? = none := by
  rw [fieldCondition?] at h
  split at h
  · obtain ⟨thrown, k₁, hthrow, -⟩ := Compile.gives_bind.mp h
    exact absurd hthrow Compile.not_gives_throw
  · obtain ⟨column, k₁, -, hall⟩ := Compile.gives_bind.mp h
    exact compareAll?_of_isDropped hdropped (Compile.gives_lift.mp hall).1

/-- The conditions of clauses are those of the first ones and those of the others. -/
theorem clauseConditions_append {clauses others : List Clause} {parts : List Expr}
    (h : (c.clauseConditions hops collection parents (clauses ++ others)).Gives k parts k') :
    ∃ first k₁ second, (c.clauseConditions hops collection parents clauses).Gives k first k₁ ∧
      (c.clauseConditions hops collection parents others).Gives k₁ second k' ∧
      parts = first ++ second := by
  induction clauses generalizing k parts with
  | nil => exact ⟨[], k, parts, Compile.gives_pure.mpr ⟨rfl, rfl⟩, h, rfl⟩
  | cons clause rest ih =>
    simp only [List.cons_append, clauseConditions, Compile.gives_bind, Compile.gives_pure] at h ⊢
    obtain ⟨part, k₁, hpart, parts₁, k₂, hparts, rfl, rfl⟩ := h
    obtain ⟨first, k₃, second, hfirst, hsecond, rfl⟩ := ih hparts
    exact ⟨part.toList ++ first, k₃, second, ⟨part, k₁, hpart, first, k₃, hfirst, rfl, rfl⟩,
      hsecond, (List.append_assoc _ _ _).symm⟩

end Context

/-- A clause without a condition can be left out of a filter. -/
theorem filtersAgree_of_dropped {names' : Nat → String} {pre post : List Clause} {clause : Clause}
    (hinjective : Function.Injective names) (hinjective' : Function.Injective names')
    (hdropped : ∀ {hops : Hops} {k k' : Nat} {e? : Option Expr},
      ((s.context options names).clauseCondition? hops collection [] clause.unfolded).Gives k e?
        k' → e? = none) :
    FiltersAgree s options names names' db collection (some ⟨pre ++ clause :: post⟩)
      (some ⟨pre ++ post⟩) := by
  intro declared asked asked' m m' n n' e? e'? tables tables' hc havoids havoids' hpaired hnone
    hnone' hsome hsome'
  have h := hsome _ rfl
  have h' := hsome' _ rfl
  rw [Filter.unfolded, Filter.unfoldedClauses_eq_map, List.map_append] at h h'
  rw [Context.condition?, Compile.gives_map] at h h'
  obtain ⟨parts, hparts, rfl⟩ := h
  obtain ⟨parts', hparts', rfl⟩ := h'
  obtain ⟨first, k₁, second, hfirst, hsecond, rfl⟩ := Context.clauseConditions_append hparts
  obtain ⟨first', k₁', second', hfirst', hsecond', rfl⟩ := Context.clauseConditions_append hparts'
  rw [List.map_cons, Context.clauseConditions] at hsecond
  simp only [Compile.gives_bind, Compile.gives_pure] at hsecond
  obtain ⟨part, k₂, hpart, rest, k₃, hrest, rfl, rfl⟩ := hsecond
  obtain rfl := hdropped hpart
  have hk := Context.grows_clauseConditions _ _ _ _ hfirst
  have hk₁ := Context.grows_clauseCondition? _ _ _ _ hpart
  have hk₂ := Context.grows_clauseConditions _ _ _ _ hrest
  have hk' := Context.grows_clauseConditions _ _ _ _ hfirst'
  have hk₁' := Context.grows_clauseConditions _ _ _ _ hsecond'
  have hunfolded (clauses : List Clause) : AreUnfoldedClauses (clauses.map Clause.unfolded) :=
    Filter.unfoldedClauses_eq_map clauses ▸ areUnfoldedClauses_unfolded clauses
  rw [truthOn_conjunction?, truthOn_conjunction?, Option.toList_none, List.nil_append,
    List.map_append, List.map_append]
  rw [truthOn_clauseConditions_same hinjective hinjective' (hunfolded pre) hc
      (havoids.mono (hk₁.trans hk₂)) (havoids'.mono hk₁') hpaired hfirst hfirst',
    truthOn_clauseConditions_same hinjective hinjective' (hunfolded post) hc havoids havoids'
      (hpaired.mono (hk.trans hk₁) hk') hrest hsecond']

/-! ## Requests without a dropped clause -/

namespace Context

variable {c : Context} {pre post : List Clause} {clause : Clause} {keys : List String}
  {key : String} {comparisons : List Comparison}

/-- The paths of a filter are those without one of its clauses and those of the clause. -/
theorem mem_filterPaths_around {path : List String} :
    path ∈ c.filterPaths collection [] (Filter.unfolded ⟨pre ++ clause :: post⟩) ↔
      path ∈ c.filterPaths collection [] (Filter.unfolded ⟨pre ++ post⟩) ∨
        path ∈ c.clausePaths collection [] clause.unfolded := by
  simp only [Filter.unfolded, Filter.unfoldedClauses_eq_map, List.map_append, List.map_cons,
    filterPaths, clausesPaths_append, clausesPaths, List.mem_append]
  tauto

/-- The paths of a request for whole rows are those without one clause of its filter and those of
the clause. -/
theorem mem_walkedPaths_around {r : Request} {path : List String} (hgroup : r.group = [])
    (haggregate : r.aggregate = []) (hfilter : r.filter = some ⟨pre ++ clause :: post⟩) :
    path ∈ c.walkedPaths collection r ↔
      path ∈ c.walkedPaths collection { r with filter := some ⟨pre ++ post⟩ } ∨
        path ∈ c.clausePaths collection [] clause.unfolded := by
  have hpaths' : c.walkedPaths collection { r with filter := some ⟨pre ++ post⟩ } =
      r.sort.map sortPath ++ c.requestPaths collection { r with filter := some ⟨pre ++ post⟩ } :=
    walkedPaths_whole hgroup haggregate
  rw [walkedPaths_whole hgroup haggregate, hpaths', requestPaths, requestPaths, hfilter,
    Option.toList_some, Option.toList_some, List.flatMap_singleton, List.flatMap_singleton,
    List.mem_append, List.mem_append, mem_filterPaths_around, or_assoc]

theorem isJoined_of_head
    (h : ∀ first ∈ (keys ++ [key]).head?, (c.link collection first).isToMany = false) :
    c.IsJoined collection [] (keys ++ [key]) := by
  intro
  cases keys with
  | nil => exact ⟨key, rfl, h key rfl⟩
  | cons first rest => exact ⟨first, rfl, h first rfl⟩

/-- A clause of comparisons joins the path of its keys. -/
theorem clausePaths_of_compare
    (hclause : clause.unfolded = .under keys (.field key (.compare comparisons)))
    (hjoined : c.IsJoined collection [] (keys ++ [key])) :
    c.clausePaths collection [] clause.unfolded = [(keys ++ [key]).map Text.trim] := by
  rw [hclause, clausePaths_under hjoined, conditionPaths, List.nil_append, List.map_append,
    List.map_singleton]

/-- A clause whose first key is not blank joins nothing that is recorded under a blank segment. -/
theorem joinsPrefix_blank_around (hnamed : ∀ first ∈ keys.head?, Text.trim first ≠ "")
    (hclause : clause.unfolded = .under keys (.field key (.compare comparisons)))
    (hjoined : c.IsJoined collection [] (keys ++ [key]))
    (h : c.JoinsPrefix false collection
      (c.filterPaths collection [] (Filter.unfolded ⟨pre ++ clause :: post⟩)) [""]) :
    c.JoinsPrefix false collection
      (c.filterPaths collection [] (Filter.unfolded ⟨pre ++ post⟩)) [""] := by
  obtain ⟨path, hmem, hinitial, hsome⟩ := h
  rcases mem_filterPaths_around.mp hmem with hkept | hleft
  · exact ⟨path, hkept, hinitial, hsome⟩
  · rw [clausePaths_of_compare hclause hjoined, List.mem_singleton] at hleft
    rw [hleft, List.map_append, List.map_singleton, List.dropLast_concat] at hinitial
    cases keys with
    | nil => cases List.prefix_nil.mp hinitial
    | cons first rest =>
      exact absurd (List.cons_prefix_cons.mp hinitial).1.symm (hnamed first rfl)

end Context

/-- A clause of dropped comparisons can be left out of a request for whole rows: the same rows are
returned, each as often, if the clause joins links to several rows only where the rest of the
request does, and no alias is spelled like a collection. -/
theorem output_perm_of_dropped {letters : Alias.Letters} {r : Request} {pre post : List Clause}
    {clause : Clause} {keys : List String} {key : String} {comparisons : List Comparison}
    {q : Query}
    (hkeys : s.HasKeys db) (htexts : s.HasKeyTexts db) (hgroup : r.group = [])
    (haggregate : r.aggregate = []) (hfilter : r.filter = some ⟨pre ++ clause :: post⟩)
    (hclause : clause.unfolded = .under keys (.field key (.compare comparisons)))
    (hdropped : ∀ comparison ∈ comparisons, comparison.IsDropped)
    (hone : ∀ first ∈ (keys ++ [key]).head?, (link s.relations collection first).isToMany = false)
    (hnamed : ∀ first ∈ keys.head?, Text.trim first ≠ "")
    (hwithin : (s.context options (s.compiler options letters).names).SeveralWithin collection
      ((s.context options (s.compiler options letters).names).walkedPaths collection
        { r with filter := some ⟨pre ++ post⟩ }) ((keys ++ [key]).map Text.trim))
    (havoids : ∀ name ∈ (s.compiler options letters).issued collection r,
      s.collection? name = none)
    (h : (s.compiler options letters).compile collection r = .ok q) :
    (∃ q', (s.compiler options letters).compile collection
        { r with filter := some ⟨pre ++ post⟩ } = .ok q') ∧
      ∀ (letters' : Alias.Letters) (q' : Query),
        (∀ name ∈ (s.compiler options letters').issued collection
          { r with filter := some ⟨pre ++ post⟩ }, s.collection? name = none) →
        (s.compiler options letters').compile collection { r with filter := some ⟨pre ++ post⟩ } =
          .ok q' →
        (q.output db []).Perm (q'.output db []) ∧ q.window = q'.window := by
  let c := s.context options (s.compiler options letters).names
  have hinjective (letters : Alias.Letters) :
      Function.Injective (s.compiler options letters).names := Alias.names_injective _ _ letters
  have hjoined (names : Nat → String) :
      (s.context options names).IsJoined collection [] (keys ++ [key]) :=
    Context.isJoined_of_head hone
  refine ⟨?_, fun letters' q' havoids' h' => ?_⟩
  · refine Compiler.exists_compile_sublist hfilter haggregate ?_ (fun relations hrelations => ?_) h
    · simp only [Filter.unfolded, Filter.unfoldedClauses_eq_map]
      exact ((List.sublist_cons_self clause post).append_left pre).map _
    · obtain rfl : s.relations = relations := Except.ok.inj hrelations
      exact Context.joinsPrefix_blank_around hnamed hclause
        (hjoined (s.compiler options letters).names)
  · have hwalked : ∀ path ∈ c.walkedPaths collection r, c.SeveralWithin collection
        (c.walkedPaths collection { r with filter := some ⟨pre ++ post⟩ }) path := by
      intro path hmem
      rcases (Context.mem_walkedPaths_around hgroup haggregate hfilter).mp hmem with hkept | hleft
      · exact Context.severalWithin_of_mem hkept
      · rw [Context.clausePaths_of_compare hclause (hjoined _), List.mem_singleton] at hleft
        rw [hleft]
        exact hwithin
    have hagree : FiltersAgree s options (s.compiler options letters).names
        (s.compiler options letters').names db collection r.filter (some ⟨pre ++ post⟩) := by
      rw [hfilter]
      refine filtersAgree_of_dropped (hinjective letters) (hinjective letters') fun {hops k k' e?}
        hgives => ?_
      rw [hclause, Context.clauseCondition?_under (hjoined _)] at hgives
      exact Context.fieldCondition?_of_isDropped hdropped hgives
    obtain ⟨hperm, hwindow, hwindow'⟩ := output_perm_of_compile r
      { r with filter := some ⟨pre ++ post⟩ } hkeys htexts hgroup haggregate hgroup haggregate rfl
      hagree (fun path hkept =>
        (Context.mem_walkedPaths_around hgroup haggregate hfilter).mpr (.inl hkept))
      hwalked havoids havoids' h h'
    exact ⟨hperm, hwindow.trans hwindow'.symm⟩

/-- The key of a comment on the same article, compared with nothing. -/
def Clause.unasked : Clause :=
  .field "article.comments.id" (.compare [⟨.equal false false, none⟩,
    ⟨.between false, some (.array [.number (.int 1)])⟩])

/-- The key of a comment on the same article, which is not the first one. -/
def Clause.later : Clause :=
  .field "article.comments.id" (.compare [⟨.greater, some (.number (.int 1))⟩])

/-- All comments that clauses select. -/
def Request.allOf (clauses : List Clause) : Request where
  filter := some ⟨clauses⟩
  limit := some (-1)

theorem output_perm_of_dropped_blog :
    ∃ q q', (Schema.blog.compiler {} fun _ => 0).compile "comments"
        (Request.allOf [.unasked, .later]) = .ok q ∧
      (Schema.blog.compiler {} fun _ => 0).compile "comments" (Request.allOf [.later]) = .ok q' ∧
      (q.output Database.busy []).Perm (q'.output Database.busy []) ∧ q.window = q'.window := by
  obtain ⟨q, hq⟩ : ∃ q, (Schema.blog.compiler {} fun _ => 0).compile "comments"
      (Request.allOf [.unasked, .later]) = .ok q :=
    Compiler.exists_compile (by decide +kernel)
  have hclause : Clause.unasked.unfolded = .under ["article", "comments"] (.field "id" (.compare
      [⟨.equal false false, none⟩, ⟨.between false, some (.array [.number (.int 1)])⟩])) := by
    rfl
  have hdropped : ∀ comparison ∈ [(⟨.equal false false, none⟩ : Comparison),
      ⟨.between false, some (.array [.number (.int 1)])⟩], comparison.IsDropped := by
    decide
  have hone : ∀ first ∈ ["article", "comments", "id"].head?,
      (link Schema.blog.relations "comments" first).isToMany = false := by
    decide +kernel
  have hnamed : ∀ first ∈ ["article", "comments"].head?, Text.trim first ≠ "" := by
    decide +kernel
  have hwithin : (Schema.blog.context {} (Schema.blog.compiler {} fun _ => 0).names).SeveralWithin
      "comments" ((Schema.blog.context {} (Schema.blog.compiler {} fun _ => 0).names).walkedPaths
        "comments" (Request.allOf [.later])) (["article", "comments", "id"].map Text.trim) := by
    decide +kernel
  have hfilter : (Request.allOf [.unasked, .later]).filter =
      some ⟨[] ++ Clause.unasked :: [.later]⟩ := rfl
  obtain ⟨⟨q', hq'⟩, hsame⟩ := output_perm_of_dropped hasKeys_busy hasKeyTexts_busy rfl rfl hfilter
    hclause hdropped hone hnamed hwithin (collection?_issued_blog _ _) hq
  exact ⟨q, q', hq, hq', hsame _ q' (collection?_issued_blog _ _) hq'⟩

/-- A clause of dropped comparisons repeats rows if it alone joins a link to several rows. -/
theorem not_output_perm_of_dropped_blog :
    Schema.blog.HasKeys Database.busy ∧ Schema.blog.HasKeyTexts Database.busy ∧
      (∀ comparison ∈ [(⟨.equal false false, none⟩ : Comparison)], comparison.IsDropped) ∧
      (link Schema.blog.relations "comments" "article").isToMany = false ∧
      ∃ q q', (Schema.blog.compiler {} fun _ => 0).compile "comments"
          (Request.allOf [.field "article.comments.id" (.compare [⟨.equal false false, none⟩])]) =
            .ok q ∧
        (Schema.blog.compiler {} fun _ => 0).compile "comments" (Request.allOf []) = .ok q' ∧
        q.window = none ∧ q'.window = none ∧
        (∀ name ∈ q.introduced, Schema.blog.collection? name = none) ∧
        ¬ (q.output Database.busy []).Perm (q'.output Database.busy []) := by
  exact ⟨hasKeys_busy, hasKeyTexts_busy, by decide, by decide +kernel,
    exists_not_perm (by decide : 4 ≠ 2) (by decide +kernel) (by decide +kernel)⟩

end JsonSql
