import JsonSql.Proofs.Respelled

set_option autoImplicit false

/-!
# Filters that follow a declared key back: conditions

The conditions of a respelled filter are built along those of the filter itself, leaf by leaf: each
column is read from the same join, and each existential condition lists the same rows.
-/

namespace JsonSql

open JsonSql.Sql
open Compile (Corresponds corresponds_pure corresponds_throw corresponds_refl corresponds_lift)

namespace Context

variable {c : Context} {t : Respelling} {collection : String} {inner : Bool} {hops hops' : Hops}

/-! ## Columns -/

theorem corresponds_placeOf (hhops : hops.Spelled c t collection hops') {parents : List String}
    (hparents : ∀ s ∈ parents, t.Allows c s) (shown shown' : String) :
    Except.Corresponds Eq (placeOf hops collection parents shown)
      (placeOf hops' collection (c.spelledPath t collection parents) shown') := by
  unfold placeOf
  by_cases hnone : parents = []
  · rw [if_pos hnone, hnone]
    exact .ok rfl
  · rw [if_neg hnone, if_neg (mt spelledPath_eq_nil hnone), hhops.same parents hnone hparents]
    cases hops.get? parents with
    | none => exact .error _ _
    | some hop => exact .ok rfl

theorem corresponds_applyFunction (place : Place) (function path path' field : String)
    (type : FieldType) : Corresponds Eq (c.applyFunction place function path field type)
      (c.applyFunction place function path' field type) := by
  unfold applyFunction
  dsimp only
  split
  · exact corresponds_throw _ _
  · split
    · exact corresponds_pure rfl
    · exact corresponds_throw _ _
  · split
    · exact corresponds_refl _
    · refine (corresponds_refl _).bind fun e? _ he => ?_
      subst he
      cases e? with
      | none => exact corresponds_throw _ _
      | some e => exact corresponds_pure rfl

/-- The column of a path is the same but for the path that is reported. -/
theorem corresponds_column (hhops : hops.Spelled c t collection hops') {parents : List String}
    (hparents : ∀ s ∈ parents, t.Allows c s) (last : String) :
    Corresponds (fun column column' => column' = { column with path := column'.path })
      (c.column hops collection (parents ++ [last]))
      (c.column hops' collection (c.spelledPath t collection parents ++ [last])) := by
  unfold Context.column
  dsimp only
  rw [List.getLast?_concat, List.getLast?_concat, List.dropLast_concat, List.dropLast_concat]
  dsimp only
  refine (corresponds_lift (corresponds_placeOf hhops hparents _ _)).bind fun place _ hplace => ?_
  subst hplace
  refine (corresponds_refl _).bind fun field _ hfield => ?_
  subst hfield
  split
  · split
    · exact corresponds_throw _ _
    · exact corresponds_pure rfl
  · exact (corresponds_applyFunction place _ _ _ _ _).bind fun e _ he =>
      he ▸ corresponds_pure rfl

/-- What is compared does not depend on the path that is reported. -/
theorem corresponds_compareAll? {column column' : Column}
    (hsame : column' = { column with path := column'.path }) (comparisons : List Comparison) :
    Except.Corresponds Eq (c.compareAll? column comparisons)
      (c.compareAll? column' comparisons) := by
  have hcheck (operator : Operator) : Except.Corresponds Eq (checkOperator column operator)
      (checkOperator column' operator) := by
    rw [hsame]
    unfold checkOperator
    dsimp only
    split
    · exact .error _ _
    · split
      · exact .ok rfl
      · exact .error _ _
  refine (Except.Corresponds.mapM fun comparison => ?_).bind fun parts _ hparts =>
    hparts ▸ .refl _
  refine (hcheck comparison.operator).bind fun _ _ _ => ?_
  rw [hsame]
  exact .refl _

/-! ## The paths of a respelled filter -/

theorem holdsAlways_respellFilters (parents : List String) (filters : List Filter) :
    holdsAlways (c.respellFilters t collection parents filters) = holdsAlways filters := by
  induction filters with
  | nil => rfl
  | cons f rest ih =>
    have hempty : (c.respell t collection parents f).isEmpty = f.isEmpty := by
      obtain ⟨clauses⟩ := f
      cases clauses <;> rfl
    rw [holdsAlways] at ih ⊢
    rw [respellFilters, List.any_cons, ih, hempty]
    rfl

/-- Below the root, what is written for a key continues what is written for the path. -/
theorem spelledPath_concat_key (ht : t.IsSound c) {parents : List String} {key : String}
    (hstarts : c.startsExistential collection parents key = false) :
    c.spelledPath t collection parents ++ [Text.trim (c.spelledKey t collection parents key)] =
      c.spelledPath t collection (parents ++ [Text.trim key]) := by
  rw [spelledKey, hstarts, if_neg Bool.false_ne_true, trim_hopKey ht, spelledPath_concat]

theorem allows_concat {parents : List String} {key : String} {segments : List String}
    (hparents : ∀ s ∈ parents, t.Allows c s)
    (hsegments : ∀ s ∈ Text.trim key :: segments, t.Allows c s) :
    ∀ s ∈ parents ++ [Text.trim key], t.Allows c s :=
  List.forall_mem_append.mpr ⟨hparents, List.forall_mem_singleton.mpr
    (hsegments _ List.mem_cons_self)⟩

mutual
/-- The paths of a respelled filter are what is written for those of the filter. -/
theorem isSpelled_filterPaths (ht : t.IsSound c) (parents : List String) (f : Filter)
    (hparents : ∀ s ∈ parents, t.Allows c s) (hf : ∀ s ∈ f.segments, t.Allows c s) :
    List.Forall₂ (c.IsSpelled t collection) (c.filterPaths collection parents f)
      (c.filterPaths collection (c.spelledPath t collection parents)
        (c.respell t collection parents f)) := by
  obtain ⟨clauses⟩ := f
  rw [Filter.segments] at hf
  rw [respell, filterPaths, filterPaths]
  exact isSpelled_clausesPaths ht parents clauses hparents hf

theorem isSpelled_clausesPaths (ht : t.IsSound c) (parents : List String) (clauses : List Clause)
    (hparents : ∀ s ∈ parents, t.Allows c s)
    (hf : ∀ s ∈ clausesSegments clauses, t.Allows c s) :
    List.Forall₂ (c.IsSpelled t collection) (c.clausesPaths collection parents clauses)
      (c.clausesPaths collection (c.spelledPath t collection parents)
        (c.respellClauses t collection parents clauses)) := by
  cases clauses with
  | nil => exact .nil
  | cons clause rest =>
    rw [clausesSegments, List.forall_mem_append] at hf
    rw [respellClauses, clausesPaths, clausesPaths]
    exact List.rel_append (isSpelled_clausePaths ht parents clause hparents hf.1)
      (isSpelled_clausesPaths ht parents rest hparents hf.2)

theorem isSpelled_clausePaths (ht : t.IsSound c) (parents : List String) (clause : Clause)
    (hparents : ∀ s ∈ parents, t.Allows c s) (hf : ∀ s ∈ clause.segments, t.Allows c s) :
    List.Forall₂ (c.IsSpelled t collection) (c.clausePaths collection parents clause)
      (c.clausePaths collection (c.spelledPath t collection parents)
        (c.respellClause t collection parents clause)) := by
  cases clause with
  | all filters =>
    rw [Clause.segments] at hf
    rw [respellClause, clausePaths, clausePaths]
    exact isSpelled_filtersPaths ht parents filters hparents hf
  | any filters =>
    rw [Clause.segments] at hf
    rw [respellClause, clausePaths, clausePaths, holdsAlways_respellFilters]
    split
    · exact .nil
    · exact isSpelled_filtersPaths ht parents filters hparents hf
  | field key condition =>
    rw [Clause.segments] at hf
    rw [respellClause, clausePaths]
    exact isSpelled_fieldPaths ht parents key condition hparents hf

theorem isSpelled_filtersPaths (ht : t.IsSound c) (parents : List String) (filters : List Filter)
    (hparents : ∀ s ∈ parents, t.Allows c s)
    (hf : ∀ s ∈ filtersSegments filters, t.Allows c s) :
    List.Forall₂ (c.IsSpelled t collection) (c.filtersPaths collection parents filters)
      (c.filtersPaths collection (c.spelledPath t collection parents)
        (c.respellFilters t collection parents filters)) := by
  cases filters with
  | nil => exact .nil
  | cons f rest =>
    rw [filtersSegments, List.forall_mem_append] at hf
    rw [respellFilters, filtersPaths, filtersPaths]
    exact List.rel_append (isSpelled_filterPaths ht parents f hparents hf.1)
      (isSpelled_filtersPaths ht parents rest hparents hf.2)

theorem isSpelled_fieldPaths (ht : t.IsSound c) (parents : List String) (key : String)
    (condition : FieldCondition) (hparents : ∀ s ∈ parents, t.Allows c s)
    (hf : ∀ s ∈ Text.trim key :: condition.segments, t.Allows c s) :
    List.Forall₂ (c.IsSpelled t collection)
      (if c.startsExistential collection parents key then []
        else c.conditionPaths collection (parents ++ [Text.trim key]) condition)
      (c.clausePaths collection (c.spelledPath t collection parents)
        (c.respellField t collection parents key condition)) := by
  cases condition with
  | compare comparisons =>
    rw [respellField, clausePaths, startsExistential_spelledPath]
    split
    · exact .nil
    · exact .cons (.mk _ _ hparents) .nil
  | quantified quantifier f =>
    rw [respellField, clausePaths, startsExistential_spelledKey ht]
    split
    · exact .nil
    · exact .cons (.mk _ _ hparents) .nil
  | nested f =>
    rw [respellField, clausePaths, startsExistential_spelledKey ht]
    cases hstarts : c.startsExistential collection parents key with
    | true => exact .nil
    | false =>
      rw [FieldCondition.segments] at hf
      rw [if_neg Bool.false_ne_true, if_neg Bool.false_ne_true, if_neg Bool.false_ne_true,
        conditionPaths, conditionPaths, spelledPath_concat_key ht hstarts]
      exact isSpelled_filterPaths ht _ f (allows_concat hparents hf)
        fun s hs => hf s (List.mem_cons_of_mem _ hs)
end

theorem corresponds_joinFilter (ht : t.IsSound c) (f : Filter)
    (hf : ∀ s ∈ f.segments, t.Allows c s) {scope scope' : Scope}
    (hscope : scope.Spelled c t collection scope') :
    Corresponds (fun joined joined' => joined.1.Spelled c t collection joined'.1 ∧
        joined'.2 = joined.2)
      (c.joinFilter inner collection [] scope f)
      (c.joinFilter inner collection [] scope' (c.respell t collection [] f)) := by
  rw [joinFilter_eq, joinFilter_eq]
  exact corresponds_joinPaths ht
    (isSpelled_filterPaths ht [] f (fun _ hs => absurd hs List.not_mem_nil) hf) hscope

/-! ## Existential conditions -/

/-- A statement is restricted alike where the condition on its joins is built alike. -/
theorem corresponds_restricted {joined joined' : Compile (Scope × Bool)}
    {condition condition' : Hops → Compile (Option Expr)}
    (hjoined : Corresponds (fun joined joined' => joined.1.Spelled c t collection joined'.1 ∧
      joined'.2 = joined.2) joined joined')
    (hcondition : ∀ hops hops', hops.Spelled c t collection hops' →
      Corresponds Eq (condition hops) (condition' hops')) :
    Corresponds (fun joined joined' => joined.1.Spelled c t collection joined'.1 ∧
        joined'.2 = joined.2)
      (restricted joined condition) (restricted joined' condition') := by
  unfold restricted
  refine hjoined.bind ?_
  rintro ⟨scope, several⟩ ⟨scope', _⟩ ⟨hscope, rfl⟩
  dsimp only at hscope ⊢
  refine (hcondition _ _ hscope.hops).bind fun e? _ he => ?_
  subst he
  cases e? with
  | none => exact corresponds_pure ⟨hscope, rfl⟩
  | some e => exact corresponds_pure ⟨⟨by rw [hscope.query], hscope.hops⟩, rfl⟩

/-- The rows of a segment and of what is written for it meet filters alike that have the same
condition on them. -/
theorem corresponds_existential (ht : t.IsSound c) (owner table segment : String)
    (quantifier : Quantifier) {related : String} {f : Filter}
    (hrelated : ∀ target, (c.link owner segment).target? = some target → related = target)
    (hf : ∀ s ∈ f.segments, t.Allows c s)
    (hcondition : ∀ hops hops', hops.Spelled c t related hops' →
      Corresponds Eq (c.condition? hops related [] f)
        (c.condition? hops' related [] (c.respell t related [] f))) :
    Corresponds Eq
      (c.existential owner table (c.link owner segment) quantifier f
        fun related hops => c.condition? hops related [] f)
      (c.existential owner table (c.link owner (t.hop (some owner) segment)) quantifier
        (c.respell t related [] f)
        fun there hops => c.condition? hops there [] (c.respell t related [] f)) := by
  rw [existential, existential, ht.apply_hop (fun _ link =>
    c.amongKeys owner table link quantifier _)
    (fun hkey hkey' => hkey.amongKeys_eq hkey' c owner table quantifier _)]
  unfold amongKeys
  refine (corresponds_refl _).gives.bind ?_
  rintro ⟨r, keys, polymorphic⟩ _ ⟨rfl, k, k', hkeys⟩
  obtain ⟨known, hreferring, -⟩ := isReferring_of_relatedKeys hkeys
  have htarget : (c.link owner segment).target? = some r.collection := by
    generalize c.link owner segment = link at hreferring
    cases hreferring <;> rfl
  obtain rfl := hrelated _ htarget
  refine (corresponds_refl _).bind fun _ _ _ => ?_
  refine (corresponds_restricted (corresponds_joinFilter ht f hf ⟨rfl, .empty⟩) hcondition).bind ?_
  rintro ⟨scope, several⟩ ⟨scope', _⟩ ⟨hscope, rfl⟩
  refine (corresponds_refl _).bind fun primary _ hprimary => ?_
  subst hprimary
  exact corresponds_pure (by rw [hscope.query])

/-- A quantified key below a join starts from that join in both. -/
theorem corresponds_quantifiedLink (ht : t.IsSound c)
    (hhops : hops.Spelled c t collection hops') {parents : List String}
    (hparents : ∀ s ∈ parents, t.Allows c s) (segment : String) :
    Except.Corresponds (fun found found' => found'.1 = found.1 ∧
        c.destination? collection parents = some found.1.collection ∧
        found.2 = c.link found.1.collection segment ∧
        found'.2 = c.link found.1.collection (t.hop (some found.1.collection) segment))
      (c.quantifiedLink hops parents segment)
      (c.quantifiedLink hops' (c.spelledPath t collection parents)
        (t.hop (c.destination? collection parents) segment)) := by
  unfold quantifiedLink
  dsimp only
  by_cases hnone : parents = []
  · rw [hnone, hhops.root, show c.spelledPath t collection [] = [] from rfl, hhops.root']
    exact .error _ _
  · rw [hhops.same parents hnone hparents]
    cases hfound : hops.get? parents with
    | none => exact .error _ _
    | some hop =>
      have hhop := hhops.leads parents hop hnone hparents hfound
      dsimp only
      rw [hhop, ht.isToMany_link_hop]
      split
      · exact .ok ⟨rfl, rfl, rfl, rfl⟩
      · exact .error _ _

/-! ## Conditions -/

theorem collectionBelow_of_starts {parents : List String} {key target : String}
    (hstarts : c.startsExistential collection parents key = true)
    (htarget : (c.link collection key).target? = some target) :
    c.collectionBelow collection parents key = target := by
  rw [collectionBelow, hstarts, if_pos rfl, htarget]
  rfl

theorem collectionBelow_of_joined {parents : List String} {key target : String}
    (hstarts : c.startsExistential collection parents key = false)
    (htarget : c.destination? collection (parents ++ [Text.trim key]) = some target) :
    c.collectionBelow collection parents key = target := by
  rw [collectionBelow, hstarts, if_neg Bool.false_ne_true, htarget]
  rfl

/-- At the root, the rows of a key and of what is written for it meet filters alike. -/
theorem corresponds_rows (ht : t.IsSound c) {parents : List String} {key : String}
    (quantifier : Quantifier) {f : Filter}
    (hstarts : c.startsExistential collection parents key = true)
    (hf : ∀ s ∈ f.segments, t.Allows c s)
    (hcondition : ∀ related hops hops', hops.Spelled c t related hops' →
      Corresponds Eq (c.condition? hops related [] f)
        (c.condition? hops' related [] (c.respell t related [] f))) :
    Corresponds Eq
      (some <$> c.existential collection collection (c.link collection key) quantifier f
        fun related hops => c.condition? hops related [] f)
      (some <$> c.existential collection collection
        (c.link collection (c.spelledKey t collection parents key)) quantifier
        (c.respell t (c.collectionBelow collection parents key) [] f)
        fun there hops => c.condition? hops there []
          (c.respell t (c.collectionBelow collection parents key) [] f)) := by
  rw [spelledKey, hstarts, if_pos rfl]
  exact (corresponds_existential ht collection collection key quantifier
    (fun _ => collectionBelow_of_starts hstarts) hf (hcondition _)).map fun _ _ => congrArg some

mutual
/-- The condition of a respelled filter, on the same joins, is that of the filter. -/
theorem corresponds_condition? (ht : t.IsSound c) (collection : String) {hops hops' : Hops}
    (hhops : hops.Spelled c t collection hops') (parents : List String) (f : Filter)
    (hparents : ∀ s ∈ parents, t.Allows c s) (hf : ∀ s ∈ f.segments, t.Allows c s) :
    Corresponds Eq (c.condition? hops collection parents f)
      (c.condition? hops' collection (c.spelledPath t collection parents)
        (c.respell t collection parents f)) := by
  obtain ⟨clauses⟩ := f
  rw [Filter.segments] at hf
  rw [respell, condition?, condition?]
  exact (corresponds_clauseConditions ht collection hhops parents clauses hparents hf).map
    fun _ _ => congrArg conjunction?

theorem corresponds_clauseConditions (ht : t.IsSound c) (collection : String) {hops hops' : Hops}
    (hhops : hops.Spelled c t collection hops') (parents : List String) (clauses : List Clause)
    (hparents : ∀ s ∈ parents, t.Allows c s)
    (hf : ∀ s ∈ clausesSegments clauses, t.Allows c s) :
    Corresponds Eq (c.clauseConditions hops collection parents clauses)
      (c.clauseConditions hops' collection (c.spelledPath t collection parents)
        (c.respellClauses t collection parents clauses)) := by
  cases clauses with
  | nil => exact corresponds_pure rfl
  | cons clause rest =>
    rw [clausesSegments, List.forall_mem_append] at hf
    rw [respellClauses, clauseConditions, clauseConditions]
    refine (corresponds_clauseCondition? ht collection hhops parents clause hparents hf.1).bind
      fun part _ hpart => ?_
    refine (corresponds_clauseConditions ht collection hhops parents rest hparents hf.2).bind
      fun parts _ hparts => ?_
    exact hpart ▸ hparts ▸ corresponds_pure rfl

theorem corresponds_clauseCondition? (ht : t.IsSound c) (collection : String) {hops hops' : Hops}
    (hhops : hops.Spelled c t collection hops') (parents : List String) (clause : Clause)
    (hparents : ∀ s ∈ parents, t.Allows c s) (hf : ∀ s ∈ clause.segments, t.Allows c s) :
    Corresponds Eq (c.clauseCondition? hops collection parents clause)
      (c.clauseCondition? hops' collection (c.spelledPath t collection parents)
        (c.respellClause t collection parents clause)) := by
  cases clause with
  | all filters =>
    rw [Clause.segments] at hf
    rw [respellClause, clauseCondition?, clauseCondition?]
    exact (corresponds_groupConditions ht collection hhops parents filters hparents hf).map
      fun _ _ => congrArg conjunction?
  | any filters =>
    rw [Clause.segments] at hf
    rw [respellClause, clauseCondition?, clauseCondition?, holdsAlways_respellFilters]
    split
    · exact corresponds_pure rfl
    · exact (corresponds_groupConditions ht collection hhops parents filters hparents hf).map
        fun _ _ => congrArg disjunction?
  | field key condition =>
    rw [Clause.segments] at hf
    rw [respellClause, clauseCondition?]
    exact corresponds_fieldCondition? ht collection hhops parents key condition hparents hf

theorem corresponds_groupConditions (ht : t.IsSound c) (collection : String) {hops hops' : Hops}
    (hhops : hops.Spelled c t collection hops') (parents : List String) (filters : List Filter)
    (hparents : ∀ s ∈ parents, t.Allows c s)
    (hf : ∀ s ∈ filtersSegments filters, t.Allows c s) :
    Corresponds Eq (c.groupConditions hops collection parents filters)
      (c.groupConditions hops' collection (c.spelledPath t collection parents)
        (c.respellFilters t collection parents filters)) := by
  cases filters with
  | nil => exact corresponds_pure rfl
  | cons f rest =>
    rw [filtersSegments, List.forall_mem_append] at hf
    rw [respellFilters, groupConditions, groupConditions]
    refine (corresponds_condition? ht collection hhops parents f hparents hf.1).bind
      fun part _ hpart => ?_
    refine (corresponds_groupConditions ht collection hhops parents rest hparents hf.2).bind
      fun parts _ hparts => ?_
    exact hpart ▸ hparts ▸ corresponds_pure rfl

theorem corresponds_fieldCondition? (ht : t.IsSound c) (collection : String) {hops hops' : Hops}
    (hhops : hops.Spelled c t collection hops') (parents : List String) (key : String)
    (condition : FieldCondition) (hparents : ∀ s ∈ parents, t.Allows c s)
    (hf : ∀ s ∈ Text.trim key :: condition.segments, t.Allows c s) :
    Corresponds Eq (c.fieldCondition? hops collection parents key condition)
      (c.clauseCondition? hops' collection (c.spelledPath t collection parents)
        (c.respellField t collection parents key condition)) := by
  have hpath := allows_concat hparents hf
  have hinner : ∀ s ∈ condition.segments, t.Allows c s :=
    fun s hs => hf s (List.mem_cons_of_mem _ hs)
  have hnone : ∀ s ∈ ([] : List String), t.Allows c s := fun _ hs => absurd hs List.not_mem_nil
  cases condition with
  | compare comparisons =>
    rw [respellField, clauseCondition?, fieldCondition?, fieldCondition?,
      startsExistential_spelledPath]
    split
    · exact (corresponds_throw (R := fun _ _ : Unit => False) _ _).bind fun _ _ hnone => hnone.elim
    · exact (corresponds_column hhops hparents _).bind fun column column' hcolumn =>
        corresponds_lift (corresponds_compareAll? hcolumn comparisons)
  | quantified quantifier f =>
    rw [FieldCondition.segments] at hinner
    have hcondition := fun (related : String) (hops hops' : Hops)
        (hhops : hops.Spelled c t related hops') =>
      corresponds_condition? ht related hhops [] f hnone hinner
    rw [respellField, clauseCondition?, fieldCondition?, fieldCondition?,
      startsExistential_spelledKey ht]
    cases hstarts : c.startsExistential collection parents key with
    | true =>
      rw [if_pos rfl, if_pos rfl]
      exact corresponds_rows ht quantifier hstarts hinner hcondition
    | false =>
      rw [if_neg Bool.false_ne_true, if_neg Bool.false_ne_true, spelledKey, hstarts,
        if_neg Bool.false_ne_true, trim_hopKey ht]
      refine (corresponds_lift (corresponds_quantifiedLink ht hhops hparents (Text.trim key))).bind
        ?_
      rintro ⟨hop, link⟩ ⟨hop', link'⟩ ⟨hsame, hhop, hlink, hlink'⟩
      dsimp only at hsame hhop hlink hlink' ⊢
      rw [hsame, hlink, hlink']
      refine (corresponds_existential ht hop.collection hop.name (Text.trim key) quantifier
        (fun target htarget => collectionBelow_of_joined hstarts ?_) hinner (hcondition _)).map
        fun _ _ => congrArg some
      rw [destination?_concat, hhop, Option.bind_some]
      exact htarget
  | nested f =>
    rw [FieldCondition.segments] at hinner
    rw [respellField, clauseCondition?, fieldCondition?, fieldCondition?,
      startsExistential_spelledKey ht]
    cases hstarts : c.startsExistential collection parents key with
    | true =>
      rw [if_pos rfl, if_pos rfl, if_pos rfl]
      exact corresponds_rows ht .some hstarts hinner fun related hops hops' hhops =>
        corresponds_condition? ht related hhops [] f hnone hinner
    | false =>
      rw [if_neg Bool.false_ne_true, if_neg Bool.false_ne_true, if_neg Bool.false_ne_true,
        spelledPath_concat_key ht hstarts]
      exact corresponds_condition? ht collection hhops _ f hpath hinner
end

/-- A filter restricts statements alike as one that is its respelled form. -/
theorem corresponds_restrict (ht : t.IsSound c) {f f' : Filter} {scope scope' : Scope}
    (hf : ∀ s ∈ f.unfolded.segments, t.Allows c s)
    (hspelled : f'.unfolded = c.respell t collection [] f.unfolded)
    (hscope : scope.Spelled c t collection scope') :
    Corresponds (fun joined joined' => joined.1.Spelled c t collection joined'.1 ∧
        joined'.2 = joined.2)
      (c.restrict inner collection scope f) (c.restrict inner collection scope' f') := by
  rw [restrict_eq, restrict_eq, hspelled]
  exact corresponds_restricted (corresponds_joinFilter ht f.unfolded hf hscope)
    fun hops hops' hhops => corresponds_condition? ht collection hhops [] f.unfolded
      (fun _ hs => absurd hs List.not_mem_nil) hf

end Context

end JsonSql
