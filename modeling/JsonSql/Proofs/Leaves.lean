import JsonSql.Proofs.Columns
import JsonSql.Proofs.Joins
import JsonSql.Proofs.Paths

set_option autoImplicit false

/-!
# Leaves of filters

What a filter asks in the end: comparisons of fields, and filters about related rows.  Groups only
combine leaves, so the condition of a filter is put together from the conditions of its leaves, in
their order (`leavesGive_condition?`).  What holds of the conditions of single leaves holds of a
whole filter by a look at this list, without another induction over filters.
-/

namespace JsonSql

open JsonSql.Sql

/-! ## Predicates of conditions -/

/-- The predicates that a condition combines, from left to right. -/
def Sql.Expr.predicates : Expr → List Expr
  | .binary .and left right | .binary .or left right => left.predicates ++ right.predicates
  | .paren inner => inner.predicates
  | e => [e]

@[simp] theorem predicates_both (left right : Expr) :
    (Expr.both left right).predicates = left.predicates ++ right.predicates := by
  rw [Expr.both, Expr.predicates]

@[simp] theorem predicates_either (left right : Expr) :
    (Expr.either left right).predicates = left.predicates ++ right.predicates := by
  rw [Expr.either, Expr.predicates]

@[simp] theorem predicates_paren (inner : Expr) :
    (Expr.paren inner).predicates = inner.predicates := by
  rw [Expr.predicates]

@[simp] theorem predicates_guarded (e : Expr) : e.guarded.predicates = e.predicates := by
  unfold Expr.guarded
  split
  · exact predicates_paren e
  · rfl

@[simp] theorem predicates_inQuery (subject : Expr) (q : Query) (negated : Bool) :
    (Expr.inQuery subject q negated).predicates = [.inQuery subject q negated] := by
  rw [Expr.predicates] <;> intros <;> contradiction

/-- A predicate on a column combines nothing. -/
theorem IsPredicate.predicates {column e : Expr} (h : IsPredicate column e) :
    e.predicates = [e] := by
  cases h with
  | null negated | oneOf values negated | between low high negated => rfl
  | @compare op value hop | @compareLower op value hop => cases op <;> first | rfl | cases hop
  | @intersects d geojson boxes negated e he =>
    cases negated with
    | true => rfl
    | false => cases d <;> cases boxes <;> cases he <;> rfl

/-- The predicates of conditions in conjunction are those of its parts. -/
theorem predicates_conjunction? (parts : List Expr) :
    (conjunction? parts).toList.flatMap Expr.predicates = parts.flatMap Expr.predicates := by
  cases parts with
  | nil => rfl
  | cons part rest =>
    rw [conjunction?, Option.toList_some, List.flatMap_singleton]
    induction rest generalizing part with
    | nil => simp
    | cons next rest ih =>
      rw [List.foldl_cons, ih]
      simp

/-- The predicates of alternative conditions are those of its parts. -/
theorem predicates_disjunction? (parts : List Expr) :
    (disjunction? parts).toList.flatMap Expr.predicates = parts.flatMap Expr.predicates := by
  cases parts with
  | nil => rfl
  | cons part rest =>
    rw [disjunction?, Option.toList_some, List.flatMap_singleton]
    induction rest generalizing part with
    | nil => simp
    | cons next rest ih =>
      rw [List.foldl_cons, ih]
      simp

/-- Each predicate of the comparisons of a column comes from one of them. -/
theorem Context.mem_predicates_of_compareAll? {c : Context} {column : Column}
    {comparisons : List Comparison} {e? : Option Expr} {p : Expr}
    (h : c.compareAll? column comparisons = .ok e?) (hp : p ∈ e?.toList.flatMap Expr.predicates) :
    ∃ comparison ∈ comparisons, c.compare? column comparison = .ok (some p) := by
  rw [compareAll?, Except.bind_eq_ok_iff] at h
  obtain ⟨parts, hparts, h⟩ := h
  cases h
  rw [predicates_conjunction?] at hp
  obtain ⟨part, hpart, hp⟩ := List.mem_flatMap.mp hp
  rw [List.reduceOption_mem_iff] at hpart
  obtain ⟨comparison, hmem, hcomparison⟩ := Except.mem_of_mapM_eq_ok hparts _ hpart
  obtain ⟨values, hpredicate⟩ := compare?_eq_ok_some hcomparison
  rw [(isPredicate_of_predicate? hpredicate).predicates, List.mem_singleton] at hp
  rw [hp]
  exact ⟨comparison, hmem, hcomparison⟩

/-- The comparisons of a column are predicates on it. -/
theorem Context.predicates_of_compareAll? {c : Context} {column : Column}
    {comparisons : List Comparison} {e? : Option Expr}
    (h : c.compareAll? column comparisons = .ok e?) :
    ∀ p ∈ e?.toList.flatMap Expr.predicates, IsPredicate column.expr p := by
  intro p hp
  obtain ⟨comparison, -, hcomparison⟩ := mem_predicates_of_compareAll? h hp
  obtain ⟨values, hpredicate⟩ := compare?_eq_ok_some hcomparison
  exact isPredicate_of_predicate? hpredicate

/-- One more condition of a statement adds its predicates. -/
theorem predicates_addCondition (q : Query) (e : Expr) :
    (q.addCondition e).condition.toList.flatMap Expr.predicates =
      q.condition.toList.flatMap Expr.predicates ++ e.predicates := by
  cases hold : q.condition with
  | none => simp [Query.addCondition, hold]
  | some old => simp [Query.addCondition, hold]

/-- A field is searched by a predicate on its column, unless it is concealed. -/
theorem isPredicate_of_searchPredicate? {collection term : String} {f : Field} {e : Expr}
    (h : searchPredicate? collection term f = some e) :
    f.isConcealed = false ∧ IsPredicate (.of collection f.name) e := by
  unfold searchPredicate? at h
  dsimp only at h
  split at h
  · cases h
  · next hshown =>
    rw [Bool.or_eq_true, not_or] at hshown
    refine ⟨Bool.eq_false_iff.mpr hshown.2, ?_⟩
    split at h
    · cases h
      exact .compareLower _ rfl
    · obtain ⟨value, -, rfl⟩ := Option.map_eq_some_iff.mp h
      exact .compare value rfl

/-- A search asks of fields that are not concealed, or of nothing. -/
theorem predicates_searchCondition {collection term : String} {fields : List Field} {e : Expr}
    (h : e ∈ (searchCondition collection term fields).predicates) :
    e = .equals (.int 1) (.int 0) ∨ ∃ f ∈ fields, f.isConcealed = false ∧
      IsPredicate (.of collection f.name) e := by
  have hparts := predicates_disjunction? (fields.filterMap (searchPredicate? collection term))
  unfold searchCondition at h
  cases hfound : disjunction? (fields.filterMap (searchPredicate? collection term)) with
  | none =>
    rw [hfound] at h
    exact .inl (List.mem_singleton.mp h)
  | some found =>
    rw [hfound, Option.toList_some, List.flatMap_singleton] at hparts
    rw [hfound, Option.getD_some, hparts] at h
    obtain ⟨part, hpart, hmem⟩ := List.mem_flatMap.mp h
    obtain ⟨f, hf, hsearch⟩ := List.mem_filterMap.mp hpart
    obtain ⟨hshown, hpredicate⟩ := isPredicate_of_searchPredicate? hsearch
    rw [hpredicate.predicates, List.mem_singleton] at hmem
    exact .inr ⟨f, hf, hshown, hmem ▸ hpredicate⟩

/-! ## Leaves -/

/-- What a filter asks in the end, of the key of a field under a path of parents. -/
inductive Leaf where
  /-- every comparison holds -/
  | compared (parents : List String) (key : String) (comparisons : List Comparison)
  /-- so many of the related rows meet a filter -/
  | related (parents : List String) (key : String) (quantifier : Quantifier) (filter : Filter)

/-- The keys of a leaf are segments. -/
def Leaf.IsUnfolded : Leaf → Prop
  | compared parents key _ => IsPath parents ∧ IsSegment key
  | related parents key _ f => IsPath parents ∧ IsSegment key ∧ f.IsUnfolded

namespace Context

variable {c : Context} {collection : String} {hops : Hops}

mutual
/-- The leaves of a filter under a path of parents. -/
def leaves (c : Context) (collection : String) (parents : List String) : Filter → List Leaf
  | ⟨clauses⟩ => c.clausesLeaves collection parents clauses

/-- The leaves of clauses. -/
def clausesLeaves (c : Context) (collection : String) (parents : List String) :
    List Clause → List Leaf
  | [] => []
  | clause :: rest =>
    c.clauseLeaves collection parents clause ++ c.clausesLeaves collection parents rest

/-- The leaves of a clause; those of a group that restricts nothing do not count. -/
def clauseLeaves (c : Context) (collection : String) (parents : List String) :
    Clause → List Leaf
  | .all filters => c.filtersLeaves collection parents filters
  | .any filters =>
    if holdsAlways filters then [] else c.filtersLeaves collection parents filters
  | .field key condition => c.conditionLeaves collection parents key condition

/-- The leaves of filters. -/
def filtersLeaves (c : Context) (collection : String) (parents : List String) :
    List Filter → List Leaf
  | [] => []
  | f :: rest => c.leaves collection parents f ++ c.filtersLeaves collection parents rest

/-- The leaves of what is asked of a field. -/
def conditionLeaves (c : Context) (collection : String) (parents : List String) (key : String) :
    FieldCondition → List Leaf
  | .compare comparisons => [.compared parents key comparisons]
  | .nested f =>
    if c.startsExistential collection parents key then [.related parents key .some f]
    else c.leaves collection (parents ++ [Text.trim key]) f
  | .quantified quantifier f => [.related parents key quantifier f]
end

/-! ## Paths of leaves -/

/-- The paths that are joined for a leaf: its own, unless its condition is about rows that refer back
to the root. -/
def leafPaths (c : Context) (collection : String) : Leaf → List (List String)
  | .compared parents key _ | .related parents key _ _ =>
    if c.startsExistential collection parents key then [] else [parents ++ [Text.trim key]]

mutual
/-- The paths of a filter are those of its leaves. -/
theorem filterPaths_eq (parents : List String) (f : Filter) :
    c.filterPaths collection parents f =
      (c.leaves collection parents f).flatMap (c.leafPaths collection) := by
  obtain ⟨clauses⟩ := f
  rw [filterPaths, leaves]
  exact clausesPaths_eq parents clauses

theorem clausesPaths_eq (parents : List String) (clauses : List Clause) :
    c.clausesPaths collection parents clauses =
      (c.clausesLeaves collection parents clauses).flatMap (c.leafPaths collection) := by
  cases clauses with
  | nil => rw [clausesPaths, clausesLeaves, List.flatMap_nil]
  | cons clause rest =>
    rw [clausesPaths, clausesLeaves, List.flatMap_append, clausePaths_eq parents clause,
      clausesPaths_eq parents rest]

theorem clausePaths_eq (parents : List String) (clause : Clause) :
    c.clausePaths collection parents clause =
      (c.clauseLeaves collection parents clause).flatMap (c.leafPaths collection) := by
  cases clause with
  | all filters => rw [clausePaths, clauseLeaves, filtersPaths_eq parents filters]
  | any filters =>
    rw [clausePaths, clauseLeaves]
    split
    · rfl
    · exact filtersPaths_eq parents filters
  | field key condition =>
    rw [clausePaths, clauseLeaves]
    exact conditionPaths_eq parents key condition

theorem filtersPaths_eq (parents : List String) (filters : List Filter) :
    c.filtersPaths collection parents filters =
      (c.filtersLeaves collection parents filters).flatMap (c.leafPaths collection) := by
  cases filters with
  | nil => rw [filtersPaths, filtersLeaves, List.flatMap_nil]
  | cons f rest =>
    rw [filtersPaths, filtersLeaves, List.flatMap_append, filterPaths_eq parents f,
      filtersPaths_eq parents rest]

theorem conditionPaths_eq (parents : List String) (key : String) (condition : FieldCondition) :
    (if c.startsExistential collection parents key then []
      else c.conditionPaths collection (parents ++ [Text.trim key]) condition) =
      (c.conditionLeaves collection parents key condition).flatMap (c.leafPaths collection) := by
  cases condition with
  | compare comparisons | quantified quantifier f =>
    rw [conditionLeaves, List.flatMap_singleton, leafPaths, conditionPaths]
  | nested f =>
    rw [conditionLeaves, conditionPaths]
    split
    · next hstart => rw [List.flatMap_singleton, leafPaths, if_pos hstart]
    · exact filterPaths_eq _ f
end

/-- The condition of a leaf, on joins that are there already. -/
def leafCondition? (c : Context) (hops : Hops) (collection : String) :
    Leaf → Compile (Option Expr)
  | .compared parents key comparisons =>
    c.fieldCondition? hops collection parents key (.compare comparisons)
  | .related parents key quantifier f =>
    c.fieldCondition? hops collection parents key (.quantified quantifier f)

/-- The comparisons of a field are those of its column. -/
theorem compared_gives {parents : List String} {key : String} {comparisons : List Comparison}
    {e? : Option Expr} {k k' : Nat}
    (h : (c.fieldCondition? hops collection parents key (.compare comparisons)).Gives k e? k') :
    ∃ column, (c.column hops collection (parents ++ [Text.trim key])).Gives k column k' ∧
      c.compareAll? column comparisons = .ok e? := by
  rw [fieldCondition?] at h
  split at h
  · simp at h
  · simp only [Compile.gives_bind, Compile.gives_lift] at h
    obtain ⟨column, k₁, hcolumn, hall, rfl⟩ := h
    exact ⟨column, hcolumn, hall⟩

/-! ## Conditions of leaves -/

/-- The conditions of leaves, built one after another, combine these predicates. -/
def LeavesGive (c : Context) (hops : Hops) (collection : String) (leaves : List Leaf) (k : Nat)
    (predicates : List Expr) (k' : Nat) : Prop :=
  ∃ parts, (leaves.mapM (c.leafCondition? hops collection)).Gives k parts k' ∧
    predicates = parts.reduceOption.flatMap Expr.predicates

theorem leavesGive_nil (k : Nat) : c.LeavesGive hops collection [] k [] k := by
  refine ⟨[], ?_, rfl⟩
  rw [List.mapM_nil, Compile.gives_pure]
  exact ⟨rfl, rfl⟩

theorem leavesGive_singleton {leaf : Leaf} {e? : Option Expr} {k k' : Nat}
    (h : (c.leafCondition? hops collection leaf).Gives k e? k') :
    c.LeavesGive hops collection [leaf] k (e?.toList.flatMap Expr.predicates) k' := by
  refine ⟨[e?], ?_, ?_⟩
  · rw [List.mapM_cons]
    simp only [Compile.gives_bind, List.mapM_nil, Compile.gives_pure]
    exact ⟨e?, k', h, [], k', ⟨rfl, rfl⟩, rfl, rfl⟩
  · cases e? <;> rfl

theorem LeavesGive.append {first second : List Leaf} {left right : List Expr} {k k₁ k' : Nat}
    (hfirst : c.LeavesGive hops collection first k left k₁)
    (hsecond : c.LeavesGive hops collection second k₁ right k') :
    c.LeavesGive hops collection (first ++ second) k (left ++ right) k' := by
  obtain ⟨parts, hparts, rfl⟩ := hfirst
  obtain ⟨others, hothers, rfl⟩ := hsecond
  refine ⟨parts ++ others, ?_, ?_⟩
  · rw [List.mapM_append]
    simp only [Compile.gives_bind, Compile.gives_pure]
    exact ⟨parts, k₁, hparts, others, k', hothers, rfl, rfl⟩
  · rw [List.reduceOption_append, List.flatMap_append]

/-- The conditions of the first leaf and of the others. -/
theorem LeavesGive.cons_gives {leaf : Leaf} {rest : List Leaf} {predicates : List Expr}
    {k k' : Nat} (h : c.LeavesGive hops collection (leaf :: rest) k predicates k') :
    ∃ e? k₁ others, (c.leafCondition? hops collection leaf).Gives k e? k₁ ∧
      c.LeavesGive hops collection rest k₁ others k' ∧
      predicates = e?.toList.flatMap Expr.predicates ++ others := by
  obtain ⟨parts, hparts, rfl⟩ := h
  rw [List.mapM_cons] at hparts
  simp only [Compile.gives_bind, Compile.gives_pure] at hparts
  obtain ⟨e?, k₁, hfirst, others, k₂, hrest, rfl, rfl⟩ := hparts
  refine ⟨e?, k₁, others.reduceOption.flatMap Expr.predicates, hfirst, ⟨others, hrest, rfl⟩, ?_⟩
  cases e? with
  | none => rfl
  | some e => simp [List.reduceOption_cons_of_some]

mutual
/-- The condition of a filter combines the predicates of its leaves. -/
theorem leavesGive_condition? (parents : List String) (f : Filter) {e? : Option Expr}
    {k k' : Nat} (h : (c.condition? hops collection parents f).Gives k e? k') :
    c.LeavesGive hops collection (c.leaves collection parents f) k
      (e?.toList.flatMap Expr.predicates) k' := by
  obtain ⟨clauses⟩ := f
  rw [condition?, Compile.gives_map] at h
  obtain ⟨parts, hparts, rfl⟩ := h
  rw [leaves, predicates_conjunction?]
  exact leavesGive_clauseConditions parents clauses hparts

theorem leavesGive_clauseConditions (parents : List String) (clauses : List Clause)
    {parts : List Expr} {k k' : Nat}
    (h : (c.clauseConditions hops collection parents clauses).Gives k parts k') :
    c.LeavesGive hops collection (c.clausesLeaves collection parents clauses) k
      (parts.flatMap Expr.predicates) k' := by
  cases clauses with
  | nil =>
    rw [clauseConditions, Compile.gives_pure] at h
    obtain ⟨rfl, rfl⟩ := h
    rw [clausesLeaves]
    exact leavesGive_nil k'
  | cons clause rest =>
    simp only [clauseConditions, Compile.gives_bind, Compile.gives_pure] at h
    obtain ⟨part, k₁, hpart, parts₁, k₂, hrest, rfl, rfl⟩ := h
    rw [clausesLeaves, List.flatMap_append]
    exact (leavesGive_clauseCondition? parents clause hpart).append
      (leavesGive_clauseConditions parents rest hrest)

theorem leavesGive_clauseCondition? (parents : List String) (clause : Clause)
    {e? : Option Expr} {k k' : Nat}
    (h : (c.clauseCondition? hops collection parents clause).Gives k e? k') :
    c.LeavesGive hops collection (c.clauseLeaves collection parents clause) k
      (e?.toList.flatMap Expr.predicates) k' := by
  cases clause with
  | all filters =>
    rw [clauseCondition?, Compile.gives_map] at h
    obtain ⟨parts, hparts, rfl⟩ := h
    rw [clauseLeaves, predicates_conjunction?]
    exact leavesGive_groupConditions parents filters hparts
  | any filters =>
    rw [clauseCondition?] at h
    rw [clauseLeaves]
    split at h
    · next hempty =>
      obtain ⟨rfl, rfl⟩ := Compile.gives_pure.mp h
      rw [if_pos hempty]
      exact leavesGive_nil k'
    · next hrestricts =>
      rw [Compile.gives_map] at h
      obtain ⟨parts, hparts, rfl⟩ := h
      rw [if_neg hrestricts, predicates_disjunction?]
      exact leavesGive_groupConditions parents filters hparts
  | field key condition =>
    rw [clauseCondition?] at h
    rw [clauseLeaves]
    exact leavesGive_fieldCondition? parents key condition h

theorem leavesGive_groupConditions (parents : List String) (filters : List Filter)
    {parts : List Expr} {k k' : Nat}
    (h : (c.groupConditions hops collection parents filters).Gives k parts k') :
    c.LeavesGive hops collection (c.filtersLeaves collection parents filters) k
      (parts.flatMap Expr.predicates) k' := by
  cases filters with
  | nil =>
    rw [groupConditions, Compile.gives_pure] at h
    obtain ⟨rfl, rfl⟩ := h
    rw [filtersLeaves]
    exact leavesGive_nil k'
  | cons f rest =>
    simp only [groupConditions, Compile.gives_bind, Compile.gives_pure] at h
    obtain ⟨part, k₁, hpart, parts₁, k₂, hrest, rfl, rfl⟩ := h
    have hfirst : (part.map Expr.paren).toList.flatMap Expr.predicates =
        part.toList.flatMap Expr.predicates := by
      cases part <;> simp
    rw [filtersLeaves, List.flatMap_append, hfirst]
    exact (leavesGive_condition? parents f hpart).append
      (leavesGive_groupConditions parents rest hrest)

theorem leavesGive_fieldCondition? (parents : List String) (key : String)
    (condition : FieldCondition) {e? : Option Expr} {k k' : Nat}
    (h : (c.fieldCondition? hops collection parents key condition).Gives k e? k') :
    c.LeavesGive hops collection (c.conditionLeaves collection parents key condition) k
      (e?.toList.flatMap Expr.predicates) k' := by
  cases condition with
  | compare comparisons =>
    rw [conditionLeaves]
    exact leavesGive_singleton h
  | nested f =>
    rw [conditionLeaves]
    rw [fieldCondition?] at h
    split at h
    · next hstart =>
      rw [if_pos hstart]
      refine leavesGive_singleton ?_
      rw [leafCondition?, fieldCondition?, if_pos hstart]
      exact h
    · next hstart =>
      rw [if_neg hstart]
      exact leavesGive_condition? _ f h
  | quantified quantifier f =>
    rw [conditionLeaves]
    exact leavesGive_singleton h
end

/-! ## Filters in leaves -/

mutual
/-- The filter of a leaf about related rows is smaller than the one that it is a leaf of. -/
theorem sizeOf_lt_of_mem_leaves {parents above : List String} {key : String}
    {quantifier : Quantifier} {g : Filter} (f : Filter)
    (h : .related parents key quantifier g ∈ c.leaves collection above f) :
    sizeOf g < sizeOf f := by
  obtain ⟨clauses⟩ := f
  rw [leaves] at h
  have hless := sizeOf_lt_of_mem_clausesLeaves clauses h
  simp only [Filter.mk.sizeOf_spec]
  omega

theorem sizeOf_lt_of_mem_clausesLeaves {parents above : List String} {key : String}
    {quantifier : Quantifier} {g : Filter} (clauses : List Clause)
    (h : .related parents key quantifier g ∈ c.clausesLeaves collection above clauses) :
    sizeOf g < sizeOf clauses := by
  cases clauses with
  | nil =>
    rw [clausesLeaves] at h
    cases h
  | cons clause rest =>
    rw [clausesLeaves] at h
    simp only [List.cons.sizeOf_spec]
    rcases List.mem_append.mp h with h | h
    · have hless := sizeOf_lt_of_mem_clauseLeaves clause h
      omega
    · have hless := sizeOf_lt_of_mem_clausesLeaves rest h
      omega

theorem sizeOf_lt_of_mem_clauseLeaves {parents above : List String} {key : String}
    {quantifier : Quantifier} {g : Filter} (clause : Clause)
    (h : .related parents key quantifier g ∈ c.clauseLeaves collection above clause) :
    sizeOf g < sizeOf clause := by
  cases clause with
  | all filters =>
    rw [clauseLeaves] at h
    have hless := sizeOf_lt_of_mem_filtersLeaves filters h
    simp only [Clause.all.sizeOf_spec]
    omega
  | any filters =>
    rw [clauseLeaves] at h
    split at h
    · cases h
    · have hless := sizeOf_lt_of_mem_filtersLeaves filters h
      simp only [Clause.any.sizeOf_spec]
      omega
  | field key condition =>
    rw [clauseLeaves] at h
    have hless := sizeOf_lt_of_mem_conditionLeaves condition h
    simp only [Clause.field.sizeOf_spec]
    omega

theorem sizeOf_lt_of_mem_filtersLeaves {parents above : List String} {key : String}
    {quantifier : Quantifier} {g : Filter} (filters : List Filter)
    (h : .related parents key quantifier g ∈ c.filtersLeaves collection above filters) :
    sizeOf g < sizeOf filters := by
  cases filters with
  | nil =>
    rw [filtersLeaves] at h
    cases h
  | cons f rest =>
    rw [filtersLeaves] at h
    simp only [List.cons.sizeOf_spec]
    rcases List.mem_append.mp h with h | h
    · have hless := sizeOf_lt_of_mem_leaves f h
      omega
    · have hless := sizeOf_lt_of_mem_filtersLeaves rest h
      omega

theorem sizeOf_lt_of_mem_conditionLeaves {parents above : List String} {key field : String}
    {quantifier : Quantifier} {g : Filter} (condition : FieldCondition)
    (h : .related parents key quantifier g ∈ c.conditionLeaves collection above field condition) :
    sizeOf g < sizeOf condition := by
  cases condition with
  | compare comparisons =>
    rw [conditionLeaves, List.mem_singleton] at h
    cases h
  | nested f =>
    rw [conditionLeaves] at h
    simp only [FieldCondition.nested.sizeOf_spec]
    split at h
    · rw [List.mem_singleton] at h
      cases h
      omega
    · have hless := sizeOf_lt_of_mem_leaves f h
      omega
  | quantified other f =>
    rw [conditionLeaves, List.mem_singleton] at h
    cases h
    simp only [FieldCondition.quantified.sizeOf_spec]
    omega
end

/-! ## Leaves of unfolded filters -/

mutual
/-- The leaves of an unfolded filter are unfolded. -/
theorem isUnfolded_of_mem_leaves {parents : List String} (f : Filter) (hparents : IsPath parents)
    (hf : f.IsUnfolded) : ∀ leaf ∈ c.leaves collection parents f, leaf.IsUnfolded := by
  obtain ⟨clauses⟩ := f
  rw [Filter.IsUnfolded] at hf
  rw [leaves]
  exact isUnfolded_of_mem_clausesLeaves clauses hparents hf

theorem isUnfolded_of_mem_clausesLeaves {parents : List String} (clauses : List Clause)
    (hparents : IsPath parents) (hclauses : AreUnfoldedClauses clauses) :
    ∀ leaf ∈ c.clausesLeaves collection parents clauses, leaf.IsUnfolded := by
  intro leaf h
  cases clauses with
  | nil =>
    rw [clausesLeaves] at h
    cases h
  | cons clause rest =>
    rw [AreUnfoldedClauses] at hclauses
    rw [clausesLeaves] at h
    rcases List.mem_append.mp h with h | h
    · exact isUnfolded_of_mem_clauseLeaves clause hparents hclauses.1 leaf h
    · exact isUnfolded_of_mem_clausesLeaves rest hparents hclauses.2 leaf h

theorem isUnfolded_of_mem_clauseLeaves {parents : List String} (clause : Clause)
    (hparents : IsPath parents) (hclause : clause.IsUnfolded) :
    ∀ leaf ∈ c.clauseLeaves collection parents clause, leaf.IsUnfolded := by
  cases clause with
  | all filters =>
    rw [Clause.IsUnfolded] at hclause
    rw [clauseLeaves]
    exact isUnfolded_of_mem_filtersLeaves filters hparents hclause
  | any filters =>
    rw [Clause.IsUnfolded] at hclause
    rw [clauseLeaves]
    split
    · intro leaf h
      cases h
    · exact isUnfolded_of_mem_filtersLeaves filters hparents hclause
  | field key condition =>
    rw [Clause.IsUnfolded] at hclause
    rw [clauseLeaves]
    exact isUnfolded_of_mem_conditionLeaves condition hparents hclause.1 hclause.2

theorem isUnfolded_of_mem_filtersLeaves {parents : List String} (filters : List Filter)
    (hparents : IsPath parents) (hfilters : AreUnfolded filters) :
    ∀ leaf ∈ c.filtersLeaves collection parents filters, leaf.IsUnfolded := by
  intro leaf h
  cases filters with
  | nil =>
    rw [filtersLeaves] at h
    cases h
  | cons f rest =>
    rw [AreUnfolded] at hfilters
    rw [filtersLeaves] at h
    rcases List.mem_append.mp h with h | h
    · exact isUnfolded_of_mem_leaves f hparents hfilters.1 leaf h
    · exact isUnfolded_of_mem_filtersLeaves rest hparents hfilters.2 leaf h

theorem isUnfolded_of_mem_conditionLeaves {parents : List String} {key : String}
    (condition : FieldCondition) (hparents : IsPath parents) (hkey : IsSegment key)
    (hcondition : condition.IsUnfolded) :
    ∀ leaf ∈ c.conditionLeaves collection parents key condition, leaf.IsUnfolded := by
  cases condition with
  | compare comparisons =>
    intro leaf h
    rw [conditionLeaves, List.mem_singleton] at h
    rw [h]
    exact ⟨hparents, hkey⟩
  | nested f =>
    rw [FieldCondition.IsUnfolded] at hcondition
    rw [conditionLeaves]
    split
    · intro leaf h
      rw [List.mem_singleton.mp h]
      exact ⟨hparents, hkey, hcondition⟩
    · exact isUnfolded_of_mem_leaves f (hparents.append hkey.trim) hcondition
  | quantified quantifier f =>
    intro leaf h
    rw [FieldCondition.IsUnfolded] at hcondition
    rw [conditionLeaves, List.mem_singleton] at h
    rw [h]
    exact ⟨hparents, hkey, hcondition⟩
end

/-- The paths of an unfolded filter are paths of segments. -/
theorem isPath_of_mem_filterPaths {parents : List String} {f : Filter} (hparents : IsPath parents)
    (hf : f.IsUnfolded) : ∀ path ∈ c.filterPaths collection parents f, IsPath path := by
  intro path h
  rw [filterPaths_eq, List.mem_flatMap] at h
  obtain ⟨leaf, hleaf, hpath⟩ := h
  have hunfolded := isUnfolded_of_mem_leaves f hparents hf leaf hleaf
  have hown {above : List String} {key : String} (habove : IsPath above) (hkey : IsSegment key)
      (hpath : path ∈ if c.startsExistential collection above key then []
        else [above ++ [Text.trim key]]) : IsPath path := by
    split at hpath
    · cases hpath
    · rw [List.mem_singleton.mp hpath]
      exact habove.append hkey.trim
  cases leaf with
  | compared above key comparisons => exact hown hunfolded.1 hunfolded.2 hpath
  | related above key quantifier g => exact hown hunfolded.1 hunfolded.2.1 hpath

end Context

end JsonSql
