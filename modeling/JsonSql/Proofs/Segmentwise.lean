import JsonSql.Proofs.Paths
import JsonSql.Statement.Condition

set_option autoImplicit false

/-!
# Filters segment by segment

The passes over a filter read a dotted key as one path.  Here they take each key for one segment,
so that a path of the statement is read off the nesting of a filter; unfolding turns dotted keys
into nested filters.  A filter is compiled to what its unfolded form is compiled to here
(`restrict_eq`), and the proofs about conditions go by the nesting.
-/

namespace JsonSql

open JsonSql.Sql

theorem Clause.along_cons {segment : String} {rest : List String} {condition : FieldCondition}
    (h : rest ≠ []) : Clause.along (segment :: rest) condition =
      .field (Text.trim segment) (.nested (.of (Clause.along rest condition))) := by
  cases rest with
  | nil => exact absurd rfl h
  | cons next more => rfl

namespace Context

/-! ## Joins -/

mutual
/-- Joins along every path of a filter under a path of parents.  The result tells whether a link to
several rows was joined. -/
def joinFilter (c : Context) (inner : Bool) (collection : String) (parents : List String)
    (scope : Scope) : Filter → Compile (Scope × Bool)
  | ⟨clauses⟩ => c.joinClauses inner collection parents scope clauses

/-- Joins along every path of clauses. -/
def joinClauses (c : Context) (inner : Bool) (collection : String) (parents : List String)
    (scope : Scope) : List Clause → Compile (Scope × Bool)
  | [] => return (scope, false)
  | clause :: rest => do
    let (scope, several) ← c.joinClause inner collection parents scope clause
    let (scope, more) ← c.joinClauses inner collection parents scope rest
    return (scope, several || more)

/-- Joins along every path of a clause. -/
def joinClause (c : Context) (inner : Bool) (collection : String) (parents : List String)
    (scope : Scope) : Clause → Compile (Scope × Bool)
  | .all filters => c.joinFilters inner collection parents scope filters
  | .any filters =>
    if holdsAlways filters then return (scope, false)
    else c.joinFilters inner collection parents scope filters
  | .field key condition =>
    if c.startsExistential collection parents key then return (scope, false)
    else c.joinCondition inner collection (parents ++ [Text.trim key]) scope condition

/-- Joins along every path of filters. -/
def joinFilters (c : Context) (inner : Bool) (collection : String) (parents : List String)
    (scope : Scope) : List Filter → Compile (Scope × Bool)
  | [] => return (scope, false)
  | f :: rest => do
    let (scope, several) ← c.joinFilter inner collection parents scope f
    let (scope, more) ← c.joinFilters inner collection parents scope rest
    return (scope, several || more)

/-- Joins along the path of a field and what is asked of it. -/
def joinCondition (c : Context) (inner : Bool) (collection : String) (path : List String)
    (scope : Scope) : FieldCondition → Compile (Scope × Bool)
  | .nested f => c.joinFilter inner collection path scope f
  | .compare _ | .quantified _ _ => c.joinPath inner collection scope path
end

/-! ## Existential conditions -/

/-- The statement with the joins and the condition of a filter.  `condition` builds the condition
of the filter on joins that are there already. -/
def addFilter (c : Context) (inner : Bool) (collection : String) (scope : Scope) (f : Filter)
    (condition : Hops → Compile (Option Expr)) : Compile (Scope × Bool) :=
  restricted (c.joinFilter inner collection [] scope f) condition

/-- Some or none of the related rows meet a filter.  `condition` builds the condition of the filter
on a collection and joins that are there already. -/
def existential (c : Context) (collection table : String) (link : Link)
    (quantifier : Quantifier) (f : Filter)
    (condition : String → Hops → Compile (Option Expr)) : Compile Expr :=
  c.amongKeys collection table link quantifier fun related scope =>
    c.addFilter true related scope f (condition related)

/-! ## Conditions -/

mutual
/-- The condition of a filter under a path of parents, if it restricts anything. -/
def condition? (c : Context) (hops : Hops) (collection : String) (parents : List String) :
    Filter → Compile (Option Expr)
  | ⟨clauses⟩ => conjunction? <$> c.clauseConditions hops collection parents clauses

/-- The conditions of clauses that restrict anything. -/
def clauseConditions (c : Context) (hops : Hops) (collection : String) (parents : List String) :
    List Clause → Compile (List Expr)
  | [] => return []
  | clause :: rest => do
    let part ← c.clauseCondition? hops collection parents clause
    let parts ← c.clauseConditions hops collection parents rest
    return part.toList ++ parts

/-- The condition of a clause. -/
def clauseCondition? (c : Context) (hops : Hops) (collection : String)
    (parents : List String) : Clause → Compile (Option Expr)
  | .all filters => conjunction? <$> c.groupConditions hops collection parents filters
  | .any filters =>
    if holdsAlways filters then return none
    else disjunction? <$> c.groupConditions hops collection parents filters
  | .field key condition => c.fieldCondition? hops collection parents key condition

/-- The conditions of the filters of a group, each in parentheses. -/
def groupConditions (c : Context) (hops : Hops) (collection : String) (parents : List String) :
    List Filter → Compile (List Expr)
  | [] => return []
  | f :: rest => do
    let part ← c.condition? hops collection parents f
    let parts ← c.groupConditions hops collection parents rest
    return (part.map Expr.paren).toList ++ parts

/-- The condition of a field. -/
def fieldCondition? (c : Context) (hops : Hops) (collection : String) (parents : List String)
    (key : String) : FieldCondition → Compile (Option Expr)
  | .compare comparisons => do
    if c.startsExistential collection parents key then throw (.query (.comparesRows key))
    let column ← c.column hops collection (parents ++ [Text.trim key])
    c.compareAll? column comparisons
  | .nested f =>
    if c.startsExistential collection parents key then
      some <$> c.existential collection collection (c.link collection key) .some f
        fun related hops => c.condition? hops related [] f
    else c.condition? hops collection (parents ++ [Text.trim key]) f
  | .quantified quantifier f =>
    if c.startsExistential collection parents key then
      some <$> c.existential collection collection (c.link collection key) quantifier f
        fun related hops => c.condition? hops related [] f
    else do
      let (hop, link) ← c.quantifiedLink hops parents (Text.trim key)
      some <$> c.existential hop.collection hop.name link quantifier f
        fun related hops => c.condition? hops related [] f
end

/-! ## Filters of one clause -/

section

variable {c : Context} {inner : Bool} {collection : String} {parents : List String}

theorem joinFilter_of (scope : Scope) (clause : Clause) :
    c.joinFilter inner collection parents scope (.of clause) =
      c.joinClause inner collection parents scope clause := by
  simp [Filter.of, joinFilter, joinClauses]

/-- The filter of one clause has the condition of the clause. -/
theorem condition?_of (hops : Hops) (clause : Clause) :
    c.condition? hops collection parents (.of clause) =
      c.clauseCondition? hops collection parents clause := by
  have hpart (part : Option Expr) : conjunction? part.toList = part := by
    cases part <;> rfl
  simp [Filter.of, condition?, clauseConditions, hpart]

/-! ## The join pass -/

theorem startsExistential_below {segment : String} (h : parents ≠ []) :
    c.startsExistential collection parents segment = false := by
  cases parents with
  | nil => exact absurd rfl h
  | cons first rest => rfl

/-- Below the root, the segments of a key are joined as one path. -/
theorem joinClause_along_below {scope : Scope} {segments : List String}
    {condition : FieldCondition} : ∀ {parents : List String}, parents ≠ [] → segments ≠ [] →
      c.joinClause inner collection parents scope (.along segments condition) =
        c.joinCondition inner collection (parents ++ segments.map Text.trim) scope condition := by
  induction segments with
  | nil => exact fun _ hsome => absurd rfl hsome
  | cons segment rest ih =>
    intro parents hparents _
    cases rest with
    | nil =>
      rw [Clause.along, joinClause, startsExistential_below hparents]
      rfl
    | cons next more =>
      rw [Clause.along_cons (List.cons_ne_nil next more), joinClause,
        startsExistential_below hparents, if_neg Bool.false_ne_true, joinCondition, joinFilter_of,
        ih (by simp) (List.cons_ne_nil next more)]
      simp

/-- A dotted key is joined as the path of its segments, unless its root starts an existential
condition. -/
theorem joinClause_along (scope : Scope) (key : String) (condition : FieldCondition) :
    c.joinClause inner collection parents scope (.along (Text.split '.' key) condition) =
      if c.startsExistential collection parents (splitRoot key).1 then pure (scope, false)
      else c.joinCondition inner collection (parents ++ fieldPath key) scope condition := by
  rw [splitRoot, fieldPath]
  cases honce : Text.splitOnce? '.' key with
  | none =>
    rw [Text.split_of_splitOnce?_eq_none honce, Clause.along, joinClause]
    rfl
  | some parts =>
    obtain ⟨root, rest⟩ := parts
    rw [Text.split_of_splitOnce?_eq_some honce, Clause.along_cons (Text.split_ne_nil '.' rest),
      joinClause, joinCondition, joinFilter_of,
      joinClause_along_below (by simp) (Text.split_ne_nil '.' rest)]
    simp

theorem holdsAlways_unfoldedAll (filters : List Filter) :
    holdsAlways (Filter.unfoldedAll filters) = holdsAlways filters := by
  induction filters with
  | nil => rfl
  | cons f rest ih =>
    have hempty : f.unfolded.isEmpty = f.isEmpty := by
      obtain ⟨clauses⟩ := f
      cases clauses <;> rfl
    rw [holdsAlways] at ih ⊢
    rw [Filter.unfoldedAll, List.any_cons, ih, hempty]
    rfl

mutual
/-- The join pass over a filter is that over its unfolded form. -/
theorem joinPass_eq (parents : List String) (scope : Scope) (f : Filter) :
    c.joinPass inner collection parents scope f =
      c.joinFilter inner collection parents scope f.unfolded := by
  obtain ⟨clauses⟩ := f
  rw [joinPass, Filter.unfolded, joinFilter, joinPassClauses_eq parents scope clauses]

theorem joinPassClauses_eq (parents : List String) (scope : Scope) (clauses : List Clause) :
    c.joinPassClauses inner collection parents scope clauses =
      c.joinClauses inner collection parents scope (Filter.unfoldedClauses clauses) := by
  cases clauses with
  | nil => rw [joinPassClauses, Filter.unfoldedClauses, joinClauses]
  | cons clause rest =>
    rw [joinPassClauses, Filter.unfoldedClauses, joinClauses,
      joinPassClause_eq parents scope clause]
    exact bind_congr fun ⟨joined, several⟩ => by
      dsimp only
      rw [joinPassClauses_eq parents joined rest]

theorem joinPassClause_eq (parents : List String) (scope : Scope) (clause : Clause) :
    c.joinPassClause inner collection parents scope clause =
      c.joinClause inner collection parents scope clause.unfolded := by
  cases clause with
  | all filters => rw [joinPassClause, Clause.unfolded, joinClause, joinPassGroup_eq]
  | any filters =>
    rw [joinPassClause, Clause.unfolded, joinClause, holdsAlways_unfoldedAll, joinPassGroup_eq]
  | field key condition =>
    rw [joinPassClause, Clause.unfolded, joinClause_along, joinPassField_eq _ scope condition]

theorem joinPassGroup_eq (parents : List String) (scope : Scope) (filters : List Filter) :
    c.joinPassGroup inner collection parents scope filters =
      c.joinFilters inner collection parents scope (Filter.unfoldedAll filters) := by
  cases filters with
  | nil => rw [joinPassGroup, Filter.unfoldedAll, joinFilters]
  | cons f rest =>
    rw [joinPassGroup, Filter.unfoldedAll, joinFilters, joinPass_eq parents scope f]
    exact bind_congr fun ⟨joined, several⟩ => by
      dsimp only
      rw [joinPassGroup_eq parents joined rest]

theorem joinPassField_eq (path : List String) (scope : Scope) (condition : FieldCondition) :
    c.joinPassField inner collection path scope condition =
      c.joinCondition inner collection path scope condition.unfolded := by
  cases condition with
  | compare comparisons => rfl
  | nested f =>
    rw [joinPassField, FieldCondition.unfolded, joinCondition, joinPass_eq path scope f]
  | quantified quantifier f => rfl
end

/-! ## The predicate pass -/

/-- Below the root, the condition of a key is that of the field at the end of its segments. -/
theorem clauseCondition?_along_below {hops : Hops} {condition : FieldCondition}
    {along : List String → Compile (Option Expr)}
    (halong : ∀ parents segment, parents ≠ [] → along (parents ++ [Text.trim segment]) =
      c.fieldCondition? hops collection parents segment condition)
    {segments : List String} : ∀ {parents : List String}, parents ≠ [] → segments ≠ [] →
      c.clauseCondition? hops collection parents (.along segments condition) =
        along (parents ++ segments.map Text.trim) := by
  induction segments with
  | nil => exact fun _ hsome => absurd rfl hsome
  | cons segment rest ih =>
    intro parents hparents _
    cases rest with
    | nil =>
      rw [Clause.along, clauseCondition?, ← halong parents segment hparents]
      rfl
    | cons next more =>
      rw [Clause.along_cons (List.cons_ne_nil next more), clauseCondition?, fieldCondition?,
        startsExistential_below hparents, if_neg Bool.false_ne_true, condition?_of,
        ih (by simp) (List.cons_ne_nil next more)]
      simp

/-- An existential condition of a filter is that of its unfolded form, if the conditions on the
related rows agree. -/
theorem amongKeys_eq {table : String} {link : Link} {quantifier : Quantifier} {f : Filter}
    {condition other : String → Hops → Compile (Option Expr)}
    (h : ∀ related hops, condition related hops = other related hops) :
    c.amongKeys collection table link quantifier (fun related scope =>
        restricted (c.joinPass true related [] scope f) (condition related)) =
      c.existential collection table link quantifier f.unfolded other := by
  rw [existential]
  refine congrArg _ (funext fun related => funext fun scope => ?_)
  rw [joinPass_eq, addFilter]
  exact congrArg _ (funext (h related))

/-- The condition of a key is that of the nested filters that it stands for, if this holds of the
rows of a link at the root and of the field at the end of a path. -/
theorem keyPredicate?_eq {condition : FieldCondition}
    {rows : String → String → Compile (Option Expr)}
    {along : Hops → String → List String → Compile (Option Expr)}
    (hrows : ∀ hops collection key, c.startsExistential collection [] key = true →
      rows collection key = c.fieldCondition? hops collection [] key condition.unfolded)
    (halong : ∀ hops collection parents segment,
      c.startsExistential collection parents segment = false →
      along hops collection (parents ++ [Text.trim segment]) =
        c.fieldCondition? hops collection parents segment condition.unfolded)
    {segments : List String} : IsPath segments → segments ≠ [] → ∀ hops collection parents,
      c.keyPredicate? condition rows along segments hops collection parents =
        c.clauseCondition? hops collection parents (.along segments condition.unfolded) := by
  induction segments with
  | nil => exact fun _ hsome => absurd rfl hsome
  | cons root rest ih =>
    intro hpath _ hops collection parents
    cases rest with
    | nil =>
      have hkey : Text.join '.' [root] = root := String.ofList_toList
      unfold keyPredicate?
      rw [Clause.along, clauseCondition?]
      dsimp only
      rw [hkey]
      split
      · next hstarts =>
        have hroot : parents = [] := by
          cases parents with
          | nil => rfl
          | cons first more => cases hstarts
        subst hroot
        exact hrows hops collection root hstarts
      · next hstarts => exact halong hops collection parents root (by simpa using hstarts)
    | cons next more =>
      have hrest : IsPath (next :: more) := fun s hs => hpath s (List.mem_cons_of_mem _ hs)
      have hsome : next :: more ≠ [] := List.cons_ne_nil next more
      have hbelow : (Filter.of (.field (Text.join '.' (next :: more)) condition)).unfolded =
          .of (.along (next :: more) condition.unfolded) := by
        rw [Filter.of, Filter.unfolded, Filter.unfoldedClauses, Filter.unfoldedClauses,
          Clause.unfolded, Text.split_join hsome hrest]
        rfl
      rw [Clause.along_cons hsome, clauseCondition?, fieldCondition?, keyPredicate?]
      split
      · dsimp only
        rw [← hbelow]
        refine congrArg _ (amongKeys_eq fun related hops => ?_)
        rw [hbelow, condition?_of]
        exact ih hrest hsome hops related []
      · have hend : ∀ parents segment, parents ≠ [] →
            along hops collection (parents ++ [Text.trim segment]) =
              c.fieldCondition? hops collection parents segment condition.unfolded :=
          fun parents segment hparents =>
            halong hops collection parents segment (startsExistential_below hparents)
        rw [condition?_of, clauseCondition?_along_below hend (by simp) hsome]
        simp

/-! ## Filters -/

mutual
/-- The predicate pass over a filter builds the condition of its unfolded form. -/
theorem predicatePass_eq (hops : Hops) (collection : String) (parents : List String) (f : Filter) :
    c.predicatePass hops collection parents f =
      c.condition? hops collection parents f.unfolded := by
  obtain ⟨clauses⟩ := f
  rw [predicatePass, Filter.unfolded, condition?,
    clausePredicates_eq hops collection parents clauses]

theorem clausePredicates_eq (hops : Hops) (collection : String) (parents : List String)
    (clauses : List Clause) : c.clausePredicates hops collection parents clauses =
      c.clauseConditions hops collection parents (Filter.unfoldedClauses clauses) := by
  cases clauses with
  | nil => rw [clausePredicates, Filter.unfoldedClauses, clauseConditions]
  | cons clause rest =>
    rw [clausePredicates, Filter.unfoldedClauses, clauseConditions,
      clausePredicate?_eq hops collection parents clause,
      clausePredicates_eq hops collection parents rest]

theorem clausePredicate?_eq (hops : Hops) (collection : String) (parents : List String)
    (clause : Clause) : c.clausePredicate? hops collection parents clause =
      c.clauseCondition? hops collection parents clause.unfolded := by
  cases clause with
  | all filters =>
    rw [clausePredicate?, Clause.unfolded, clauseCondition?,
      groupPredicates_eq hops collection parents filters]
  | any filters =>
    rw [clausePredicate?, Clause.unfolded, clauseCondition?, holdsAlways_unfoldedAll,
      groupPredicates_eq hops collection parents filters]
  | field key condition =>
    rw [clausePredicate?, Clause.unfolded]
    exact keyPredicate?_eq
      (fun hops collection key => rowsPredicate?_eq hops collection key condition)
      (fun hops collection parents segment =>
        pathPredicate?_eq hops collection parents segment condition)
      (isPath_split key) (Text.split_ne_nil '.' key) hops collection parents

theorem groupPredicates_eq (hops : Hops) (collection : String) (parents : List String)
    (filters : List Filter) : c.groupPredicates hops collection parents filters =
      c.groupConditions hops collection parents (Filter.unfoldedAll filters) := by
  cases filters with
  | nil => rw [groupPredicates, Filter.unfoldedAll, groupConditions]
  | cons f rest =>
    rw [groupPredicates, Filter.unfoldedAll, groupConditions,
      predicatePass_eq hops collection parents f, groupPredicates_eq hops collection parents rest]

theorem rowsPredicate?_eq (hops : Hops) (collection key : String) (condition : FieldCondition)
    (hstarts : c.startsExistential collection [] key = true) :
    c.rowsPredicate? collection key condition =
      c.fieldCondition? hops collection [] key condition.unfolded := by
  cases condition with
  | compare comparisons =>
    rw [rowsPredicate?, FieldCondition.unfolded, fieldCondition?, if_pos hstarts]
    rfl
  | nested f =>
    rw [rowsPredicate?, FieldCondition.unfolded, fieldCondition?, if_pos hstarts]
    exact congrArg _ (amongKeys_eq fun related hops => predicatePass_eq hops related [] f)
  | quantified quantifier f =>
    rw [rowsPredicate?, FieldCondition.unfolded, fieldCondition?, if_pos hstarts]
    exact congrArg _ (amongKeys_eq fun related hops => predicatePass_eq hops related [] f)

theorem pathPredicate?_eq (hops : Hops) (collection : String) (parents : List String)
    (segment : String) (condition : FieldCondition)
    (hstarts : c.startsExistential collection parents segment = false) :
    c.pathPredicate? hops collection (parents ++ [Text.trim segment]) condition =
      c.fieldCondition? hops collection parents segment condition.unfolded := by
  cases condition with
  | compare comparisons =>
    rw [pathPredicate?, FieldCondition.unfolded, fieldCondition?, hstarts]
    rfl
  | nested f =>
    rw [pathPredicate?, FieldCondition.unfolded, fieldCondition?, hstarts,
      predicatePass_eq hops collection (parents ++ [Text.trim segment]) f]
    rfl
  | quantified quantifier f =>
    rw [pathPredicate?, FieldCondition.unfolded, fieldCondition?, hstarts,
      List.getLast?_concat, List.dropLast_concat]
    exact bind_congr fun ⟨hop, link⟩ => congrArg (some <$> ·)
      (amongKeys_eq fun related hops => predicatePass_eq hops related [] f)
end

/-- A filter restricts a statement to what its unfolded form restricts it to, segment by segment. -/
theorem restrict_eq (scope : Scope) (f : Filter) :
    c.restrict inner collection scope f = c.addFilter inner collection scope f.unfolded
      fun hops => c.condition? hops collection [] f.unfolded := by
  rw [restrict, addFilter, joinPass_eq]
  exact congrArg _ (funext fun hops => predicatePass_eq hops collection [] f)

end

end Context

end JsonSql
