import JsonSql.Proofs.Parts
import Mathlib.Algebra.BigOperators.Group.Multiset.Basic
import Mathlib.Algebra.GroupWithZero.Nat

set_option autoImplicit false

/-!
# Statements within statements

The rows that a filter asks about are looked up by a statement of their own, to which the filter on
them is added like a request.  A dotted key that starts with such rows is asked as the filter of one
clause, on the rest of the key, which need not be a part of the filter that it came from.  Here this
recursion is written as it goes, one level of statements after another (`Context.applyWithin`).
Every level takes a segment off the filter, so no run goes deeper than there are segments, and what
comes out is what a filter compiles to by the recursion on its structure (`applyWithin_eq`).
-/

namespace JsonSql

open JsonSql.Sql

/-! ## Segments -/

mutual
/-- The number of segments in the keys of a filter, at any depth. -/
def Filter.segmentCount : Filter → Nat
  | ⟨clauses⟩ => clausesSegmentCount clauses

/-- The number of segments in the keys of clauses. -/
def clausesSegmentCount : List Clause → Nat
  | [] => 0
  | clause :: rest => clause.segmentCount + clausesSegmentCount rest

/-- The number of segments in the keys of a clause. -/
def Clause.segmentCount : Clause → Nat
  | .all filters | .any filters => filtersSegmentCount filters
  | .field key condition => (Text.split '.' key).length + condition.segmentCount

/-- The number of segments in the keys of filters. -/
def filtersSegmentCount : List Filter → Nat
  | [] => 0
  | f :: rest => f.segmentCount + filtersSegmentCount rest

/-- The number of segments in the keys of what is asked of a field. -/
def FieldCondition.segmentCount : FieldCondition → Nat
  | .compare _ => 0
  | .quantified _ f | .nested f => f.segmentCount
end

/-- The number of segments in the filter keys, the sort keys, the group keys and the aggregated
fields of a request. -/
def Request.segmentCount (r : Request) : Nat :=
  (r.filter.toList.map Filter.segmentCount).sum +
    ((r.sort ++ r.group ++ r.aggregate.flatMap Prod.snd).map fun key =>
      (Text.split '.' key).length).sum

theorem Filter.segmentCount_of (key : String) (condition : FieldCondition) :
    (Filter.of (.field key condition)).segmentCount =
      (Text.split '.' key).length + condition.segmentCount := by
  simp [Filter.of, Filter.segmentCount, clausesSegmentCount, Clause.segmentCount]

/-! ## Levels of statements -/

/-- A way to add a request to a statement that selects from a collection. -/
abbrev Adding := String → Query → Request → Bool → Compile Applied

/-- How many of the related rows meet which filter, asked by the key of a link to several rows at the
root: the rest of a dotted key is the key of one clause.  Rows are not compared. -/
def FieldCondition.ofRows? (condition : FieldCondition) :
    Option String → Option (Quantifier × Filter)
  | some rest => some (.some, .of (.field rest condition))
  | none => match condition with
    | .quantified quantifier f => some (quantifier, f)
    | .nested f => some (.some, f)
    | .compare _ => none

namespace Context

/-- The key of a row is, or is not, among the keys that the rows that meet a filter refer to.  The
filter is added to the statement of those keys. -/
def existentialBy (c : Context) (add : Adding) (collection table : String) (link : Link)
    (quantifier : Quantifier) (f : Filter) : Compile Expr := do
  let (r, keys, polymorphic) ← relatedKeys collection link
  let applied ← add r.collection keys { filter := some f } true
  let primary ← c.primary collection
  let key := Expr.of table primary
  return .inQuery (if polymorphic then .cast key .text else key) applied.query
    (quantifier = .none)

mutual
/-- The condition of a filter under a path of parents, if it restricts anything. -/
def conditionBy (c : Context) (add : Adding) (hops : Hops) (collection : String)
    (parents : List String) : Filter → Compile (Option Expr)
  | ⟨clauses⟩ => conjunction? <$> c.clauseConditionsBy add hops collection parents clauses

/-- The conditions of clauses that restrict anything. -/
def clauseConditionsBy (c : Context) (add : Adding) (hops : Hops) (collection : String)
    (parents : List String) : List Clause → Compile (List Expr)
  | [] => return []
  | clause :: rest => do
    let part ← c.clauseConditionBy add hops collection parents clause
    let parts ← c.clauseConditionsBy add hops collection parents rest
    return part.toList ++ parts

/-- The condition of a clause. -/
def clauseConditionBy (c : Context) (add : Adding) (hops : Hops) (collection : String)
    (parents : List String) : Clause → Compile (Option Expr)
  | .all filters => conjunction? <$> c.groupConditionsBy add hops collection parents filters
  | .any filters =>
    if holdsAlways filters then return none
    else disjunction? <$> c.groupConditionsBy add hops collection parents filters
  | .field key condition =>
    let (root, rest) := splitRoot key
    if c.startsExistential collection parents root then
      match condition.ofRows? rest with
      | some (quantifier, f) =>
        some <$> c.existentialBy add collection collection (c.link collection root) quantifier f
      | none => throw (.query (.comparesRows key))
    else c.pathConditionBy add hops collection (parents ++ fieldPath key) condition

/-- The conditions of the filters of a group, each in parentheses. -/
def groupConditionsBy (c : Context) (add : Adding) (hops : Hops) (collection : String)
    (parents : List String) : List Filter → Compile (List Expr)
  | [] => return []
  | f :: rest => do
    let part ← c.conditionBy add hops collection parents f
    let parts ← c.groupConditionsBy add hops collection parents rest
    return (part.map Expr.paren).toList ++ parts

/-- The condition on the field at the end of a path. -/
def pathConditionBy (c : Context) (add : Adding) (hops : Hops) (collection : String)
    (path : List String) : FieldCondition → Compile (Option Expr)
  | .compare comparisons => do
    let column ← c.column hops collection path
    c.compareAll? column comparisons
  | .nested f => c.conditionBy add hops collection path f
  | .quantified quantifier f =>
    match path.getLast? with
    | none => return none
    | some segment => do
      let (hop, link) ← c.quantifiedLink hops path.dropLast segment
      some <$> c.existentialBy add hop.collection hop.name link quantifier f
end

/-- The filter of a request, if there is one, where the filters on related rows are added in a given
way. -/
def filterStageBy (c : Context) (add : Adding) (collection : String) (inner : Bool) (r : Request)
    (scope : Scope) : Compile (Scope × Bool) :=
  match r.filter with
  | none => return (scope, false)
  | some f => restricted (c.joinPass inner collection [] scope f)
      fun hops => c.conditionBy add hops collection [] f

/-- Adds a request to a statement, where the filters on related rows are added in a given way. -/
def applyBy (c : Context) (add : Adding) : Adding := fun collection q r inner => do
  let info ← c.collection collection
  let scope ← c.orderStage collection inner r q
  let scope ← c.searchStage collection r scope
  let scope ← r.group.foldlM (c.groupBy collection) scope
  let (scope, repeatsRows) ← c.filterStageBy add collection inner r scope
  let scope ← c.aggregateStage info r scope
  return { query := scope.query, repeatsRows }

/-- Adds a request to a statement by so many levels of statements.  What would be done below them is
given. -/
def applyWithin (c : Context) (deeper : Adding) : Nat → Adding
  | 0 => deeper
  | levels + 1 => c.applyBy (c.applyWithin deeper levels)

/-! ## The recursion as it goes -/

section

variable {c : Context}

/-- In an inner statement, a request for related rows is its filter. -/
theorem apply_of_filter (collection : String) (q : Query) (f : Filter) :
    c.apply collection q { filter := some f } true = (do
      let _ ← c.collection collection
      let (scope, repeatsRows) ← c.restrict true collection { query := q } f
      return { query := scope.query, repeatsRows }) := by
  simp [apply_eq, orderStage, searchStage, filterStage, aggregateStage]

/-- The keys of related rows are restricted like a request for them. -/
theorem existentialBy_apply (collection table : String) (link : Link) (quantifier : Quantifier)
    (f : Filter) : c.existentialBy c.apply collection table link quantifier f =
      c.amongKeys collection table link quantifier
        fun related scope => c.restrict true related scope f := by
  rw [existentialBy, amongKeys]
  refine bind_congr fun related => ?_
  obtain ⟨r, keys, polymorphic⟩ := related
  simp [apply_of_filter]

/-- The condition of a filter of one clause is that of the clause. -/
theorem predicatePass_of (hops : Hops) (collection : String) (parents : List String)
    (clause : Clause) : c.predicatePass hops collection parents (.of clause) =
      c.clausePredicate? hops collection parents clause := by
  have hpart (part : Option Expr) : conjunction? part.toList = part := by
    cases part <;> rfl
  simp [Filter.of, predicatePass, clausePredicates, hpart]

/-- The key of a link to several rows at the root is asked of as the recursion goes, if what is asked
of other paths is. -/
theorem clauseConditionBy_field (hops : Hops) (collection : String) (parents : List String)
    (key : String) (condition : FieldCondition)
    (hpath : ∀ path, c.pathConditionBy c.apply hops collection path condition =
      c.pathPredicate? hops collection path condition) :
    c.clauseConditionBy c.apply hops collection parents (.field key condition) =
      c.clausePredicate? hops collection parents (.field key condition) := by
  rw [clauseConditionBy, clausePredicate?, splitRoot, fieldPath, hpath]
  cases honce : Text.splitOnce? '.' key with
  | none =>
    have hkey : Text.join '.' [key] = key := String.ofList_toList
    rw [Text.split_of_splitOnce?_eq_none honce]
    unfold keyPredicate?
    dsimp only
    rw [hkey]
    split
    · cases condition with
      | compare comparisons => rfl
      | nested f | quantified quantifier f =>
        rw [FieldCondition.ofRows?, rowsPredicate?]
        dsimp only
        rw [existentialBy_apply]
        rfl
    · rfl
  | some parts =>
    obtain ⟨root, rest⟩ := parts
    obtain ⟨next, more, hrest⟩ := List.exists_cons_of_ne_nil (Text.split_ne_nil '.' rest)
    rw [Text.split_of_splitOnce?_eq_some honce, hrest, keyPredicate?]
    dsimp only
    split
    · -- the rest of the key is the key of one clause on the related rows
      rw [FieldCondition.ofRows?, ← hrest, Text.join_split]
      dsimp only
      rw [existentialBy_apply]
      simp only [restrict, predicatePass_of, clausePredicate?]
    · rfl

mutual
/-- The condition of a filter is built as the recursion goes. -/
theorem conditionBy_apply (hops : Hops) (collection : String) (parents : List String)
    (f : Filter) : c.conditionBy c.apply hops collection parents f =
      c.predicatePass hops collection parents f := by
  obtain ⟨clauses⟩ := f
  rw [conditionBy, predicatePass, clauseConditionsBy_apply hops collection parents clauses]

theorem clauseConditionsBy_apply (hops : Hops) (collection : String) (parents : List String)
    (clauses : List Clause) : c.clauseConditionsBy c.apply hops collection parents clauses =
      c.clausePredicates hops collection parents clauses := by
  cases clauses with
  | nil => rw [clauseConditionsBy, clausePredicates]
  | cons clause rest =>
    rw [clauseConditionsBy, clausePredicates, clauseConditionBy_apply hops collection parents clause,
      clauseConditionsBy_apply hops collection parents rest]

theorem clauseConditionBy_apply (hops : Hops) (collection : String) (parents : List String)
    (clause : Clause) : c.clauseConditionBy c.apply hops collection parents clause =
      c.clausePredicate? hops collection parents clause := by
  cases clause with
  | all filters =>
    rw [clauseConditionBy, clausePredicate?, groupConditionsBy_apply hops collection parents filters]
  | any filters =>
    rw [clauseConditionBy, clausePredicate?, groupConditionsBy_apply hops collection parents filters]
  | field key condition =>
    exact clauseConditionBy_field hops collection parents key condition
      fun path => pathConditionBy_apply hops collection path condition

theorem groupConditionsBy_apply (hops : Hops) (collection : String) (parents : List String)
    (filters : List Filter) : c.groupConditionsBy c.apply hops collection parents filters =
      c.groupPredicates hops collection parents filters := by
  cases filters with
  | nil => rw [groupConditionsBy, groupPredicates]
  | cons f rest =>
    rw [groupConditionsBy, groupPredicates, conditionBy_apply hops collection parents f,
      groupConditionsBy_apply hops collection parents rest]

theorem pathConditionBy_apply (hops : Hops) (collection : String) (path : List String)
    (condition : FieldCondition) : c.pathConditionBy c.apply hops collection path condition =
      c.pathPredicate? hops collection path condition := by
  cases condition with
  | compare comparisons => rw [pathConditionBy, pathPredicate?]
  | nested f => rw [pathConditionBy, pathPredicate?, conditionBy_apply hops collection path f]
  | quantified quantifier f =>
    simp only [pathConditionBy, pathPredicate?, existentialBy_apply]
    rfl
end

/-- A request is added by adding the filters on related rows like requests. -/
theorem applyBy_apply : c.applyBy c.apply = c.apply := by
  funext collection q r inner
  rw [applyBy, apply_eq]
  refine bind_congr fun info => bind_congr fun scope => bind_congr fun scope =>
    bind_congr fun scope => ?_
  rw [filterStageBy, filterStage]
  cases r.filter with
  | none => rfl
  | some f => simp only [conditionBy_apply, restrict]

end

/-! ## Levels that suffice -/

section

variable {c : Context} {add other : Adding} {bound : Nat}

/-- Two ways to add a request do the same for filters on related rows with few segments. -/
def AgreeBelow (bound : Nat) (add other : Adding) : Prop :=
  ∀ g : Filter, g.segmentCount < bound → ∀ collection q,
    add collection q { filter := some g } true = other collection q { filter := some g } true

theorem AgreeBelow.existentialBy (h : AgreeBelow bound add other) {f : Filter}
    (hf : f.segmentCount < bound) (collection table : String) (link : Link)
    (quantifier : Quantifier) : c.existentialBy add collection table link quantifier f =
      c.existentialBy other collection table link quantifier f := by
  rw [Context.existentialBy, Context.existentialBy]
  refine bind_congr fun related => ?_
  obtain ⟨r, keys, polymorphic⟩ := related
  simp only [h f hf]

/-- What is asked of the rows of a link at the root has fewer segments than the clause. -/
theorem segmentCount_of_ofRows? {key : String} {condition : FieldCondition}
    {quantifier : Quantifier} {f : Filter}
    (h : condition.ofRows? (splitRoot key).2 = some (quantifier, f)) :
    f.segmentCount < (Clause.field key condition).segmentCount := by
  rw [Clause.segmentCount]
  rw [splitRoot] at h
  cases honce : Text.splitOnce? '.' key with
  | none =>
    rw [honce] at h
    rw [Text.split_of_splitOnce?_eq_none honce]
    cases condition with
    | compare comparisons => cases h
    | nested g | quantified quantifier g =>
      cases h
      rw [FieldCondition.segmentCount, List.length_singleton]
      omega
  | some parts =>
    obtain ⟨root, rest⟩ := parts
    rw [honce, FieldCondition.ofRows?] at h
    cases h
    rw [Text.split_of_splitOnce?_eq_some honce, Filter.segmentCount_of, List.length_cons]
    omega

mutual
/-- The condition of a filter rests on how filters with fewer segments are added. -/
theorem conditionBy_congr (h : AgreeBelow bound add other) (hops : Hops) (collection : String)
    (parents : List String) (f : Filter) (hf : f.segmentCount ≤ bound) :
    c.conditionBy add hops collection parents f =
      c.conditionBy other hops collection parents f := by
  obtain ⟨clauses⟩ := f
  rw [Filter.segmentCount] at hf
  rw [conditionBy, conditionBy, clauseConditionsBy_congr h hops collection parents clauses hf]

theorem clauseConditionsBy_congr (h : AgreeBelow bound add other) (hops : Hops)
    (collection : String) (parents : List String) (clauses : List Clause)
    (hclauses : clausesSegmentCount clauses ≤ bound) :
    c.clauseConditionsBy add hops collection parents clauses =
      c.clauseConditionsBy other hops collection parents clauses := by
  cases clauses with
  | nil => rw [clauseConditionsBy, clauseConditionsBy]
  | cons clause rest =>
    rw [clausesSegmentCount] at hclauses
    rw [clauseConditionsBy, clauseConditionsBy,
      clauseConditionBy_congr h hops collection parents clause (by omega),
      clauseConditionsBy_congr h hops collection parents rest (by omega)]

theorem clauseConditionBy_congr (h : AgreeBelow bound add other) (hops : Hops)
    (collection : String) (parents : List String) (clause : Clause)
    (hclause : clause.segmentCount ≤ bound) :
    c.clauseConditionBy add hops collection parents clause =
      c.clauseConditionBy other hops collection parents clause := by
  cases clause with
  | all filters =>
    rw [Clause.segmentCount] at hclause
    rw [clauseConditionBy, clauseConditionBy,
      groupConditionsBy_congr h hops collection parents filters hclause]
  | any filters =>
    rw [Clause.segmentCount] at hclause
    rw [clauseConditionBy, clauseConditionBy,
      groupConditionsBy_congr h hops collection parents filters hclause]
  | field key condition =>
    have hpath : condition.segmentCount < bound := by
      have hsome : 0 < (Text.split '.' key).length :=
        List.length_pos_iff.mpr (Text.split_ne_nil '.' key)
      rw [Clause.segmentCount] at hclause
      omega
    rw [clauseConditionBy, clauseConditionBy,
      pathConditionBy_congr h hops collection (parents ++ fieldPath key) condition hpath]
    dsimp only
    split
    · split
      · next quantifier f hrows =>
        rw [h.existentialBy (Nat.lt_of_lt_of_le (segmentCount_of_ofRows? hrows) hclause)]
      · rfl
    · rfl

theorem groupConditionsBy_congr (h : AgreeBelow bound add other) (hops : Hops)
    (collection : String) (parents : List String) (filters : List Filter)
    (hfilters : filtersSegmentCount filters ≤ bound) :
    c.groupConditionsBy add hops collection parents filters =
      c.groupConditionsBy other hops collection parents filters := by
  cases filters with
  | nil => rw [groupConditionsBy, groupConditionsBy]
  | cons f rest =>
    rw [filtersSegmentCount] at hfilters
    rw [groupConditionsBy, groupConditionsBy,
      conditionBy_congr h hops collection parents f (by omega),
      groupConditionsBy_congr h hops collection parents rest (by omega)]

theorem pathConditionBy_congr (h : AgreeBelow bound add other) (hops : Hops)
    (collection : String) (path : List String) (condition : FieldCondition)
    (hcondition : condition.segmentCount < bound) :
    c.pathConditionBy add hops collection path condition =
      c.pathConditionBy other hops collection path condition := by
  cases condition with
  | compare comparisons => rw [pathConditionBy, pathConditionBy]
  | nested f =>
    rw [FieldCondition.segmentCount] at hcondition
    rw [pathConditionBy, pathConditionBy,
      conditionBy_congr h hops collection path f (Nat.le_of_lt hcondition)]
  | quantified quantifier f =>
    rw [FieldCondition.segmentCount] at hcondition
    simp only [pathConditionBy, h.existentialBy hcondition]
end

/-- However the recursion goes on below them, as many levels of statements as the filter has
segments, and one more, are all that it takes. -/
theorem applyWithin_eq (deeper : Adding) {levels : Nat} :
    ∀ {r : Request}, (r.filter.toList.map Filter.segmentCount).sum < levels →
      ∀ collection q inner, c.applyWithin deeper levels collection q r inner =
        c.apply collection q r inner := by
  induction levels with
  | zero => exact fun hfew => absurd hfew (Nat.not_lt_zero _)
  | succ levels ih =>
    intro r hfew collection q inner
    have hbelow : AgreeBelow (r.filter.toList.map Filter.segmentCount).sum
        (c.applyWithin deeper levels) c.apply := by
      intro g hg collection q
      refine ih ?_ collection q true
      simp only [Option.toList_some, List.map_singleton, List.sum_singleton]
      omega
    rw [applyWithin, ← applyBy_apply, applyBy, applyBy]
    refine bind_congr fun info => bind_congr fun scope => bind_congr fun scope =>
      bind_congr fun scope => ?_
    rw [filterStageBy, filterStageBy]
    cases hfilter : r.filter with
    | none => rfl
    | some f =>
      rw [hfilter, Option.toList_some, List.map_singleton, List.sum_singleton] at hbelow
      dsimp only
      simp only [conditionBy_congr hbelow _ _ _ f (Nat.le_refl _)]

end

end Context

end JsonSql
