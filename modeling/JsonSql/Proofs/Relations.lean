import JsonSql.Proofs.Followed

set_option autoImplicit false

/-!
# What the relations decide

Where paths lead, which paths a request walks and what its filter compares depend on the relations
of a schema alone, and neither on the options nor on the aliases.
-/

namespace JsonSql

/-- The relations depend on neither the options nor the aliases. -/
theorem Schema.relations_context (s : Schema) (options options' : Options)
    (names names' : Nat → String) :
    (s.context options names).relations = (s.context options' names').relations := rfl

namespace Context

variable {c c' : Context}

theorem link_congr (h : c.relations = c'.relations) : c.link = c'.link := by
  funext owner segment
  rw [Context.link, Context.link, h]

theorem startsExistential_congr (h : c.relations = c'.relations) (collection : String)
    (parents : List String) (key : String) :
    c.startsExistential collection parents key = c'.startsExistential collection parents key := by
  rw [startsExistential, startsExistential, link_congr h]

mutual
/-- The paths of a filter depend on the relations only. -/
theorem filterPaths_congr (h : c.relations = c'.relations) (collection : String)
    (parents : List String) (f : Filter) :
    c.filterPaths collection parents f = c'.filterPaths collection parents f := by
  obtain ⟨clauses⟩ := f
  rw [filterPaths, filterPaths, clausesPaths_congr h collection parents clauses]

theorem clausesPaths_congr (h : c.relations = c'.relations) (collection : String)
    (parents : List String) (clauses : List Clause) :
    c.clausesPaths collection parents clauses = c'.clausesPaths collection parents clauses := by
  cases clauses with
  | nil => rw [clausesPaths, clausesPaths]
  | cons clause rest =>
    rw [clausesPaths, clausesPaths, clausePaths_congr h collection parents clause,
      clausesPaths_congr h collection parents rest]

theorem clausePaths_congr (h : c.relations = c'.relations) (collection : String)
    (parents : List String) (clause : Clause) :
    c.clausePaths collection parents clause = c'.clausePaths collection parents clause := by
  cases clause with
  | all filters => rw [clausePaths, clausePaths, filtersPaths_congr h collection parents filters]
  | any filters => rw [clausePaths, clausePaths, filtersPaths_congr h collection parents filters]
  | field key condition =>
    rw [clausePaths, clausePaths, startsExistential_congr h,
      conditionPaths_congr h collection _ condition]

theorem filtersPaths_congr (h : c.relations = c'.relations) (collection : String)
    (parents : List String) (filters : List Filter) :
    c.filtersPaths collection parents filters = c'.filtersPaths collection parents filters := by
  cases filters with
  | nil => rw [filtersPaths, filtersPaths]
  | cons f rest =>
    rw [filtersPaths, filtersPaths, filterPaths_congr h collection parents f,
      filtersPaths_congr h collection parents rest]

theorem conditionPaths_congr (h : c.relations = c'.relations) (collection : String)
    (path : List String) (condition : FieldCondition) :
    c.conditionPaths collection path condition = c'.conditionPaths collection path condition := by
  cases condition with
  | compare comparisons => rw [conditionPaths, conditionPaths]
  | quantified quantifier f => rw [conditionPaths, conditionPaths]
  | nested f => rw [conditionPaths, conditionPaths, filterPaths_congr h collection path f]
end

theorem requestPaths_congr (h : c.relations = c'.relations) (collection : String) (r : Request) :
    c.requestPaths collection r = c'.requestPaths collection r := by
  rw [requestPaths, requestPaths]
  exact congrArg (fun paths => List.flatMap paths r.filter.toList)
    (funext fun f => filterPaths_congr h collection [] f.unfolded)

theorem walkedPaths_congr (h : c.relations = c'.relations) (collection : String) (r : Request) :
    c.walkedPaths collection r = c'.walkedPaths collection r := by
  rw [walkedPaths, walkedPaths, requestPaths_congr h]

end Context

/-! ## Leaves and comparisons -/

namespace Context

variable {c c' : Context}

mutual
/-- The leaves of a filter depend on the relations only. -/
theorem leaves_congr (h : c.relations = c'.relations) (collection : String)
    (parents : List String) (f : Filter) :
    c.leaves collection parents f = c'.leaves collection parents f := by
  obtain ⟨clauses⟩ := f
  rw [leaves, leaves, clausesLeaves_congr h collection parents clauses]

theorem clausesLeaves_congr (h : c.relations = c'.relations) (collection : String)
    (parents : List String) (clauses : List Clause) :
    c.clausesLeaves collection parents clauses = c'.clausesLeaves collection parents clauses := by
  cases clauses with
  | nil => rw [clausesLeaves, clausesLeaves]
  | cons clause rest =>
    rw [clausesLeaves, clausesLeaves, clauseLeaves_congr h collection parents clause,
      clausesLeaves_congr h collection parents rest]

theorem clauseLeaves_congr (h : c.relations = c'.relations) (collection : String)
    (parents : List String) (clause : Clause) :
    c.clauseLeaves collection parents clause = c'.clauseLeaves collection parents clause := by
  cases clause with
  | all filters => rw [clauseLeaves, clauseLeaves, filtersLeaves_congr h collection parents filters]
  | any filters => rw [clauseLeaves, clauseLeaves, filtersLeaves_congr h collection parents filters]
  | field key condition =>
    rw [clauseLeaves, clauseLeaves, conditionLeaves_congr h collection parents key condition]

theorem filtersLeaves_congr (h : c.relations = c'.relations) (collection : String)
    (parents : List String) (filters : List Filter) :
    c.filtersLeaves collection parents filters = c'.filtersLeaves collection parents filters := by
  cases filters with
  | nil => rw [filtersLeaves, filtersLeaves]
  | cons f rest =>
    rw [filtersLeaves, filtersLeaves, leaves_congr h collection parents f,
      filtersLeaves_congr h collection parents rest]

theorem conditionLeaves_congr (h : c.relations = c'.relations) (collection : String)
    (parents : List String) (key : String) (condition : FieldCondition) :
    c.conditionLeaves collection parents key condition =
      c'.conditionLeaves collection parents key condition := by
  cases condition with
  | compare comparisons => rw [conditionLeaves, conditionLeaves]
  | quantified quantifier f => rw [conditionLeaves, conditionLeaves]
  | nested f =>
    rw [conditionLeaves, conditionLeaves, startsExistential_congr h,
      leaves_congr h collection _ f]
end

theorem destination?_congr (h : c.relations = c'.relations) :
    c.destination? = c'.destination? := by
  funext collection path
  rw [destination?, destination?, link_congr h]

theorem relatedLink?_congr (h : c.relations = c'.relations) : c.relatedLink? = c'.relatedLink? := by
  funext collection parents key
  rw [relatedLink?, relatedLink?, startsExistential_congr h, link_congr h, destination?_congr h]

/-- What a filter compares depends on the relations only. -/
theorem Compares.congr (h : c.relations = c'.relations) {collection owner key : String} {f : Filter}
    {comparisons : List Comparison} (hcompares : c.Compares collection f owner key comparisons) :
    c'.Compares collection f owner key comparisons := by
  induction hcompares with
  | leaf hleaf howner =>
    rw [leaves_congr h] at hleaf
    rw [destination?_congr h] at howner
    exact .leaf hleaf howner
  | inside hleaf hlink hr _ ih =>
    rw [leaves_congr h] at hleaf
    rw [relatedLink?_congr h] at hlink
    exact .inside hleaf hlink hr ih

end Context

end JsonSql
