import JsonSql.Proofs.Followed
import JsonSql.Proofs.Segmentwise

set_option autoImplicit false

/-!
# What a filter asks

The comparisons of a filter in the order in which they are written, and what is asked with them on
the way: at each filter on related rows, that a key is among theirs, that they have one, and that it
is one of the collection if it is polymorphic.  Each comparison is asked at the end of a path from a
collection, where the links alone tell its type (`Context.typeAt?`); none is lost on the way there
(`Context.comparisons_of_asks`).
-/

namespace JsonSql

open JsonSql.Sql

/-! ## Comparisons -/

mutual
/-- The comparisons of a filter, in order; those of a group that restricts nothing do not count. -/
def Filter.comparisons : Filter → List Comparison
  | ⟨clauses⟩ => clausesComparisons clauses

/-- The comparisons of clauses. -/
def clausesComparisons : List Clause → List Comparison
  | [] => []
  | clause :: rest => clause.comparisons ++ clausesComparisons rest

/-- The comparisons of a clause. -/
def Clause.comparisons : Clause → List Comparison
  | .all filters => filtersComparisons filters
  | .any filters => if holdsAlways filters then [] else filtersComparisons filters
  | .field _ condition => condition.comparisons

/-- The comparisons of filters. -/
def filtersComparisons : List Filter → List Comparison
  | [] => []
  | f :: rest => f.comparisons ++ filtersComparisons rest

/-- The comparisons of what is asked of a field. -/
def FieldCondition.comparisons : FieldCondition → List Comparison
  | .compare comparisons => comparisons
  | .quantified _ f | .nested f => f.comparisons
end

theorem Clause.comparisons_along (segments : List String) (condition : FieldCondition) :
    (Clause.along segments condition).comparisons = condition.comparisons := by
  induction segments with
  | nil => rw [Clause.along, Clause.comparisons]
  | cons segment rest ih =>
    cases rest with
    | nil => rw [Clause.along, Clause.comparisons]
    | cons next rest =>
      rw [Clause.along_cons (List.cons_ne_nil next rest), Clause.comparisons,
        FieldCondition.comparisons, Filter.of, Filter.comparisons, clausesComparisons,
        clausesComparisons, List.append_nil, ih]

mutual
/-- Unfolding the keys of a filter leaves its comparisons as they are. -/
theorem Filter.comparisons_unfolded (f : Filter) : f.unfolded.comparisons = f.comparisons := by
  obtain ⟨clauses⟩ := f
  rw [Filter.unfolded, Filter.comparisons, Filter.comparisons]
  exact clausesComparisons_unfolded clauses

theorem clausesComparisons_unfolded (clauses : List Clause) :
    clausesComparisons (Filter.unfoldedClauses clauses) = clausesComparisons clauses := by
  cases clauses with
  | nil => rw [Filter.unfoldedClauses]
  | cons clause rest =>
    rw [Filter.unfoldedClauses, clausesComparisons, clausesComparisons,
      Clause.comparisons_unfolded clause, clausesComparisons_unfolded rest]

theorem Clause.comparisons_unfolded (clause : Clause) :
    clause.unfolded.comparisons = clause.comparisons := by
  cases clause with
  | all filters =>
    rw [Clause.unfolded, Clause.comparisons, Clause.comparisons,
      filtersComparisons_unfolded filters]
  | any filters =>
    rw [Clause.unfolded, Clause.comparisons, Clause.comparisons, Context.holdsAlways_unfoldedAll,
      filtersComparisons_unfolded filters]
  | field key condition =>
    rw [Clause.unfolded, Clause.comparisons_along, Clause.comparisons,
      FieldCondition.comparisons_unfolded condition]

theorem filtersComparisons_unfolded (filters : List Filter) :
    filtersComparisons (Filter.unfoldedAll filters) = filtersComparisons filters := by
  cases filters with
  | nil => rw [Filter.unfoldedAll]
  | cons f rest =>
    rw [Filter.unfoldedAll, filtersComparisons, filtersComparisons, Filter.comparisons_unfolded f,
      filtersComparisons_unfolded rest]

theorem FieldCondition.comparisons_unfolded (condition : FieldCondition) :
    condition.unfolded.comparisons = condition.comparisons := by
  cases condition with
  | compare comparisons => rw [FieldCondition.unfolded]
  | nested f | quantified quantifier f =>
    rw [FieldCondition.unfolded, FieldCondition.comparisons, FieldCondition.comparisons,
      Filter.comparisons_unfolded f]
end

/-- The comparisons of the filter of a request. -/
def Request.comparisons (r : Request) : List Comparison :=
  r.filter.toList.flatMap Filter.comparisons

/-- The comparisons of a leaf. -/
def Leaf.comparisons : Leaf → List Comparison
  | compared _ _ comparisons => comparisons
  | related _ _ _ f => f.comparisons

namespace Context

variable {c : Context} {collection : String}

mutual
/-- The comparisons of a filter are those of its leaves. -/
theorem comparisons_of_leaves (parents : List String) (f : Filter) :
    (c.leaves collection parents f).flatMap Leaf.comparisons = f.comparisons := by
  obtain ⟨clauses⟩ := f
  rw [leaves, Filter.comparisons]
  exact comparisons_of_clausesLeaves parents clauses

theorem comparisons_of_clausesLeaves (parents : List String) (clauses : List Clause) :
    (c.clausesLeaves collection parents clauses).flatMap Leaf.comparisons =
      clausesComparisons clauses := by
  cases clauses with
  | nil => rw [clausesLeaves, clausesComparisons, List.flatMap_nil]
  | cons clause rest =>
    rw [clausesLeaves, clausesComparisons, List.flatMap_append,
      comparisons_of_clauseLeaves parents clause, comparisons_of_clausesLeaves parents rest]

theorem comparisons_of_clauseLeaves (parents : List String) (clause : Clause) :
    (c.clauseLeaves collection parents clause).flatMap Leaf.comparisons = clause.comparisons := by
  cases clause with
  | all filters =>
    rw [clauseLeaves, Clause.comparisons, comparisons_of_filtersLeaves parents filters]
  | any filters =>
    rw [clauseLeaves, Clause.comparisons]
    split
    · rfl
    · exact comparisons_of_filtersLeaves parents filters
  | field key condition =>
    rw [clauseLeaves, Clause.comparisons]
    exact comparisons_of_conditionLeaves parents key condition

theorem comparisons_of_filtersLeaves (parents : List String) (filters : List Filter) :
    (c.filtersLeaves collection parents filters).flatMap Leaf.comparisons =
      filtersComparisons filters := by
  cases filters with
  | nil => rw [filtersLeaves, filtersComparisons, List.flatMap_nil]
  | cons f rest =>
    rw [filtersLeaves, filtersComparisons, List.flatMap_append, comparisons_of_leaves parents f,
      comparisons_of_filtersLeaves parents rest]

theorem comparisons_of_conditionLeaves (parents : List String) (key : String)
    (condition : FieldCondition) :
    (c.conditionLeaves collection parents key condition).flatMap Leaf.comparisons =
      condition.comparisons := by
  cases condition with
  | compare comparisons | quantified quantifier f =>
    rw [conditionLeaves, List.flatMap_singleton, Leaf.comparisons, FieldCondition.comparisons]
  | nested f =>
    rw [conditionLeaves, FieldCondition.comparisons]
    split
    · rw [List.flatMap_singleton, Leaf.comparisons]
    · exact comparisons_of_leaves _ f
end

end Context

/-! ## Questions -/

/-- What a filter asks. -/
inductive Ask where
  /-- a comparison holds at the end of a path from a collection -/
  | compares (collection : String) (path : List String) (comparison : Comparison)
  /-- the key of a row of a collection is, or is not, among those that related rows refer to -/
  | among (owner : String) (r : Relation) (quantifier : Quantifier)
  /-- a related row refers to a row -/
  | refers (r : Relation)
  /-- a related row refers to a row of the collection -/
  | tagged (owner : String) (r : Relation)

/-- The comparison of a question. -/
def Ask.comparison? : Ask → Option Comparison
  | compares _ _ comparison => some comparison
  | _ => none

/-- What is asked along a link to several rows, besides the filter on them. -/
def Link.asks (owner : String) (quantifier : Quantifier) : Link → List Ask
  | .oneToMany r => [.among owner r quantifier, .refers r]
  | .oneToAny r => [.among owner r quantifier, .refers r, .tagged owner r]
  | .none | .manyToOne _ | .manyToAny _ _ => []

theorem Link.comparison?_of_mem_asks {owner : String} {quantifier : Quantifier} {link : Link}
    {ask : Ask} (h : ask ∈ link.asks owner quantifier) : ask.comparison? = .none := by
  cases link with
  | none | manyToOne | manyToAny => cases h
  | oneToMany r =>
    simp only [Link.asks, List.mem_cons, List.not_mem_nil, or_false] at h
    rcases h with rfl | rfl <;> rfl
  | oneToAny r =>
    simp only [Link.asks, List.mem_cons, List.not_mem_nil, or_false] at h
    rcases h with rfl | rfl | rfl <;> rfl

namespace Context

variable {c : Context} {collection : String}

/-- What is asked along the link of a filter on related rows, besides that filter. -/
def linkAsks (c : Context) (collection : String) (parents : List String) (key : String)
    (quantifier : Quantifier) : List Ask :=
  match c.relatedLink? collection parents key with
  | some (owner, link) => link.asks owner quantifier
  | none => []

theorem comparison?_of_mem_linkAsks {parents : List String} {key : String}
    {quantifier : Quantifier} {ask : Ask}
    (h : ask ∈ c.linkAsks collection parents key quantifier) : ask.comparison? = none := by
  unfold linkAsks at h
  split at h
  · exact Link.comparison?_of_mem_asks h
  · cases h

/-- The collection of the rows that a filter on related rows is about.  (Where no link leads to
such rows the filter does not compile.) -/
def relatedCollection (c : Context) (collection : String) (parents : List String)
    (key : String) : String :=
  ((c.relatedLink? collection parents key).bind fun found => found.2.relation?).elim collection
    Relation.collection

theorem relatedCollection_eq {parents : List String} {key owner : String} {link : Link}
    {r : Relation} (h : c.relatedLink? collection parents key = some (owner, link))
    (hr : link.relation? = some r) : c.relatedCollection collection parents key = r.collection := by
  rw [relatedCollection, h, Option.bind_some, hr, Option.elim_some]

/-- What a filter on a collection asks, in the order in which it is written. -/
def asks (c : Context) (collection : String) (f : Filter) : List Ask :=
  (c.leaves collection [] f).attach.flatMap fun
    | ⟨.compared parents key comparisons, _⟩ =>
      comparisons.map (.compares collection (parents ++ [Text.trim key]))
    | ⟨.related parents key quantifier g, _⟩ =>
      c.linkAsks collection parents key quantifier ++
        c.asks (c.relatedCollection collection parents key) g
termination_by sizeOf f
decreasing_by
  rename_i hleaf
  exact sizeOf_lt_of_mem_leaves f hleaf

/-- What a leaf of a filter on a collection asks. -/
def leafAsks (c : Context) (collection : String) : Leaf → List Ask
  | .compared parents key comparisons =>
    comparisons.map (.compares collection (parents ++ [Text.trim key]))
  | .related parents key quantifier g =>
    c.linkAsks collection parents key quantifier ++
      c.asks (c.relatedCollection collection parents key) g

theorem asks_eq (f : Filter) :
    c.asks collection f = (c.leaves collection [] f).flatMap (c.leafAsks collection) := by
  have hleaf : (c.leaves collection [] f).flatMap (c.leafAsks collection) =
      (c.leaves collection [] f).attach.flatMap fun leaf => c.leafAsks collection leaf.1 := by
    conv_lhs => rw [← List.attach_map_subtype_val (c.leaves collection [] f), List.flatMap_map]
  rw [hleaf, asks]
  refine List.flatMap_congr fun ⟨leaf, _⟩ _ => ?_
  cases leaf <;> rfl

/-- Nothing that a filter compares is left out of what it asks, and nothing is asked twice. -/
theorem comparisons_of_asks (f : Filter) :
    ∀ collection, (c.asks collection f).filterMap Ask.comparison? = f.comparisons := by
  induction hsize : sizeOf f using Nat.strongRecOn generalizing f with
  | ind size ih =>
  intro collection
  rw [asks_eq, ← comparisons_of_leaves [] f, List.filterMap_flatMap]
  refine List.flatMap_congr fun leaf hleaf => ?_
  cases leaf with
  | compared parents key comparisons =>
    rw [leafAsks, Leaf.comparisons, List.filterMap_map]
    exact List.filterMap_some
  | related parents key quantifier g =>
    have hlink : (c.linkAsks collection parents key quantifier).filterMap Ask.comparison? = [] :=
      List.filterMap_eq_nil_iff.mpr fun ask => comparison?_of_mem_linkAsks
    rw [leafAsks, Leaf.comparisons, List.filterMap_append, hlink, List.nil_append]
    exact ih (sizeOf g) (hsize ▸ sizeOf_lt_of_mem_leaves f hleaf) g rfl _

/-- What the filter of a request asks. -/
def requestAsks (c : Context) (collection : String) (r : Request) : List Ask :=
  r.filter.toList.flatMap fun f => c.asks collection f.unfolded

/-- Nothing that the filter of a request compares is left out, and nothing is asked twice. -/
theorem comparisons_of_requestAsks (r : Request) :
    (c.requestAsks collection r).filterMap Ask.comparison? = r.comparisons := by
  rw [requestAsks, Request.comparisons, List.filterMap_flatMap]
  refine List.flatMap_congr fun f _ => ?_
  rw [comparisons_of_asks, Filter.comparisons_unfolded]

/-! ## Types -/

/-- The type of what a path from a collection resolves to: that of the field where its segments
lead, or the integers if it ends in a function of the field. -/
def typeAt? (c : Context) (collection : String) (path : List String) : Option FieldType := do
  let last ← path.getLast?
  let owner ← c.destination? collection path.dropLast
  let field ← (c.provider.field owner (splitFunction last).2).toOption.join
  return if (splitFunction last).1.isSome then .integer else field.type

/-- The column of a path has the type that the links tell. -/
theorem typeAt?_of_column {hops : Hops} {parents : List String} {segment : String} {column : Column}
    {k k' : Nat} (hleads : hops.Leads c collection) (hparents : IsPath parents)
    (h : (c.column hops collection (parents ++ [segment])).Gives k column k') :
    c.typeAt? collection (parents ++ [segment]) = some column.type ∧
      column.path = Hops.key (parents ++ [segment]) := by
  obtain ⟨last, place, field, hlast, hplace, hfield, hcolumn⟩ := column_gives h
  rw [List.dropLast_concat] at hplace
  rw [typeAt?, hlast, List.dropLast_concat, hleads.placeOf hparents hplace]
  simp only [Option.bind_eq_bind, Option.bind_some, hfield, Except.toOption, Option.join_some]
  rcases hcolumn with ⟨hnone, -, -, rfl⟩ | ⟨function, e, hsome, -, rfl⟩
  · rw [hnone]
    exact ⟨rfl, rfl⟩
  · rw [hsome]
    exact ⟨rfl, rfl⟩

/-- A column holds what its type says, also where it is a function. -/
theorem valueKind_of_column {hops : Hops} {path : List String} {column : Column} {k k' : Nat}
    (h : (c.column hops collection path).Gives k column k') :
    column.valueKind = column.type.valueKind := by
  obtain ⟨last, place, field, -, -, -, hcolumn⟩ := column_gives h
  rcases hcolumn with ⟨-, -, -, rfl⟩ | ⟨function, e, -, -, rfl⟩ <;> rfl

end Context

end JsonSql
