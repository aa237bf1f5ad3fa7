import JsonSql.Proofs.Nesting
import JsonSql.Proofs.Segments
import JsonSql.Proofs.Settled
import JsonSql.Proofs.Subqueries
import Mathlib.Data.List.Dedup
import Mathlib.Data.List.Infix
import Mathlib.Data.List.Perm.Subperm

set_option autoImplicit false

/-!
# Statements as long as their requests

Joins, queries after `IN` and counts of related rows are paid for by segments of a request.  A segment
that is not the last of its key pays for one join at most, the last one for one count, and a segment
that related rows are asked about pays for the query of their keys, whose joins the segments of its
own filter pay for (`takeAtMost_of_leavesIntroduce`).  So however the relations of a schema go round
in circles, compilation ends, and the statement is as long as the request at most
(`compile_bounded`).
-/

namespace JsonSql

open JsonSql.Sql

/-! ## What a statement is made of -/

section

variable (subqueries : List (Standing × Query))

/-- The number of joins in queries. -/
def joinsIn : Nat := (subqueries.map fun s => s.2.joins.length).sum

/-- The number of queries after `IN` or `NOT IN`. -/
def listsIn : Nat := subqueries.countP fun s => s.1 = .list

/-- The aliases of queries that stand as values. -/
def valuesIn : List (Option String) :=
  (subqueries.filter fun s => s.1 = .value).map fun s => s.2.source.bind TableRef.label

end

/-- The number of joins, of queries after `IN` and of queries that stand as values in a statement, at
any depth.  Values of the same alias are one. -/
def Sql.Query.extent (q : Query) : Nat :=
  q.joins.length + joinsIn q.subqueries + listsIn q.subqueries +
    (valuesIn q.subqueries).dedup.length

/-! ## Tallies -/

/-- Queries that stand as values without joins, under some of these aliases. -/
def OnlyCount (counted : List (Option String)) (subqueries : List (Standing × Query)) : Prop :=
  ∀ s ∈ subqueries, s.1 = .value ∧ s.2.joins = [] ∧ s.2.source.bind TableRef.label ∈ counted

/-- Queries with so many joins, queries after `IN` and values of different aliases at most. -/
def TakeAtMost (subqueries : List (Standing × Query)) (n : Nat) : Prop :=
  ∃ counted, valuesIn subqueries ⊆ counted ∧
    joinsIn subqueries + listsIn subqueries + counted.length ≤ n

section

variable {subqueries others : List (Standing × Query)} {counted more : List (Option String)}
  {n m : Nat}

theorem OnlyCount.nil : OnlyCount counted [] := fun _ hs => absurd hs List.not_mem_nil

theorem OnlyCount.mono (h : OnlyCount counted subqueries) (hsub : counted ⊆ more) :
    OnlyCount more subqueries :=
  fun s hs => ⟨(h s hs).1, (h s hs).2.1, hsub (h s hs).2.2⟩

theorem OnlyCount.append (h : OnlyCount counted subqueries) (h' : OnlyCount counted others) :
    OnlyCount counted (subqueries ++ others) :=
  fun s hs => (List.mem_append.mp hs).elim (h s) (h' s)

/-- One alias for each expression counts all of them. -/
theorem OnlyCount.exists_of_forall₂ {α : Type} {R : α → Expr → Prop} {names : List α}
    {es : List Expr} (hR : ∀ a e, R a e → ∃ label, OnlyCount [label] e.subqueries)
    (h : List.Forall₂ R names es) :
    ∃ counted, counted.length = names.length ∧
      OnlyCount counted (es.flatMap Expr.subqueries) := by
  induction h with
  | nil => exact ⟨[], rfl, .nil⟩
  | cons he _ ih =>
    obtain ⟨label, hfirst⟩ := hR _ _ he
    obtain ⟨counted, hlength, hrest⟩ := ih
    exact ⟨label :: counted, by rw [List.length_cons, hlength, List.length_cons],
      (hfirst.mono (by simp)).append (hrest.mono (List.subset_cons_self _ _))⟩

theorem TakeAtMost.nil : TakeAtMost [] 0 := ⟨[], List.nil_subset _, Nat.le_refl 0⟩

theorem TakeAtMost.mono (h : TakeAtMost subqueries n) (hle : n ≤ m) : TakeAtMost subqueries m := by
  obtain ⟨counted, hvalues, hsum⟩ := h
  exact ⟨counted, hvalues, Nat.le_trans hsum hle⟩

theorem TakeAtMost.append (h : TakeAtMost subqueries n) (h' : TakeAtMost others m) :
    TakeAtMost (subqueries ++ others) (n + m) := by
  obtain ⟨counted, hvalues, hsum⟩ := h
  obtain ⟨more, hmore, hsum'⟩ := h'
  refine ⟨counted ++ more, ?_, ?_⟩
  · rw [valuesIn, List.filter_append, List.map_append]
    exact List.append_subset.mpr ⟨List.subset_append_of_subset_left _ hvalues,
      List.subset_append_of_subset_right _ hmore⟩
  · simp only [joinsIn, listsIn, List.map_append, List.sum_append, List.countP_append,
      List.length_append] at hsum hsum' ⊢
    omega

theorem TakeAtMost.perm (h : TakeAtMost subqueries n) (hperm : subqueries.Perm others) :
    TakeAtMost others n := by
  obtain ⟨counted, hvalues, hsum⟩ := h
  refine ⟨counted, fun label hlabel => hvalues ?_, ?_⟩
  · exact ((hperm.filter _).map _).mem_iff.mpr hlabel
  · rw [joinsIn, listsIn, ← (hperm.map _).sum_eq, ← hperm.countP_eq]
    exact hsum

/-- A query after `IN` takes itself, its joins and what stands in it. -/
theorem TakeAtMost.list {q : Query} (h : TakeAtMost q.subqueries n) :
    TakeAtMost ((.list, q) :: q.subqueries) (1 + q.joins.length + n) := by
  obtain ⟨counted, hvalues, hsum⟩ := h
  refine ⟨counted, hvalues, ?_⟩
  have hlists : listsIn ((.list, q) :: q.subqueries) = listsIn q.subqueries + 1 :=
    List.countP_cons_of_pos rfl
  have hjoins : joinsIn ((.list, q) :: q.subqueries) = q.joins.length + joinsIn q.subqueries :=
    List.sum_cons
  omega

/-- Counts take as much as there are aliases. -/
theorem OnlyCount.takeAtMost (h : OnlyCount counted subqueries) :
    TakeAtMost subqueries counted.length := by
  refine ⟨counted, ?_, ?_⟩
  · intro label halias
    obtain ⟨s, hs, rfl⟩ := List.mem_map.mp halias
    exact (h s (List.mem_filter.mp hs).1).2.2
  · have hjoins : joinsIn subqueries = 0 := by
      refine List.sum_eq_zero fun n hn => ?_
      obtain ⟨s, hs, rfl⟩ := List.mem_map.mp hn
      rw [(h s hs).2.1, List.length_nil]
    have hlists : listsIn subqueries = 0 := by
      rw [listsIn, List.countP_eq_zero]
      intro s hs
      rw [(h s hs).1]
      decide
    omega

theorem Sql.Query.extent_le {q : Query} (h : TakeAtMost q.subqueries n) :
    q.extent ≤ q.joins.length + n := by
  obtain ⟨counted, hvalues, hsum⟩ := h
  have hdistinct : (valuesIn q.subqueries).dedup.length ≤ counted.length :=
    ((List.nodup_dedup _).subperm fun label halias =>
      hvalues (List.mem_dedup.mp halias)).length_le
  rw [Sql.Query.extent]
  omega

end

/-! ## Columns -/

theorem IsColumn.onlyCount {names : List String} {e : Expr} (h : IsColumn names e) :
    ∃ label, OnlyCount [label] e.subqueries := by
  rcases h.subqueries with hnone | ⟨q, hcount, hjoins⟩
  · exact ⟨none, by rw [hnone]; exact .nil⟩
  · refine ⟨q.source.bind TableRef.label, fun s hs => ?_⟩
    rw [hcount, List.mem_singleton] at hs
    rw [hs]
    exact ⟨rfl, hjoins, List.mem_singleton_self _⟩

theorem Context.ReadsAs.onlyCount {c : Context} {hops : Hops} {collection : String}
    {path : List String} {e : Expr} (h : c.ReadsAs hops collection path e) :
    ∃ label, OnlyCount [label] e.subqueries := by
  obtain ⟨k, column, k', hcolumn, rfl⟩ := h
  obtain ⟨place, -, hshape⟩ := (Context.column_issued hcolumn).1
  exact hshape.onlyCount

/-! ## Joins -/

/-- The prefixes of a path that are joined at most. -/
def joinable (path : List String) : List (List String) := path.dropLast.inits.tail

theorem mem_joinable {path before : List String} (hne : before ≠ [])
    (hbefore : before <+: path.dropLast) : before ∈ joinable path := by
  have hinits : path.dropLast.inits = [] :: joinable path := by
    rw [joinable]
    cases path.dropLast <;> rfl
  have hmem := (List.mem_inits before path.dropLast).mpr hbefore
  rw [hinits] at hmem
  exact (List.mem_cons.mp hmem).resolve_left hne

theorem length_joinable (path : List String) : (joinable path).length = path.length - 1 := by
  rw [joinable, List.length_tail, List.length_inits, List.length_dropLast, Nat.add_sub_cancel]

/-- There are no more joins than prefixes that are joined at most. -/
theorem Context.JoinsAlong.length_le {c : Context} {inner : Bool} {collection : String}
    {paths prefixes : List (List String)} {scope : Scope}
    (h : c.JoinsAlong inner collection paths scope)
    (hcovers : ∀ path ∈ paths, ∀ before, before ≠ [] → before <+: path.dropLast →
      before ∈ prefixes) :
    scope.query.joins.length ≤ prefixes.length := by
  obtain ⟨walked, hmatches⟩ := h
  have hlength : scope.query.joins.length = (walked.map Prod.fst).length := by
    have hjoined := congrArg List.length hmatches.joined
    rw [List.length_map, List.length_map] at hjoined
    rw [hjoined, List.length_map]
  rw [hlength]
  refine (hmatches.distinct.subperm fun before hbefore => ?_).length_le
  obtain ⟨entry, hentry, rfl⟩ := List.mem_map.mp hbefore
  obtain ⟨path, hpath, hwithin, -⟩ :=
    (hmatches.complete _).mp (List.mem_map_of_mem (f := Prod.fst) hentry)
  exact hcovers path hpath _ (hmatches.ne_nil hentry) hwithin

/-! ## Leaves -/

/-- The path that a leaf is under. -/
def Leaf.parents : Leaf → List String
  | .compared parents _ _ | .related parents _ _ _ => parents

/-- The number of segments that a leaf has to itself: its key and those of the filter on related
rows. -/
def Leaf.weight : Leaf → Nat
  | .compared _ _ _ => 1
  | .related _ _ _ f => 1 + f.segments.length

/-- Leaves below a path, with the prefixes of their parents beyond it, take so many segments at
most. -/
def PaidBy (parents : List String) (leaves : List Leaf) (n : Nat) : Prop :=
  ∃ prefixes : List (List String),
    (∀ leaf ∈ leaves, ∀ before, before <+: leaf.parents →
      before <+: parents ∨ before ∈ prefixes) ∧
    prefixes.length + (leaves.map Leaf.weight).sum ≤ n

section

variable {parents : List String} {leaves others : List Leaf} {n m : Nat}

theorem PaidBy.nil (parents : List String) (n : Nat) : PaidBy parents [] n :=
  ⟨[], fun _ hleaf => absurd hleaf List.not_mem_nil, Nat.zero_le n⟩

theorem PaidBy.append (h : PaidBy parents leaves n) (h' : PaidBy parents others m) :
    PaidBy parents (leaves ++ others) (n + m) := by
  obtain ⟨prefixes, hcovers, hsum⟩ := h
  obtain ⟨more, hmore, hsum'⟩ := h'
  refine ⟨prefixes ++ more, fun leaf hleaf before hbefore => ?_, ?_⟩
  · rcases List.mem_append.mp hleaf with hleaf | hleaf
    · exact (hcovers leaf hleaf before hbefore).imp_right (List.mem_append_left _)
    · exact (hmore leaf hleaf before hbefore).imp_right (List.mem_append_right _)
  · rw [List.length_append, List.map_append, List.sum_append]
    omega

/-- A leaf at a path has no prefixes beyond it. -/
theorem PaidBy.leaf {leaf : Leaf} (hparents : leaf.parents = parents) (hweight : leaf.weight ≤ n) :
    PaidBy parents [leaf] n := by
  refine ⟨[], fun other hother before hbefore => .inl ?_, ?_⟩
  · rw [List.mem_singleton.mp hother, hparents] at hbefore
    exact hbefore
  · simpa using hweight

/-- One more segment pays for the path that it leads to. -/
theorem PaidBy.below {segment : String} (h : PaidBy (parents ++ [segment]) leaves n) :
    PaidBy parents leaves (n + 1) := by
  obtain ⟨prefixes, hcovers, hsum⟩ := h
  refine ⟨(parents ++ [segment]) :: prefixes, fun leaf hleaf before hbefore => ?_, ?_⟩
  · rcases hcovers leaf hleaf before hbefore with hwithin | hmem
    · rcases List.prefix_concat_iff.mp hwithin with rfl | hwithin
      · exact .inr List.mem_cons_self
      · exact .inl hwithin
    · exact .inr (List.mem_cons_of_mem _ hmem)
  · rw [List.length_cons]
    omega

end

namespace Context

variable {c : Context} {collection : String}

mutual
/-- The leaves of a filter are paid for by its segments. -/
theorem paidBy_leaves (parents : List String) (f : Filter) :
    PaidBy parents (c.leaves collection parents f) f.segments.length := by
  obtain ⟨clauses⟩ := f
  rw [leaves, Filter.segments]
  exact paidBy_clausesLeaves parents clauses

theorem paidBy_clausesLeaves (parents : List String) (clauses : List Clause) :
    PaidBy parents (c.clausesLeaves collection parents clauses)
      (clausesSegments clauses).length := by
  cases clauses with
  | nil =>
    rw [clausesLeaves]
    exact .nil parents _
  | cons clause rest =>
    rw [clausesLeaves, clausesSegments, List.length_append]
    exact (paidBy_clauseLeaves parents clause).append (paidBy_clausesLeaves parents rest)

theorem paidBy_clauseLeaves (parents : List String) (clause : Clause) :
    PaidBy parents (c.clauseLeaves collection parents clause) clause.segments.length := by
  cases clause with
  | all filters =>
    rw [clauseLeaves, Clause.segments]
    exact paidBy_filtersLeaves parents filters
  | any filters =>
    rw [clauseLeaves, Clause.segments]
    split
    · exact .nil parents _
    · exact paidBy_filtersLeaves parents filters
  | field key condition =>
    rw [clauseLeaves, Clause.segments, List.length_cons]
    exact paidBy_conditionLeaves parents key condition

theorem paidBy_filtersLeaves (parents : List String) (filters : List Filter) :
    PaidBy parents (c.filtersLeaves collection parents filters)
      (filtersSegments filters).length := by
  cases filters with
  | nil =>
    rw [filtersLeaves]
    exact .nil parents _
  | cons f rest =>
    rw [filtersLeaves, filtersSegments, List.length_append]
    exact (paidBy_leaves parents f).append (paidBy_filtersLeaves parents rest)

theorem paidBy_conditionLeaves (parents : List String) (key : String)
    (condition : FieldCondition) :
    PaidBy parents (c.conditionLeaves collection parents key condition)
      (condition.segments.length + 1) := by
  cases condition with
  | compare comparisons =>
    rw [conditionLeaves]
    exact .leaf rfl (Nat.le_add_left 1 _)
  | nested f =>
    rw [conditionLeaves, FieldCondition.segments]
    split
    · exact .leaf rfl (Nat.le_of_eq (Nat.add_comm _ _))
    · exact (paidBy_leaves (parents ++ [Text.trim key]) f).below
  | quantified quantifier f =>
    rw [conditionLeaves, FieldCondition.segments]
    exact .leaf rfl (Nat.le_of_eq (Nat.add_comm _ _))
end

/-- The parents of a path that is joined for a leaf are those of the leaf. -/
theorem dropLast_of_mem_leafPaths {leaf : Leaf} {path : List String}
    (h : path ∈ c.leafPaths collection leaf) : path.dropLast = leaf.parents := by
  cases leaf with
  | compared parents key comparisons | related parents key quantifier f =>
    rw [leafPaths] at h
    split at h
    · cases h
    · rw [List.mem_singleton.mp h, List.dropLast_concat]
      rfl

/-- The segments of a filter pay for the joins of its paths as well. -/
theorem exists_prefixes (c : Context) (collection : String) (f : Filter) :
    ∃ prefixes : List (List String),
      (∀ path ∈ c.filterPaths collection [] f, ∀ before, before ≠ [] → before <+: path.dropLast →
        before ∈ prefixes) ∧
      prefixes.length + ((c.leaves collection [] f).map Leaf.weight).sum ≤ f.segments.length := by
  have hpaid : PaidBy [] (c.leaves collection [] f) f.segments.length := c.paidBy_leaves [] f
  obtain ⟨prefixes, hcovers, hsum⟩ := hpaid
  refine ⟨prefixes, fun path hpath before hne hbefore => ?_, hsum⟩
  rw [filterPaths_eq, List.mem_flatMap] at hpath
  obtain ⟨leaf, hleaf, hpath⟩ := hpath
  rw [dropLast_of_mem_leafPaths hpath] at hbefore
  exact (hcovers leaf hleaf before hbefore).resolve_left fun hnil =>
    hne (List.prefix_nil.mp hnil)

end Context

/-- The conditions of leaves take what the leaves have to themselves.  The query about related rows
has joins of its own, for which the segments of its filter pay. -/
theorem takeAtMost_of_leavesIntroduce {c : Context} {hops : Hops} {collection : String}
    {leaves : List Leaf} {predicates : List Expr} {aliases : List String}
    (h : LeavesIntroduce c hops collection leaves predicates aliases) :
    TakeAtMost (predicates.flatMap Expr.subqueries) (leaves.map Leaf.weight).sum := by
  induction h with
  | nil => exact .nil
  | @compared hops collection parents key comparisons leaves column parts predicates aliases
      hreads hparts hrest ih =>
    obtain ⟨place, -, hcolumn⟩ := hreads
    obtain ⟨label, hcount⟩ := hcolumn.onlyCount
    have hcopies : OnlyCount [label] (parts.flatMap Expr.subqueries) := by
      intro s hs
      obtain ⟨e, he, hs⟩ := List.mem_flatMap.mp hs
      rw [(hparts e he).subqueries] at hs
      exact hcount s hs
    rw [List.flatMap_append, List.map_cons, List.sum_cons]
    exact hcopies.takeAtMost.append ih
  | @related hops collection parents key quantifier f leaves names owner link r polymorphic subject
      known scope e? predicates inner aliases hkey hreferring hlinked hjoins hinner hrest ihinner
      ihrest =>
    obtain ⟨prefixes, hcovers, hsum⟩ := c.exists_prefixes r.collection f
    have hlength := hjoins.length_le hcovers
    have hinside : TakeAtMost
        (r.keysWith scope.query.joins (known.and? e?)).subqueries
        ((c.leaves r.collection [] f).map Leaf.weight).sum := by
      have hknown : known.subqueries = [] := by
        cases hreferring with
        | plain r => rw [Expr.subqueries, subqueries_of]
        | polymorphic r hcolumn => simp [Expr.both, Expr.equals, Expr.string, Expr.subqueries,
            subqueries_of]
      rw [Query.subqueries_eq]
      simp only [Relation.keysWith, List.map_cons, List.map_nil, List.flatMap_cons,
        List.flatMap_nil, subqueries_of, hlinked.subqueries, Option.toList_some, predicates_and?,
        List.flatMap_append, subqueries_predicates, hknown, List.append_nil, List.nil_append]
      exact ihinner
    rw [List.flatMap_cons, List.map_cons, List.sum_cons, Expr.subqueries, hkey.subqueries,
      List.nil_append]
    refine (TakeAtMost.list hinside).append ihrest |>.mono ?_
    rw [Leaf.weight]
    have hown : (r.keysWith scope.query.joins (known.and? e?)).joins = scope.query.joins := rfl
    rw [hown]
    omega

/-! ## Segments -/

theorem Clause.length_segments_along {condition : FieldCondition} {segments : List String}
    (h : segments ≠ []) : (Clause.along segments condition).segments.length =
      segments.length + condition.segments.length := by
  induction segments with
  | nil => exact absurd rfl h
  | cons segment rest ih =>
    cases rest with
    | nil =>
      rw [Clause.along, Clause.segments, List.length_cons, List.length_singleton, Nat.add_comm]
    | cons next more =>
      have hrest := ih (List.cons_ne_nil next more)
      rw [Clause.along_cons (List.cons_ne_nil next more), Clause.segments, FieldCondition.segments,
        Filter.of, Filter.segments, clausesSegments, clausesSegments, List.append_nil,
        List.length_cons, hrest]
      simp only [List.length_cons]
      omega

mutual
/-- Unfolding takes a dotted key apart into its segments. -/
theorem Filter.length_segments (f : Filter) : f.unfolded.segments.length = f.segmentCount := by
  obtain ⟨clauses⟩ := f
  rw [Filter.unfolded, Filter.segments, Filter.segmentCount, length_clausesSegments clauses]

theorem length_clausesSegments (clauses : List Clause) :
    (clausesSegments (Filter.unfoldedClauses clauses)).length = clausesSegmentCount clauses := by
  cases clauses with
  | nil => rfl
  | cons clause rest =>
    rw [Filter.unfoldedClauses, clausesSegments, clausesSegmentCount, List.length_append,
      clause.length_segments, length_clausesSegments rest]

theorem Clause.length_segments (clause : Clause) :
    clause.unfolded.segments.length = clause.segmentCount := by
  cases clause with
  | all filters | any filters =>
    rw [Clause.unfolded, Clause.segments, Clause.segmentCount, length_filtersSegments filters]
  | field key condition =>
    rw [Clause.unfolded, Clause.length_segments_along (Text.split_ne_nil '.' key),
      Clause.segmentCount, condition.length_segments]

theorem length_filtersSegments (filters : List Filter) :
    (filtersSegments (Filter.unfoldedAll filters)).length = filtersSegmentCount filters := by
  cases filters with
  | nil => rfl
  | cons f rest =>
    rw [Filter.unfoldedAll, filtersSegments, filtersSegmentCount, List.length_append,
      f.length_segments, length_filtersSegments rest]

theorem FieldCondition.length_segments (condition : FieldCondition) :
    condition.unfolded.segments.length = condition.segmentCount := by
  cases condition with
  | compare comparisons => rfl
  | nested f | quantified quantifier f =>
    rw [FieldCondition.unfolded, FieldCondition.segments, FieldCondition.segmentCount,
      f.length_segments]
end

theorem length_fieldPath (key : String) : (fieldPath key).length = (Text.split '.' key).length :=
  List.length_map _

/-- A minus in front of a key is part of its first segment. -/
theorem length_sortPath (entry : String) :
    (sortPath entry).length = (Text.split '.' entry).length := by
  rw [sortPath, length_fieldPath]
  cases hminus : Text.after? "-" entry with
  | none => rfl
  | some key =>
    obtain ⟨cs, hcs, rfl⟩ := Option.map_eq_some_iff.mp hminus
    have hentry : entry.toList = '-' :: cs := Text.append_of_dropBeginning? hcs
    rw [Option.getD_some, Text.split, Text.split, String.toList_ofList, hentry, List.length_map,
      List.length_map, Text.splitChars, if_neg (by decide)]
    cases hpieces : Text.splitChars '.' cs with
    | nil => exact absurd hpieces (Text.splitChars_ne_nil '.' cs)
    | cons piece pieces => rfl

/-- The segments of a request are those of its filter and of its paths. -/
theorem Request.segmentCount_eq (r : Request) :
    r.segmentCount = (r.filter.toList.map fun f => f.unfolded.segments.length).sum +
      (r.fieldPaths.map List.length).sum := by
  have hkeys : r.fieldPaths.map List.length =
      (r.sort ++ r.group ++ r.aggregate.flatMap Prod.snd).map fun key =>
        (Text.split '.' key).length := by
    rw [fieldPaths, List.map_append, List.map_append, List.map_map, List.map_map, List.map_map,
      List.map_append, List.map_append]
    refine congrArg₂ _ (congrArg₂ _ ?_ ?_) ?_ <;> refine List.map_congr_left fun key _ => ?_
    · exact length_sortPath key
    · exact length_fieldPath key
    · exact length_fieldPath key
  rw [Request.segmentCount, hkeys]
  simp only [Filter.length_segments]

theorem Request.length_pos_of_mem_fieldPaths {r : Request} {path : List String}
    (h : path ∈ r.fieldPaths) : 0 < path.length := by
  have hsome (key : String) : 0 < (fieldPath key).length := by
    rw [length_fieldPath]
    exact List.length_pos_iff.mpr (Text.split_ne_nil '.' key)
  simp only [Request.fieldPaths, List.mem_append, List.mem_map] at h
  rcases h with (⟨entry, -, rfl⟩ | ⟨key, -, rfl⟩) | ⟨key, -, rfl⟩
  · exact hsome _
  · exact hsome key
  · exact hsome key

/-- A path pays for its joins and for one count. -/
theorem sum_length_joinable {paths : List (List String)} (h : ∀ path ∈ paths, 0 < path.length) :
    (paths.flatMap joinable).length + paths.length = (paths.map List.length).sum := by
  induction paths with
  | nil => rfl
  | cons path rest ih =>
    have hfirst := h path List.mem_cons_self
    have hrest := ih fun p hp => h p (List.mem_cons_of_mem _ hp)
    rw [List.flatMap_cons, List.length_append, length_joinable, List.length_cons, List.map_cons,
      List.sum_cons]
    omega

/-! ## Statements -/

namespace Sql.Query.ReadsBy

variable {R : List String → Expr → Prop} {base : List Item} {r : Request} {q : Query}

/-- An entry of an aggregate counts once for each of its fields. -/
theorem onlyCount_entry {entry : Aggregation × List String} {items : List Item}
    (hR : ∀ path e, R path e → ∃ label, OnlyCount [label] e.subqueries)
    (h : Aggregation.ReadBy R entry items) :
    ∃ counted, counted.length ≤ entry.2.length ∧
      OnlyCount counted ((items.map Item.expr).flatMap Expr.subqueries) := by
  rcases h with ⟨-, hrows⟩ | hfields
  · refine ⟨[], Nat.zero_le _, ?_⟩
    rw [hrows, List.flatMap_singleton, subqueries_countRows]
    exact .nil
  · have hcolumn : ∀ (field : String) (e : Expr), (field = "*" ∧ e.selects = [] ∨
        ∃ column, R (fieldPath field) column ∧ e = entry.1.apply column) →
        ∃ label, OnlyCount [label] e.subqueries := by
      rintro field e (⟨-, hnone⟩ | ⟨column, hread, rfl⟩)
      · exact ⟨none, by rw [Expr.subqueries_eq_nil hnone]; exact .nil⟩
      · rw [subqueries_aggregation]
        exact hR _ _ hread
    obtain ⟨counted, hlength, hcount⟩ :=
      OnlyCount.exists_of_forall₂ hcolumn (List.forall₂_map_right_iff.mpr hfields)
    exact ⟨counted, Nat.le_of_eq hlength, hcount⟩

theorem onlyCount_entries {aggregate : List (Aggregation × List String)}
    {summed : List (List Item)}
    (hR : ∀ path e, R path e → ∃ label, OnlyCount [label] e.subqueries)
    (h : List.Forall₂ (Aggregation.ReadBy R) aggregate summed) :
    ∃ counted, counted.length ≤ (aggregate.flatMap Prod.snd).length ∧
      OnlyCount counted ((summed.flatten.map Item.expr).flatMap Expr.subqueries) := by
  induction h with
  | nil => exact ⟨[], Nat.zero_le _, .nil⟩
  | @cons entry items aggregate summed hentry hrest ih =>
    obtain ⟨counted, hlength, hcount⟩ := onlyCount_entry hR hentry
    obtain ⟨more, hmore, hothers⟩ := ih
    refine ⟨counted ++ more, ?_, ?_⟩
    · rw [List.length_append, List.flatMap_cons, List.length_append]
      omega
    · rw [List.flatten_cons, List.map_append, List.flatMap_append]
      exact (hcount.mono (List.subset_append_left _ _)).append
        (hothers.mono (List.subset_append_right _ _))

end Sql.Query.ReadsBy

/-- The projections of groups are the expressions that are grouped by. -/
theorem map_expr_zipWith {keys : List String} {es : List Expr} (h : keys.length = es.length) :
    (List.zipWith (fun key e => (⟨e, some key⟩ : Item)) keys es).map Item.expr = es := by
  rw [List.map_zipWith]
  exact List.ext_getElem (by simp [h]) fun i _ _ => by simp

/-- The conditions of the leaves of a filter take what the leaves have to themselves. -/
theorem Context.takeAtMost_requestLeaves {c : Context} {collection : String} {r : Request}
    {hops : Hops} {filtered : List Expr} {k k' : Nat}
    (h : c.LeavesGive hops collection (c.requestLeaves collection r) k filtered k') :
    TakeAtMost (filtered.flatMap Expr.subqueries)
      ((c.requestLeaves collection r).map Leaf.weight).sum := by
  have hunfolded : ∀ leaf ∈ c.requestLeaves collection r, leaf.IsUnfolded := by
    intro leaf hleaf
    obtain ⟨f, -, hmem⟩ := List.mem_flatMap.mp hleaf
    exact isUnfolded_of_mem_leaves f.unfolded isPath_nil (isUnfolded_unfolded f) leaf hmem
  obtain ⟨aliases, hintroduce, -⟩ := c.leavesIntroduce_of_leavesGive
    (r.filter.toList.map fun f => sizeOf f.unfolded).sum hunfolded (fun _ _ _ g hg => by
      obtain ⟨f, hf, hmem⟩ := List.mem_flatMap.mp hg
      rw [Option.mem_toList] at hf
      rw [hf, Option.toList_some, List.map_singleton, List.sum_singleton]
      exact sizeOf_lt_of_mem_leaves f.unfolded hmem) h
  exact takeAtMost_of_leavesIntroduce hintroduce

/-- Of what stands in a statement outside its joins, each path that is read pays for one count, and
the leaves of the filter pay for the rest. -/
theorem Scope.Reads.takeAtMost {c : Context} {collection : String} {base : List Item}
    {paths : List (List String)} {r : Request} {scope : Scope}
    (h : Scope.Reads c collection base paths r scope)
    (hstatement : IsStatement collection scope.query)
    (hbase : (base.map Item.expr).flatMap Expr.subqueries = []) :
    TakeAtMost scope.query.subqueries
      (r.fieldPaths.length + ((c.requestLeaves collection r).map Leaf.weight).sum) := by
  have hread : ∀ path e, IsPath path ∧ c.ReadsAs scope.hops collection path e →
      ∃ label, OnlyCount [label] e.subqueries := fun path e hread => hread.2.onlyCount
  obtain ⟨ordered, hordered, horders⟩ := OnlyCount.exists_of_forall₂
    (fun entry e he => hread (sortPath entry) e he)
    (List.forall₂_map_right_iff.mpr (h.reads.orders.imp fun _ _ ho => ho.2))
  obtain ⟨grouped, hgrouped, hgroups⟩ := OnlyCount.exists_of_forall₂
    (fun key e he => hread (fieldPath key) e he) h.reads.groups
  obtain ⟨projected, summed, hitems, hprojected, hsummed⟩ := h.reads.items
  obtain ⟨added, hadded, hsums⟩ := Sql.Query.ReadsBy.onlyCount_entries hread hsummed
  obtain ⟨searched, filtered, hops, k, k', hcondition, hsearched, -, hleaves⟩ := h.asks
  -- a group is projected as well, by the same expression
  have hitemsIn : (scope.query.items.map Item.expr).flatMap Expr.subqueries =
      scope.query.groups.flatMap Expr.subqueries ++
        (summed.flatten.map Item.expr).flatMap Expr.subqueries := by
    rw [hitems, List.map_append, List.map_append, List.flatMap_append, List.flatMap_append, hbase,
      List.nil_append, hprojected, map_expr_zipWith h.reads.groups.length_eq]
  have hcounts : OnlyCount (grouped ++ added)
      ((scope.query.items.map Item.expr).flatMap Expr.subqueries ++
        scope.query.groups.flatMap Expr.subqueries) := by
    have hboth := hgroups.mono (List.subset_append_left grouped added)
    rw [hitemsIn]
    exact (hboth.append (hsums.mono (List.subset_append_right _ _))).append hboth
  have hasked : TakeAtMost ((scope.query.condition.toList.flatMap Expr.predicates).flatMap
      Expr.subqueries) ((c.requestLeaves collection r).map Leaf.weight).sum := by
    have hnone : searched.flatMap Expr.subqueries = [] := by
      rw [List.flatMap_eq_nil_iff] at hsearched ⊢
      exact fun e he => Expr.subqueries_eq_nil (hsearched e he)
    rw [hcondition, List.flatMap_append, hnone, List.nil_append]
    exact c.takeAtMost_requestLeaves hleaves
  rw [Query.subqueries_eq, hstatement.joins.subqueries, List.append_nil]
  refine ((hcounts.takeAtMost.append (horders.takeAtMost.append hasked)).perm ?_).mono ?_
  · classical
    rw [List.perm_iff_count]
    intro s
    simp only [List.count_append]
    omega
  · rw [List.length_append, Request.fieldPaths, List.length_append, List.length_append,
      List.length_map, List.length_map, List.length_map]
    omega

/-- The joins of a statement are paid for by the segments of its paths but the last of each, and by
segments that the leaves of its filter leave. -/
theorem Scope.Reads.joins_le {c : Context} {collection : String} {base : List Item} {r : Request}
    {scope : Scope} (h : Scope.Reads c collection base (c.walkedPaths collection r) r scope) :
    scope.query.joins.length + ((c.requestLeaves collection r).map Leaf.weight).sum ≤
      (r.fieldPaths.flatMap joinable).length +
        (r.filter.toList.map fun f => f.unfolded.segments.length).sum := by
  obtain ⟨prefixes, hcovers, hsum⟩ : ∃ prefixes : List (List String),
      (∀ path ∈ c.requestPaths collection r, ∀ before, before ≠ [] → before <+: path.dropLast →
        before ∈ prefixes) ∧
      prefixes.length + ((c.requestLeaves collection r).map Leaf.weight).sum ≤
        (r.filter.toList.map fun f => f.unfolded.segments.length).sum := by
    rw [Context.requestPaths, Context.requestLeaves]
    cases r.filter with
    | none => exact ⟨[], fun _ hpath => absurd hpath List.not_mem_nil, Nat.le_refl 0⟩
    | some f =>
      rw [Option.toList_some, List.flatMap_singleton, List.flatMap_singleton, List.map_singleton,
        List.sum_singleton]
      exact c.exists_prefixes collection f.unfolded
  have hjoins : scope.query.joins.length ≤
      (r.fieldPaths.flatMap joinable ++ prefixes).length := h.joins.length_le (by
    intro path hpath before hne hbefore
    have hfield (hmem : path ∈ r.fieldPaths) :
        before ∈ r.fieldPaths.flatMap joinable ++ prefixes :=
      List.mem_append_left _ (List.mem_flatMap.mpr ⟨path, hmem, mem_joinable hne hbefore⟩)
    simp only [Context.walkedPaths, List.mem_append] at hpath
    rcases hpath with (hpath | hpath) | hpath
    · exact hfield (List.mem_append_left _ (List.mem_append.mpr hpath))
    · exact List.mem_append_right _ (hcovers path hpath before hne hbefore)
    · exact hfield (List.mem_append_right _ hpath))
  rw [List.length_append] at hjoins
  omega

/-- However the relations of a schema lead on, a request is added within as many levels of statements
as its keys have segments, and one more.  A statement that it compiles to has no more joins, queries
after `IN` and different counts of rows, at any depth, than there are segments in the keys of its
filter, its sort keys, its group keys and its aggregated fields. -/
theorem compile_bounded (s : Schema) (options : Options) (letters : Alias.Letters)
    (collection : String) (r : Request) :
    let c := s.context options (s.compiler options letters).names
    (∀ deeper levels, r.segmentCount < levels → ∀ q inner,
      c.applyWithin deeper levels collection q r inner = c.apply collection q r inner) ∧
    ∀ q, (s.compiler options letters).compile collection r = .ok q →
      q.extent ≤ r.segmentCount := by
  intro c
  refine ⟨fun deeper levels hlevels q inner => Context.applyWithin_eq deeper ?_ collection q inner,
    fun q h => ?_⟩
  · exact Nat.lt_of_le_of_lt (Nat.le_add_right _ _) hlevels
  · obtain ⟨hops, hreads⟩ := Scope.Reads.of_compile h
    have hbase : ((Compiler.target collection r).items.map Item.expr).flatMap Expr.subqueries =
        [] := by
      unfold Compiler.target
      dsimp only
      split
      · rfl
      · simp [Query.selectAllOf, Expr.subqueries]
    have hextent := Sql.Query.extent_le (hreads.takeAtMost (isStatement_of_compile h) hbase)
    have hjoins := hreads.joins_le
    have hpaths := sum_length_joinable fun path hpath =>
      r.length_pos_of_mem_fieldPaths hpath
    rw [Request.segmentCount_eq]
    dsimp only at hextent hjoins
    omega

/-- Folders in folders. -/
def Schema.folders : Schema where
  collections := [
    { info := { name := "folders", primary := "id" }
      fields := [⟨"id", .integer, [], none⟩, ⟨"name", .string, [], none⟩,
        ⟨"parent", .integer, [], none⟩, ⟨"children", .virtual, ["o2m"], none⟩] }]
  relations := [
    { collection := "folders", field := "parent", related := some "folders"
      info := { oneField := some "children" } }]

/-- Folders with a folder in them that goes round in circles, by the names two folders up. -/
def Request.folders : Request where
  filter := some (.of (.field "children.parent.children"
    (.quantified .none (.of (.field "parent.parent.name" (.compare [⟨.null true, none⟩]))))))
  sort := ["-parent.parent.name", "count(children)"]

theorem compile_bounded_folders :
    let c := Schema.folders.context {} (Schema.folders.compiler {} fun _ => 0).names
    Schema.folders.validate.isOk = true ∧ Request.folders.segmentCount = 10 ∧
      (∀ deeper q inner, c.applyWithin deeper 11 "folders" q .folders inner =
        c.apply "folders" q .folders inner) ∧
      ∃ q, (Schema.folders.compiler {} fun _ => 0).compile "folders" .folders = .ok q ∧
        q.extent = 8 ∧ q.extent ≤ Request.folders.segmentCount := by
  intro c
  obtain ⟨hlevels, hextent⟩ := compile_bounded Schema.folders {} (fun _ => 0) "folders" .folders
  obtain ⟨q, hq, height⟩ : ∃ q,
      (Schema.folders.compiler {} fun _ => 0).compile "folders" .folders = .ok q ∧ q.extent = 8 :=
    Compiler.exists_compile_with (by decide +kernel)
  exact ⟨by decide +kernel, by decide +kernel,
    fun deeper q inner => hlevels deeper 11 (by decide +kernel) q inner,
    q, hq, height, hextent q hq⟩

end JsonSql
