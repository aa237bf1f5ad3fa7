import JsonSql.Proofs.Destinations
import JsonSql.Proofs.Projections

set_option autoImplicit false

/-!
# What every SELECT projects

The statements in a compiled statement, at any depth, each project something: the count of related
rows projects a number, and the statement of related rows their keys.  The statement itself projects
every column of its collection, or what the groups and the aggregations of the request ask for, one
by one; each of these sums up its group or is grouped by (`projected_of_compile`).  So it projects
nothing at all where aggregations are asked for, but of no field (`Request.ProjectsNothing`).
-/

namespace JsonSql

open JsonSql.Sql

/-! ## Statements in shapes -/

/-- Every statement in an expression projects something. -/
def Sql.Expr.Projects (e : Expr) : Prop := ∀ select ∈ e.selects, select.items ≠ []

section Shapes

variable {names : List String} {column e : Expr}

theorem Sql.Expr.Projects.of_selects (h : e.selects = []) : e.Projects := by
  intro select hselect
  rw [h] at hselect
  cases hselect

theorem Sql.Expr.Projects.binary {op : BinaryOp} {left right : Expr} (hleft : left.Projects)
    (hright : right.Projects) : (Expr.binary op left right).Projects := by
  intro select hselect
  rw [Expr.selects] at hselect
  exact (List.mem_append.mp hselect).elim (hleft select) (hright select)

/-- The statements in a statement, other than itself, are those in its parts. -/
theorem Sql.Query.projects_of_mem_tail {q : Query} (hparts : ∀ e ∈ q.parts, e.Projects) :
    ∀ select ∈ q.selects.tail, select.items ≠ [] := by
  intro select hselect
  rw [Query.selects_parts, List.tail_cons, List.mem_flatMap] at hselect
  obtain ⟨e, he, hselect⟩ := hselect
  exact hparts e he select hselect

theorem Sql.Query.projects {q : Query} (hitems : q.items ≠ [])
    (hparts : ∀ e ∈ q.parts, e.Projects) : ∀ select ∈ q.selects, select.items ≠ [] := by
  intro select hselect
  have hsplit : q.selects = q :: q.selects.tail := by rw [Query.selects_parts, List.tail_cons]
  rw [hsplit, List.mem_cons] at hselect
  rcases hselect with rfl | hselect
  · exact hitems
  · exact Query.projects_of_mem_tail hparts select hselect

/-- The parts of a statement project something where its projections, its joins, its condition, its
groups and its ordering do. -/
theorem Sql.Query.projects_of_mem_parts {q : Query} (hitems : ∀ item ∈ q.items, item.expr.Projects)
    (hjoins : ∀ join ∈ q.joins, join.condition.Projects)
    (hcondition : ∀ e ∈ q.condition, e.Projects) (hgroups : ∀ e ∈ q.groups, e.Projects)
    (horders : ∀ o ∈ q.orders, o.expr.Projects) : ∀ e ∈ q.parts, e.Projects := by
  intro e he
  simp only [Query.parts, List.mem_append, List.mem_map, List.mem_flatMap] at he
  rcases he with (((⟨item, hitem, rfl⟩ | ⟨join, hjoin, rfl⟩) | ⟨whole, hwhole, he⟩) | he) |
    ⟨o, ho, rfl⟩
  · exact hitems item hitem
  · exact hjoins join hjoin
  · intro select hselect
    refine hcondition whole (Option.mem_toList.mp hwhole) select ?_
    rw [← selects_predicates]
    exact List.mem_flatMap.mpr ⟨e, he, hselect⟩
  · exact hgroups e he
  · exact horders o ho

/-- A column counts the rows of a link, or holds no statement. -/
theorem IsColumn.projects (h : IsColumn names e) : e.Projects := by
  cases h with
  | plain name _ => exact .of_selects (selects_of _ name)
  | part d part kind name _ => exact .of_selects (IsFunctionOf.part d part kind).selects
  | jsonLength d name _ he => exact .of_selects (IsFunctionOf.length he).selects
  | count _ hcount =>
    intro select hselect
    cases hcount with
    | mk collection name hlink =>
      rw [selects_counted hlink.selects, List.mem_singleton] at hselect
      rw [hselect]
      exact List.cons_ne_nil _ _

theorem IsKey.projects (h : IsKey names e) : e.Projects := by
  cases h with
  | plain name _ => exact .of_selects (selects_of _ name)
  | text name _ => exact .of_selects (by rw [Expr.selects, selects_of])

theorem AreLinked.projects {joins : List Join} (h : AreLinked names joins) :
    ∀ join ∈ joins, join.condition.Projects := by
  induction joins generalizing names with
  | nil => exact nofun
  | cons join rest ih =>
    obtain ⟨target, condition⟩ := join
    obtain ⟨hlink, hrest⟩ := h
    exact List.forall_mem_cons.mpr ⟨.of_selects hlink.selects, ih hrest⟩

/-- The statements in a condition, which its existential conditions ask about, project keys. -/
theorem IsCondition.projects (h : IsCondition names e) : e.Projects := by
  induction h with
  | predicate hcolumn hpredicate =>
    intro select hselect
    rw [hpredicate.selects] at hselect
    exact hcolumn.projects select hselect
  | never names => exact .of_selects (by simp [Expr.equals, Expr.int, Expr.selects])
  | both _ _ _ _ ihleft ihright | either _ _ ihleft ihright => exact ihleft.binary ihright
  | paren _ ih =>
    intro select hselect
    rw [Expr.selects] at hselect
    exact ih select hselect
  | existential collection field negated hkey hjoins _ ih =>
    intro select hselect
    rw [Expr.selects, List.mem_append] at hselect
    rcases hselect with hselect | hselect
    · exact hkey.projects select hselect
    · -- the statement of related rows projects their key, and joins and asks on
      refine Query.projects (List.cons_ne_nil _ _)
        (Query.projects_of_mem_parts (fun item hitem => ?_) hjoins.projects (fun e he => ?_)
          (List.forall_mem_nil _) (List.forall_mem_nil _)) select hselect
      · rw [List.mem_singleton.mp hitem]
        exact .of_selects (selects_of collection field)
      · cases he
        exact ih

theorem IsItem.projects (h : IsItem names e) : e.Projects := by
  cases h with
  | table _ => exact .of_selects (by rw [Expr.selects])
  | column hcolumn => exact hcolumn.projects
  | rows => exact .of_selects selects_countRows
  | aggregation a hcolumn =>
    intro select hselect
    rw [(IsReading.aggregation a).selects] at hselect
    exact hcolumn.projects select hselect

/-- The parts of a statement of the shape of compiled ones project something. -/
theorem IsStatement.projects_parts {collection : String} {q : Query}
    (h : IsStatement collection q) : ∀ e ∈ q.parts, e.Projects :=
  Query.projects_of_mem_parts (fun item hitem => (h.items item hitem).projects) h.joins.projects
    (fun e he => (h.condition e he).projects) (fun e he => (h.groups e he).projects)
    fun o ho => (h.orders o ho).projects

end Shapes

/-! ## What requests ask for -/

/-- The names of the results of an entry of an aggregate: one for each field, but whole rows are
counted once. -/
def Aggregation.resultNames : Aggregation × List String → List String
  | (aggregation, fields) =>
    if aggregation = countAll then [aggregation.resultName "*"]
    else fields.map aggregation.resultName

/-- The names of what a request for groups or aggregations projects. -/
def Request.resultNames (r : Request) : List String :=
  r.group ++ r.aggregate.flatMap Aggregation.resultNames

/-- A request for aggregations of no field and for no groups. -/
def Request.ProjectsNothing (r : Request) : Prop :=
  r.aggregate ≠ [] ∧ r.group = [] ∧ ∀ entry ∈ r.aggregate, entry.1 ≠ .countAll ∧ entry.2 = []

instance (r : Request) : Decidable r.ProjectsNothing :=
  inferInstanceAs (Decidable (r.aggregate ≠ [] ∧ r.group = [] ∧
    ∀ entry ∈ r.aggregate, entry.1 ≠ .countAll ∧ entry.2 = []))

theorem Aggregation.resultNames_eq_nil {entry : Aggregation × List String} :
    resultNames entry = [] ↔ entry.1 ≠ countAll ∧ entry.2 = [] := by
  obtain ⟨aggregation, fields⟩ := entry
  by_cases hall : aggregation = countAll
  · simp [resultNames, hall]
  · simp [resultNames, hall]

theorem Request.projectsNothing_iff {r : Request} :
    r.ProjectsNothing ↔ r.isSummary = true ∧ r.resultNames = [] := by
  simp only [ProjectsNothing, isSummary, resultNames, List.append_eq_nil_iff,
    List.flatMap_eq_nil_iff, Aggregation.resultNames_eq_nil, Bool.or_eq_true, Bool.not_eq_true',
    List.isEmpty_eq_false_iff]
  constructor
  · rintro ⟨haggregate, hgroup, hentries⟩
    exact ⟨.inl haggregate, hgroup, hentries⟩
  · rintro ⟨hsummary, hgroup, hentries⟩
    exact ⟨hsummary.resolve_right (fun h => h hgroup), hgroup, hentries⟩

/-! ## What aggregations project -/

theorem Aggregation.isAggregate_apply (aggregation : Aggregation) (e : Expr)
    (label : Option String) : Item.isAggregate ⟨aggregation.apply e, label⟩ = true := by
  cases aggregation <;> rfl

namespace Context

variable {c : Context} {info : CollectionInfo} {scope : Scope} {k k' : Nat}

/-- An aggregation of a field, or of whole rows, sums up the rows of a group. -/
theorem isAggregate_of_aggregateExpr {aggregation : Aggregation} {field : String} {e : Expr}
    (label : Option String) (h : (c.aggregateExpr info scope aggregation field).Gives k e k') :
    Item.isAggregate ⟨e, label⟩ = true := by
  unfold aggregateExpr at h
  split at h
  · split at h
    · obtain ⟨rfl, -⟩ := Compile.gives_pure.mp h
      exact (isAggregate_countOf info scope.query label).1
    · exact absurd h Compile.not_gives_throw
  · simp only [Compile.gives_bind, Compile.gives_pure] at h
    obtain ⟨column, k₁, -, rfl, -⟩ := h
    exact aggregation.isAggregate_apply column.expr label

/-- Projections that sum up the rows of a group, under given names. -/
structure Summarize (names : List String) (items : List Item) : Prop where
  labels : items.map Item.label = names.map some
  isAggregate : ∀ item ∈ items, item.isAggregate = true

theorem Summarize.append {names more : List String} {items others : List Item}
    (h : Summarize names items) (hmore : Summarize more others) :
    Summarize (names ++ more) (items ++ others) := by
  refine ⟨?_, fun item hitem => ?_⟩
  · rw [List.map_append, List.map_append, h.labels, hmore.labels]
  · exact (List.mem_append.mp hitem).elim (h.isAggregate item) (hmore.isAggregate item)

/-- An entry of an aggregate projects one result for each of its names. -/
theorem summarize_of_aggregateItems {entry : Aggregation × List String} {items : List Item}
    (h : (c.aggregateItems info scope entry).Gives k items k') :
    Summarize (Aggregation.resultNames entry) items := by
  obtain ⟨aggregation, fields⟩ := entry
  unfold aggregateItems at h
  unfold Aggregation.resultNames
  dsimp only at h ⊢
  split at h
  · next hall =>
    obtain ⟨rfl, -⟩ := Compile.gives_pure.mp h
    rw [if_pos hall]
    refine ⟨rfl, fun item hitem => ?_⟩
    rw [List.mem_singleton.mp hitem]
    rfl
  · next hother =>
    rw [if_neg hother]
    refine Compile.mapM_builds
      (P := fun done results _ => Summarize (done.map aggregation.resultName) results)
      (fun {done results field k item k'} hdone hitem => ?_) ⟨rfl, nofun⟩ h
    simp only [Compile.gives_bind, Compile.gives_pure] at hitem
    obtain ⟨e, k₁, he, rfl, -⟩ := hitem
    rw [List.map_append]
    refine hdone.append ⟨rfl, fun item hitem => ?_⟩
    rw [List.mem_singleton.mp hitem]
    exact isAggregate_of_aggregateExpr _ he

/-- An aggregate projects the results of its entries one after another. -/
theorem summarize_of_aggregate {aggregate : List (Aggregation × List String)}
    {items : List (List Item)}
    (h : (aggregate.mapM (c.aggregateItems info scope)).Gives k items k') :
    Summarize (aggregate.flatMap Aggregation.resultNames) items.flatten := by
  refine Compile.mapM_builds
    (P := fun done results _ => Summarize (done.flatMap Aggregation.resultNames) results.flatten)
    (fun hdone hentry => ?_) ⟨rfl, nofun⟩ h
  rw [List.flatMap_append, List.flatMap_singleton, List.flatten_append, List.flatten_singleton]
  exact hdone.append (summarize_of_aggregateItems hentry)

end Context

/-! ## Compiled statements -/

theorem Compiler.items_target (collection : String) (r : Request) :
    (target collection r).items =
      if r.isSummary then [] else [⟨.allColumns (some collection), none⟩] := by
  unfold target
  dsimp only
  split <;> rfl

/-- A statement projects what it is to start with, then the groups of its request under their keys,
and then its aggregations under their names, each of which sums up a group. -/
theorem Context.items_of_apply {c : Context} {collection : String} {q : Query} {r : Request}
    {applied : Applied} {k k' : Nat} (h : (c.apply collection q r false).Gives k applied k') :
    ∃ grouped summed, applied.query.items = q.items ++ grouped ++ summed ∧
      applied.query.groups = q.groups ++ grouped.map Item.expr ∧
      grouped.map Item.label = r.group.map some ∧
      Summarize (r.aggregate.flatMap Aggregation.resultNames) summed := by
  obtain ⟨info, scope, grouped, items, k₁, k₂, -, hitems, hgrouped, hquery⟩ := grouped_of_apply h
  obtain ⟨window, hwindow⟩ := Query.narrow_eq q (c.options.window r)
  have hbefore := hgrouped.items
  have hgroups := hgrouped.groups
  rw [hwindow] at hbefore hgroups
  rw [hquery, foldl_addItem]
  exact ⟨grouped, items.flatten, by rw [hbefore], hgroups, hgrouped.labels,
    summarize_of_aggregate hitems⟩

/-- Every statement in a compiled statement projects something, and so does the statement itself
unless it is asked for aggregations of no field.  A request without groups and aggregations projects
every column of the collection; any other one its groups and its aggregations, in order and under
their names, and each of these projections sums up a group or is grouped by. -/
theorem projected_of_compile {s : Schema} {options : Options} {letters : Alias.Letters}
    {collection : String} {r : Request} {q : Query}
    (h : (s.compiler options letters).compile collection r = .ok q) :
    (¬r.ProjectsNothing → ∀ select ∈ q.selects, select.items ≠ []) ∧
      (r.ProjectsNothing → q.items = [] ∧ ∀ select ∈ q.selects.tail, select.items ≠ []) ∧
      (r.isSummary = false → q.items = [⟨.allColumns (some collection), none⟩]) ∧
      (r.isSummary = true → q.items.map Item.label = r.resultNames.map some ∧
        ∀ item ∈ q.items, item.isAggregate = true ∨ item.expr ∈ q.groups) := by
  have hparts := (isStatement_of_compile h).projects_parts
  obtain ⟨applied, happlied, rfl⟩ := Compiler.compile_eq_ok h
  obtain ⟨relations, k, -, happly⟩ := Compiler.apply_eq_ok happlied
  obtain ⟨grouped, summed, hitems, hgroups, hlabels, hsummed⟩ := Context.items_of_apply happly
  rw [Compiler.target_groups, List.nil_append] at hgroups
  have hplain (hsummary : r.isSummary = false) :
      applied.query.items = [⟨.allColumns (some collection), none⟩] := by
    simp only [Request.isSummary, Bool.or_eq_false_iff, Bool.not_eq_false',
      List.isEmpty_iff] at hsummary
    obtain ⟨haggregate, hgroup⟩ := hsummary
    have hlabels' := hsummed.labels
    rw [haggregate, List.flatMap_nil, List.map_nil, List.map_eq_nil_iff] at hlabels'
    rw [hgroup, List.map_nil, List.map_eq_nil_iff] at hlabels
    rw [hitems, hlabels, hlabels', Compiler.items_target, Request.isSummary, haggregate, hgroup]
    rfl
  have hresults (hsummary : r.isSummary = true) :
      applied.query.items.map Item.label = r.resultNames.map some := by
    rw [hitems, Compiler.items_target, if_pos hsummary, List.nil_append, List.map_append, hlabels,
      hsummed.labels, Request.resultNames, List.map_append]
  -- the names tell whether there is anything to project before anything is compiled
  have hnothing : applied.query.items = [] ↔ r.ProjectsNothing := by
    rw [Request.projectsNothing_iff]
    cases hsummary : r.isSummary with
    | false =>
      rw [hplain hsummary]
      exact ⟨nofun, nofun⟩
    | true =>
      rw [← List.map_eq_nil_iff (f := Item.label), hresults hsummary, List.map_eq_nil_iff]
      exact ⟨fun hnames => ⟨rfl, hnames⟩, And.right⟩
  refine ⟨fun hsome => Query.projects (mt hnothing.mp hsome) hparts,
    fun hnone => ⟨hnothing.mpr hnone, Query.projects_of_mem_tail hparts⟩, hplain,
    fun hsummary => ⟨hresults hsummary, fun item hitem => ?_⟩⟩
  rw [hitems, Compiler.items_target, if_pos hsummary, List.nil_append, List.mem_append] at hitem
  rcases hitem with hitem | hitem
  · exact .inr (hgroups ▸ List.mem_map_of_mem hitem)
  · exact .inl (hsummed.isAggregate item hitem)

/-- The authors of articles with some comment by Ann, or without an author and with more than one
comment: how many articles they wrote, and how many comments each of these has at most. -/
def Request.perAuthor : Request where
  filter := Request.blog.filter
  group := ["author"]
  aggregate := [(.count, ["*"]), (.max, ["count(comments)"]), (.sum, [])]

theorem projected_of_compile_blog :
    ∃ q, (Schema.blog.compiler {} fun _ => 0).compile "articles" .perAuthor = .ok q ∧
      q.selects.length = 4 ∧ (∀ select ∈ q.selects, select.items ≠ []) ∧
      q.items.map Item.label = [some "author", some "count", some "max->.count(comments)"] ∧
      ∀ item ∈ q.items, item.isAggregate = true ∨ item.expr ∈ q.groups := by
  obtain ⟨q, hq, hcount⟩ : ∃ q, (Schema.blog.compiler {} fun _ => 0).compile "articles" .perAuthor =
      .ok q ∧ q.selects.length = 4 := Compiler.exists_compile_with (by decide +kernel)
  obtain ⟨hall, -, -, hsummary⟩ := projected_of_compile hq
  obtain ⟨hlabels, hlegal⟩ := hsummary rfl
  exact ⟨q, hq, hcount, hall (by decide), hlabels, hlegal⟩

/-- A sum of no field is asked for, and the statement projects nothing. -/
theorem projects_nothing_blog :
    ∃ q, (Schema.blog.compiler {} fun _ => 0).compile "articles" { aggregate := [(.sum, [])] } =
        .ok q ∧
      q ∈ q.selects ∧ q.items = [] := by
  obtain ⟨q, hq, hnone⟩ : ∃ q,
      (Schema.blog.compiler {} fun _ => 0).compile "articles" { aggregate := [(.sum, [])] } =
        .ok q ∧ q.items.length = 0 := Compiler.exists_compile_with (by decide +kernel)
  refine ⟨q, hq, ?_, List.length_eq_zero_iff.mp hnone⟩
  rw [Query.selects_parts]
  exact List.mem_cons_self

end JsonSql
