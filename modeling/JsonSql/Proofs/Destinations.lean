import JsonSql.Proofs.Provenance

set_option autoImplicit false

/-!
# Where the tables of a statement lead

Every `SELECT` of a compiled statement, at any depth, reads a collection that a path reaches through
the schema, and joins for each prefix of the paths that are walked there a table that stands for the
collection which the prefix reaches (`Context.Charts`).
-/

namespace JsonSql

open JsonSql.Calendar
open JsonSql.Sql

/-! ## SELECTs in shapes -/

section Shapes

variable {column e : Expr}

theorem selects_countRows : Expr.countRows.selects = [] := by
  simp [Expr.countRows, Expr.count, Expr.apply, Expr.selects, exprsSelects]

/-- What is made of a field holds no statement. -/
theorem IsFunctionOf.selects {table name : String} (h : IsFunctionOf (.of table name) e) :
    e.selects = [] := by
  cases h with
  | itself => exact selects_of table name
  | part d part kind => exact selects_datePart d part kind table name
  | length he => exact selects_jsonArrayLength? he

/-- What a column stands in holds the statements of the column. -/
theorem IsReading.selects (h : IsReading column e) : e.selects = column.selects := by
  cases h with
  | itself => rfl
  | predicate hpredicate => exact hpredicate.selects
  | aggregation a =>
    cases a <;> simp [Aggregation.apply, Expr.count, Expr.countDistinct, Expr.apply, Expr.selects,
      exprsSelects]

theorem Counts.selects {owner table primary name : String} {link : Link} {r : Relation}
    (h : Counts owner table primary name link r e) : e.selects = [] := by
  cases h with
  | plain => rw [selects_equals, selects_of, selects_of, List.append_nil]
  | polymorphic => rw [selects_refersTo, selects_of]

/-- The number of rows that meet a condition is one statement, if the condition holds none. -/
theorem selects_counted {table : TableRef} (h : e.selects = []) :
    (Expr.subquery {
      items := [⟨.countRows, none⟩]
      source := some table
      condition := some e }).selects =
      [{ items := [⟨.countRows, none⟩], source := some table, condition := some e }] := by
  simp [Expr.selects, Query.selects, itemsSelects, Item.selects, joinsSelects, conditionSelects,
    exprsSelects, ordersSelects, selects_countRows, h]

end Shapes

/-! ## Tables for prefixes -/

namespace Context

variable {c : Context} {collection : String}

/-- A table goes by an alias and stands for the collection that a path reaches. -/
def StandsFor (c : Context) (root : String) (path : List String) (table : TableRef) : Prop :=
  table.label.isSome ∧ c.reach? root path = some table.table

/-- The path to related rows that a filter asks about.  At the root the key counts as it is written;
elsewhere it starts from the join that is recorded under the text of the path, where no path and an
empty segment read alike. -/
def askedPath (c : Context) (collection : String) (parents : List String) (key : String) :
    List String :=
  if c.startsExistential collection parents key then [key]
  else (if parents = [] then [""] else parents) ++ [Text.trim key]

/-- The tables of a `SELECT` in a statement on a collection that walks paths and asks leaves.  The
statement itself joins the prefixes of the paths, one table for each; a count reads the rows that
the field in its parentheses leads to; and the statement of related rows reads those that are asked
about. -/
inductive Charts (c : Context) : Bool → String → List (List String) → List Leaf → Query → Prop
  | itself {inner : Bool} {collection : String} {paths : List (List String)} {leaves : List Leaf}
      {select : Query} {walked : List (List String)} :
      select.source = some ⟨collection, none⟩ → walked.Nodup →
      (∀ before, before ∈ walked ↔ c.JoinsPrefix inner collection paths before) →
      List.Forall₂ (fun before join => c.StandsFor collection before join.target) walked
        select.joins →
      Charts c inner collection paths leaves select
  | counted {inner : Bool} {collection function field : String} {paths : List (List String)}
      {leaves : List Leaf} {before : List String} {last : String} {select : Query}
      {table : TableRef} :
      before ++ [last] ∈ paths → splitFunction last = (some function, field) →
      select.source = some table → select.joins = [] →
      c.StandsFor collection (before ++ [field]) table →
      Charts c inner collection paths leaves select
  | inside {inner : Bool} {collection key related : String} {paths : List (List String)}
      {leaves : List Leaf} {parents : List String} {quantifier : Quantifier} {f : Filter}
      {select : Query} :
      .related parents key quantifier f ∈ leaves →
      c.reach? collection (c.askedPath collection parents key) = some related →
      Charts c true related (c.filterPaths related [] f) (c.leaves related [] f) select →
      Charts c inner collection paths leaves select

/-- A statement whose joins match the prefixes of its paths, with a record of where they lead. -/
theorem charts_of_joinsAlong {inner : Bool} {paths : List (List String)} {leaves : List Leaf}
    {scope : Scope} (hsource : scope.query.source = some ⟨collection, none⟩)
    (hjoins : c.JoinsAlong inner collection paths scope)
    (hcharted : scope.hops.Charted c collection) :
    c.Charts inner collection paths leaves scope.query := by
  obtain ⟨walked, hmatches⟩ := hjoins
  refine .itself hsource hmatches.distinct hmatches.complete ?_
  have htables : List.Forall₂ (c.StandsFor collection) (walked.map Prod.fst)
      (scope.query.joins.map Join.target) := by
    rw [hmatches.joined, List.forall₂_map_left_iff, List.forall₂_map_right_iff, List.forall₂_same]
    intro entry hentry
    have hprefix := (hmatches.complete entry.1).mp (List.mem_map_of_mem hentry)
    exact ⟨rfl, hcharted.reached entry.1 entry.2 (hmatches.ne_nil hentry)
      (hmatches.paths entry.1 hprefix) (hmatches.get?_of_mem hentry)⟩
  exact List.forall₂_map_right_iff.mp htables

/-- The rows that a filter asks about are those that its path reaches. -/
theorem reach?_of_isAsked {hops : Hops} {parents : List String} {key owner table target : String}
    {link : Link} (hcharted : hops.Charted c collection) (hparents : IsPath parents)
    (hasked : c.IsAsked hops collection parents key owner table link)
    (hlink : link.admitted? = some target) :
    c.reach? collection (c.askedPath collection parents key) = some target := by
  unfold askedPath
  rcases hasked.place with ⟨hstart, -, -, hled⟩ | ⟨hstart, hop, hfound, -, -, hled⟩
  · rw [hled] at hlink
    rw [if_pos hstart, ← List.nil_append [key], reach?_concat]
    exact hlink
  · rw [if_neg (Bool.eq_false_iff.mp hstart), reach?_concat]
    have hreached : c.reach? collection (if parents = [] then [""] else parents) =
        some hop.collection := by
      split
      · next hnone =>
        have hempty : IsPath [""] := by
          intro segment hsegment
          rw [List.mem_singleton.mp hsegment]
          exact List.not_mem_nil
        rw [hnone] at hfound
        exact hcharted.reached [""] hop (List.cons_ne_nil _ _) hempty hfound
      · next hne => exact hcharted.reached parents hop hne hparents hfound
    rw [hled] at hlink
    rw [hreached, Option.bind_some]
    exact hlink

/-- The statements in what is made of paths and leaves are charted. -/
theorem charts_of_makes {inner : Bool} {paths : List (List String)} {leaves : List Leaf}
    {hops : Hops} {e : Expr} (hcharted : hops.Charted c collection)
    (h : c.Makes collection paths leaves hops e) :
    ∀ select ∈ e.selects, c.Charts inner collection paths leaves select := by
  induction h generalizing inner with
  | rows =>
    rw [selects_countRows]
    exact fun _ hnone => (by cases hnone)
  | keys hinfo =>
    intro select hselect
    simp [Expr.countDistinct, Expr.of, Expr.selects, exprsSelects] at hselect
  | never =>
    intro select hselect
    simp [Expr.equals, Expr.int, Expr.selects] at hselect
  | searched hfields hf hpredicate =>
    rw [hpredicate.selects, selects_of]
    exact fun _ hnone => (by cases hnone)
  | @column collection paths leaves hops path column e hmem hpath hresolves hreading =>
    intro select hselect
    rw [hreading.selects] at hselect
    cases hresolves with
    | field hplace hf hfunction =>
      rw [hfunction.selects] at hselect
      cases hselect
    | @count before last function primary name place f r condition info hplace hfunction hf hinfo
        hprimary hcounts =>
      rw [selects_counted hcounts.selects, List.mem_singleton] at hselect
      have hbefore : IsPath before := fun s hs => hpath s (List.mem_append_left _ hs)
      rw [hselect]
      refine .counted hmem (Prod.ext hfunction rfl) rfl rfl ⟨rfl, ?_⟩
      rw [reach?_concat, hcharted.reach? hbefore hplace, Option.bind_some]
      exact hcounts.admitted?
  | joined hmem halong hplace hfound hjoined =>
    rw [(isLink_of_joinTarget hjoined).selects]
    exact fun _ hnone => (by cases hnone)
  | @related collection paths leaves hops parents key owner table primary quantifier f link r
      polymorphic known scope e? info hleaf hparents hf hasked hreferring hknown hinfo hprimary
      hjoins hinner hends hparts ih =>
    intro select hselect
    have hsubject : (if polymorphic then (Expr.of table primary).cast .text
        else .of table primary).selects = [] := by
      cases polymorphic <;> simp [Expr.of, Expr.selects]
    rw [Expr.selects, hsubject, List.nil_append, Query.selects_parts, List.mem_cons,
      List.mem_flatMap] at hselect
    refine .inside hleaf (reach?_of_isAsked hcharted hparents hasked
      hreferring.admitted?) ?_
    rcases hselect with rfl | ⟨part, hpart, hselect⟩
    · have hjoined : c.JoinsAlong true r.collection (c.filterPaths r.collection [] f)
          ⟨r.keysWith scope.query.joins (known.and? e?), scope.hops⟩ := hjoins
      exact charts_of_joinsAlong rfl hjoined hinner
    · by_cases hold : part ∈ (r.keysWith [] known).parts
      · -- the condition that the key is known holds no statement
        have hnone : part.selects = [] := by
          rcases hreferring.parts hold with rfl | hpredicate | ⟨column, -, hpredicate⟩
          · exact selects_of _ _
          · rw [hpredicate.selects, selects_of]
          · rw [hpredicate.selects, selects_of]
        rw [hnone] at hselect
        cases hselect
      · exact ih part hpart hold hinner select hselect

end Context

end JsonSql
