import JsonSql.Proofs.JoinedTables
import JsonSql.Proofs.RelatedRows
import Mathlib.Algebra.Order.BigOperators.Group.List
import Mathlib.Algebra.Order.Group.Nat

set_option autoImplicit false

/-!
# What filters ask of rows

The truth value of any filter, said without statements, aliases and joins: of one row at each path
from its collection (`Filter.sense?`).  A key that leads on asks of the row at the end of its path,
and a question about related rows is about those for which some rows that fit together meet the
filter below.  On whatever joins a filter is compiled, its condition has this truth value
(`truthOn_condition?_sense`), and in an existential condition it selects the rows that meet it
(`mem_output_selection`).
-/

namespace JsonSql

open JsonSql.Sql

/-! ## Values of segments -/

section

variable {E : Engine} (s : Schema) (db : Database E)

/-- What the values of the last segment of a path are; functions give integers. -/
def Schema.segmentKind (owner segment : String) : ValueKind :=
  match splitFunction segment with
  | (none, field) => s.kindOf owner field
  | (some _, _) => FieldType.integer.valueKind

/-- The value of a function of a field of a row. -/
def functionValue (d : Dialect) (owner : String) (row : Row E) (function field : String) :
    E.Value :=
  let column := Expr.of "" field
  let type := (s.field? owner field).map Field.type
  match FieldFunction.ofName? function with
  | none => none
  | some (.part part) => (type.bind FieldType.dateKind?).bind fun kind =>
    (d.datePart part kind column).value db [] [("", row)]
  | some .count =>
    if type = some .json then (d.jsonArrayLength? column).bind (Expr.value db [] [("", row)])
    else (link s.relations owner field).relation?.map fun r =>
      E.ofCount ((link s.relations owner field).found s db owner row r.collection).length

/-- The value of the last segment of a path on the row of the collection that it belongs to. -/
def segmentValue (d : Dialect) (owner : String) (row : Row E) (segment : String) : E.Value :=
  match splitFunction segment with
  | (none, field) => row field
  | (some function, field) => functionValue s db d owner row function field

/-! ## Related rows -/

/-- Rows at paths that fit together: each is one that a left join puts beside the row at the path
that it continues. -/
def Placed.Fits (collection : String) (rows : Placed E) : Prop :=
  ∀ before segment owner target, s.reached? collection before = some owner →
    (link s.relations owner segment).target? = some target →
    rows (before ++ [segment]) ∈
      (link s.relations owner segment).beside s db owner (rows before) target

/-- Whether a link tells the collection of its rows apart by a discriminator. -/
def Link.isPolymorphic : Link → Bool
  | .oneToAny _ | .manyToAny _ _ => true
  | _ => false

open Classical in
/-- The keys by which the related rows as asked refer to rows of a collection. -/
noncomputable def Link.keysOf (owner : String) (asked : String → Row E → Prop) (link : Link) :
    List E.Value :=
  link.relation?.toList.flatMap fun r => ((db r.collection).filter fun other =>
    RefersToSome owner other link ∧ asked r.collection other).map fun other => other r.field

/-- The truth value of the question whether the key of a row is, or is not, among those by which
the related rows as asked refer to rows of its collection. -/
noncomputable def Quantifier.sense (owner : String) (row : Row E) (link : Link)
    (asked : String → Row E → Prop) (quantifier : Quantifier) : Truth :=
  (E.isAmong (spelledKey link.isPolymorphic (row (s.primaryOf owner)))
    (link.keysOf db owner asked)).negatedIf (quantifier = .none)

/-- Where a filter on related rows is asked: the path of the row, its collection, and the link.  At
the root, the key of several rows counts as it is written; elsewhere the row is that of the join
that is recorded for the parents, where no parents and one empty segment read alike. -/
def Schema.asked? (collection : String) (parents : List String) (key : String) :
    Option (List String × String × Link) :=
  if parents.isEmpty && (link s.relations collection key).isToMany then
    some ([], collection, link s.relations collection key)
  else
    let path := if parents = [] then [""] else parents
    (s.reached? collection path).map fun owner =>
      (path, owner, link s.relations owner (Text.trim key))

/-! ## Filters -/

variable (d : Dialect)

mutual
/-- The truth value of a filter under a path of parents, on rows at the paths of its collection,
unless it restricts nothing. -/
noncomputable def Filter.sense? (collection : String) (parents : List String) (rows : Placed E) :
    Filter → Option Truth
  | ⟨clauses⟩ => Truth.all? (clauseSenses collection parents rows clauses)

/-- The truth values of clauses that restrict anything. -/
noncomputable def clauseSenses (collection : String) (parents : List String) (rows : Placed E) :
    List Clause → List Truth
  | [] => []
  | clause :: rest =>
    (clause.sense? collection parents rows).toList ++ clauseSenses collection parents rows rest

/-- The truth value of a clause; a group of alternatives of which one is empty restricts nothing. -/
noncomputable def Clause.sense? (collection : String) (parents : List String) (rows : Placed E) :
    Clause → Option Truth
  | .all filters => Truth.all? (filterSenses collection parents rows filters)
  | .any filters =>
    if holdsAlways filters then none
    else Truth.any? (filterSenses collection parents rows filters)
  | .field key condition => condition.sense? collection parents rows key

/-- The truth values of filters that restrict anything. -/
noncomputable def filterSenses (collection : String) (parents : List String) (rows : Placed E) :
    List Filter → List Truth
  | [] => []
  | f :: rest =>
    (f.sense? collection parents rows).toList ++ filterSenses collection parents rows rest

/-- The truth value of what is asked of a field. -/
noncomputable def FieldCondition.sense? (collection : String) (parents : List String)
    (rows : Placed E) (key : String) : FieldCondition → Option Truth
  | .compare comparisons =>
    (s.reached? collection parents).bind fun owner =>
      Truth.all? (comparisons.filterMap (Comparison.truth? E d
        (s.segmentKind owner (Text.trim key))
        (segmentValue s db d owner (rows parents) (Text.trim key))))
  | .nested f =>
    if parents.isEmpty && (link s.relations collection key).isToMany then
      (s.asked? collection parents key).map fun (path, owner, along) =>
        Quantifier.some.sense s db owner (rows path) along fun related other =>
          ∃ placed : Placed E, placed [] = other ∧ placed.Fits s db related ∧
            (f.sense? related [] placed).getD .yes = .yes
    else f.sense? collection (parents ++ [Text.trim key]) rows
  | .quantified quantifier f =>
    (s.asked? collection parents key).map fun (path, owner, along) =>
      quantifier.sense s db owner (rows path) along fun related other =>
        ∃ placed : Placed E, placed [] = other ∧ placed.Fits s db related ∧
          (f.sense? related [] placed).getD .yes = .yes
end

/-- A row of a collection is selected by a filter: with some rows at the paths from it that fit
together, the filter holds, or restricts nothing. -/
def Filter.Selects (collection : String) (row : Row E) (f : Filter) : Prop :=
  ∃ placed : Placed E, placed [] = row ∧ placed.Fits s db collection ∧
    (f.sense? s db d collection [] placed).getD .yes = .yes

end

variable {E : Engine} {s : Schema} {db : Database E} {options : Options} {names : Nat → String}
  {collection : String} {declared : Collection} {tables : Tables E} {rows : Placed E}
  {scope : Scope} {hops : Hops} {k k' : Nat}

/-! ## Rows at all paths -/

/-- A row at each path, put there beside the row at the path that it continues. -/
def Placed.grow (root : Row E) (next : List String → Row E → Row E) : Placed E := fun path =>
  (path.foldl (fun reached segment =>
    (reached.1 ++ [segment], next (reached.1 ++ [segment]) reached.2)) ([], root)).2

theorem Placed.grow_concat (root : Row E) (next : List String → Row E → Row E)
    (before : List String) (segment : String) :
    Placed.grow root next (before ++ [segment]) =
      next (before ++ [segment]) (Placed.grow root next before) := by
  have hpath (start : List String × Row E) (path : List String) :
      (path.foldl (fun reached segment =>
        (reached.1 ++ [segment], next (reached.1 ++ [segment]) reached.2)) start).1 =
        start.1 ++ path := by
    induction path generalizing start with
    | nil => exact (List.append_nil _).symm
    | cons segment rest ih => rw [List.foldl_cons, ih, List.append_assoc, List.singleton_append]
  rw [grow, List.foldl_append, List.foldl_cons, List.foldl_nil, hpath]
  rfl

/-- The rows that the joins of a statement put side by side fit together, with further rows at the
paths that are not joined. -/
theorem Scope.Fits.exists_placed
    (hled : scope.hops.Led (s.context options names) collection k)
    (h : scope.Fits s db collection tables) :
    ∃ placed : Placed E, placed [] = rowOf tables collection ∧ placed.Fits s db collection ∧
      Places collection scope.hops tables placed := by
  classical
  let recorded (path : List String) : Option Hop :=
    if IsPath path then scope.hops.get? path else none
  let next (path : List String) (row : Row E) : Row E :=
    (recorded path).elim ((s.besideAt db collection path row).headD (nullRow E))
      fun hop => rowOf tables hop.name
  have hnext {path : List String} {hop : Hop} (hpath : IsPath path)
      (hfound : scope.hops.get? path = some hop) (row : Row E) :
      next path row = rowOf tables hop.name := by
    have hrecorded : recorded path = some hop := (if_pos hpath).trans hfound
    simp only [next, hrecorded, Option.elim_some]
  have hplaces : Places collection scope.hops tables
      (Placed.grow (rowOf tables collection) next) := by
    refine ⟨rfl, fun path hop hne hpath hfound => ?_⟩
    obtain ⟨before, segment, rfl⟩ := (List.eq_nil_or_concat' path).resolve_left hne
    rw [Placed.grow_concat, hnext hpath hfound]
  refine ⟨_, rfl, fun before segment owner target howner htarget => ?_, hplaces⟩
  rw [Placed.grow_concat]
  cases hrecorded : recorded (before ++ [segment]) with
  | some hop =>
    have hpath : IsPath (before ++ [segment]) := by
      by_contra hnone
      exact absurd ((if_neg hnone).symm.trans hrecorded) (by simp)
    have hfound : scope.hops.get? (before ++ [segment]) = some hop :=
      (if_pos hpath).symm.trans hrecorded
    have hbefore : IsPath before := fun s hs => hpath s (List.mem_append_left _ hs)
    obtain ⟨place, hreach, hthere, hrow⟩ := h before segment hop hpath hfound
    obtain rfl : owner = place.collection :=
      Option.some.inj (howner.symm.trans (hled.reached hbefore hreach))
    obtain rfl := Option.some.inj (htarget.symm.trans hthere)
    rw [hnext hpath hfound, ← hplaces.reached hbefore hreach]
    exact hrow
  | none =>
    simp only [next, hrecorded, Option.elim_none]
    rw [besideAt_concat howner htarget]
    obtain ⟨first, rest, hbeside⟩ := List.exists_cons_of_ne_nil
      (Link.beside_ne_nil s db owner (Placed.grow (rowOf tables collection) next before) target
        (link s.relations owner segment))
    rw [hbeside]
    exact List.mem_cons_self

/-- Rows that fit together at the paths of a walk are counted in its tally. -/
theorem le_tally {beside : List String → Row E → List (Row E)} {count : Placed E → Nat}
    {walked : List (List String)}
    (h : ∀ path ∈ walked, rows path ∈ beside path (rows path.dropLast)) :
    count rows ≤ tally beside count walked rows := by
  induction walked with
  | nil => exact Nat.le_refl _
  | cons path rest ih =>
    have hsame : Function.update rows path (rows path) = rows := Function.update_eq_self path rows
    calc count rows
        ≤ tally beside count rest rows := ih fun other hother => h other (List.mem_cons_of_mem _ hother)
      _ = tally beside count rest (Function.update rows path (rows path)) := by rw [hsame]
      _ ≤ tally beside count (path :: rest) rows :=
        List.le_sum_of_mem (List.mem_map_of_mem (h path List.mem_cons_self))

/-- Rows that fit together are put side by side by the joins of a statement. -/
theorem Scope.Joins.exists_tables (h : scope.Joins s db collection)
    (hrows : rows.Fits s db collection) (outer : Tables E) :
    ∃ tables ∈ joinTables db ((collection, rows []) :: outer) scope.query.joins,
      Places collection scope.hops tables rows := by
  classical
  obtain ⟨walked, hwalked⟩ := h.tallies
  let shown (placed : Placed E) : Prop :=
    placed [] = rows [] ∧ ∀ path ∈ walked, placed path = rows path
  have hshown {tables : Tables E} {placed : Placed E}
      (hplaces : Places collection scope.hops tables placed) :
      Places collection scope.hops tables rows ↔ shown placed := by
    constructor
    · intro hrows
      refine ⟨hplaces.root.symm.trans hrows.root, fun path hpath => ?_⟩
      obtain ⟨hne, hsegments⟩ := hwalked.paths path hpath
      obtain ⟨hop, hfound⟩ := Option.isSome_iff_exists.mp
        ((hwalked.recorded path hne hsegments).mpr hpath)
      exact (hplaces.hop path hop hne hsegments hfound).symm.trans
        (hrows.hop path hop hne hsegments hfound)
    · rintro ⟨hroot, hall⟩
      refine ⟨hplaces.root.trans hroot, fun path hop hne hsegments hfound => ?_⟩
      rw [hplaces.hop path hop hne hsegments hfound]
      exact hall path ((hwalked.recorded path hne hsegments).mp (by rw [hfound]; rfl))
  have hsum := hwalked.tallied outer
    (fun tables => if Places collection scope.hops tables rows then 1 else 0)
    (fun placed => if shown placed then 1 else 0) rows
    (fun tables _ placed hplaces => by simp only [hshown hplaces])
  have hcounted : 1 ≤ tally (s.besideAt db collection)
      (fun placed => if shown placed then 1 else 0) walked rows := by
    refine le_trans (le_of_eq ?_) (le_tally fun path hpath => ?_)
    · exact (if_pos ⟨rfl, fun _ _ => rfl⟩).symm
    · obtain ⟨before, segment, rfl⟩ :=
        (List.eq_nil_or_concat' path).resolve_left (hwalked.paths path hpath).1
      obtain ⟨owner, target, howner, htarget, -⟩ := hwalked.linked before segment hpath
      rw [List.dropLast_concat, besideAt_concat howner htarget]
      exact hrows before segment owner target howner htarget
  by_contra hnone
  have hzero : ((joinTables db ((collection, rows []) :: outer) scope.query.joins).map
      fun tables => if Places collection scope.hops tables rows then 1 else 0).sum = 0 := by
    refine List.sum_eq_zero fun n hn => ?_
    obtain ⟨tables, htables, rfl⟩ := List.mem_map.mp hn
    exact if_neg fun hplaces => hnone ⟨tables, htables, hplaces⟩
  rw [hsum] at hzero
  omega

/-! ## Columns -/

/-- A field is read from the row at the path of its parents. -/
theorem Places.placeOf {parents : List String} {shown : String} {place : Place}
    (h : Places collection hops tables rows) (hparents : IsPath parents)
    (hplace : Context.placeOf hops collection parents shown = .ok place) :
    rowOf tables place.table = rows parents := by
  rcases Context.placeOf_eq_ok hplace with ⟨rfl, rfl⟩ | ⟨hne, hop, hfound, rfl⟩
  · exact h.root
  · exact h.hop parents hop hne hparents hfound

/-- No place goes by an alias that is still to be issued. -/
theorem Hops.Led.table_ne {parents : List String} {shown : String} {place : Place}
    (hinjective : Function.Injective names) (hc : s.collection? collection = some declared)
    (havoids : s.AvoidsAliases names k') (hk : k < k')
    (h : hops.Led (s.context options names) collection k)
    (hplace : Context.placeOf hops collection parents shown = .ok place) :
    place.table ≠ names k := by
  rcases Context.placeOf_eq_ok hplace with ⟨-, rfl⟩ | ⟨-, hop, hfound, rfl⟩
  · exact havoids.ne hk hc
  · exact h.name_ne hinjective hfound

/-- Whether a dialect counts items does not depend on what holds them. -/
theorem jsonArrayLength?_of_isSome {d : Dialect} {e length : Expr}
    (h : d.jsonArrayLength? e = some length) (other : Expr) :
    ∃ length', d.jsonArrayLength? other = some length' := by
  cases d <;> cases h <;> exact ⟨_, rfl⟩

/-- A function of a field has the value that it has on the row of the field. -/
theorem value_applyFunction {place : Place} {function path name : String} {field : Field}
    {e : Expr} {row : Row E} (hrow : rowOf tables place.table = row)
    (hfield : s.field? place.collection name = some field)
    (hfresh : k < k' → place.table ≠ names k)
    (h : ((s.context options names).applyFunction place function path name field.type).Gives k
      e k') :
    e.value db [] tables =
      functionValue s db options.dialect place.collection row function name := by
  have hvalue : (Expr.of place.table name).value db [] tables =
      (Expr.of "" name).value db [] [("", row)] := by
    rw [value_of, value_of, rowOf_cons_self, hrow]
  unfold functionValue
  dsimp only
  rw [hfield, Option.map_some]
  rcases Context.applyFunction_cases h with ⟨part, kind, hname, hkind, rfl, -⟩ |
    ⟨hname, hjson, hlength, -⟩ | ⟨hname, hrows, hcount⟩
  · rw [hname, Option.bind_some, hkind]
    exact value_datePart_eq _ part kind hvalue
  · have hlength : options.dialect.jsonArrayLength? (.of place.table name) = some e := hlength
    obtain ⟨length, hother⟩ := jsonArrayLength?_of_isSome hlength (.of "" name)
    rw [hname]
    dsimp only
    rw [if_pos (congrArg some hjson), hother]
    exact value_jsonArrayLength?_eq hlength hother hvalue
  · obtain ⟨-, -, -, -, hissued, -⟩ := Context.countRows?_gives hcount
    obtain ⟨r, hr, hcounted⟩ := value_countRows?_found (hfresh (by omega)) hcount
    have hr : (link s.relations place.collection name).relation? = some r := hr
    rw [hname]
    dsimp only
    rw [if_neg (fun hsome => hrows (Option.some.inj hsome)), hcounted, hrow, hr]
    rfl

/-- The column at the end of a path has the values of its last segment. -/
theorem value_column {parents : List String} {segment : String} {column : Column}
    (hinjective : Function.Injective names) (hparents : IsPath parents)
    (hc : s.collection? collection = some declared) (havoids : s.AvoidsAliases names k')
    (hled : hops.Led (s.context options names) collection k)
    (hplaces : Places collection hops tables rows)
    (h : ((s.context options names).column hops collection (parents ++ [segment])).Gives k
      column k') :
    ∃ owner, s.reached? collection parents = some owner ∧
      column.valueKind = s.segmentKind owner segment ∧
      column.expr.value db [] tables =
        segmentValue s db options.dialect owner (rows parents) segment := by
  obtain ⟨last, place, field, hlast, hplace, hfield, hcases⟩ := Context.column_gives h
  obtain rfl : segment = last := by simpa using hlast
  rw [List.dropLast_concat] at hplace
  have hrow := hplaces.placeOf hparents hplace
  have hfield : s.field? place.collection (splitFunction segment).2 = some field :=
    Except.ok.inj hfield
  refine ⟨place.collection, hled.placeOf hparents hplace, ?_⟩
  unfold Schema.segmentKind segmentValue
  generalize splitFunction segment = parts at hfield hcases ⊢
  obtain ⟨function?, name⟩ := parts
  dsimp only at hfield hcases
  rcases hcases with ⟨rfl, -, -, rfl⟩ | ⟨function, e, rfl, he, rfl⟩
  · dsimp only
    rw [Schema.kindOf, hfield, value_of, hrow]
    exact ⟨rfl, rfl⟩
  · exact ⟨rfl, value_applyFunction hrow hfield
      (fun hk => hled.table_ne hinjective hc havoids hk hplace) he⟩

/-! ## Related rows -/

/-- A filter on related rows is asked from the row that stands at the path. -/
theorem Places.asked? {parents : List String} {key owner table : String} {along : Link}
    (hparents : IsPath parents) (hled : hops.Led (s.context options names) collection k)
    (h : Places collection hops tables rows)
    (hasked : (s.context options names).IsAsked hops collection parents key owner table along) :
    ∃ path, s.asked? collection parents key = some (path, owner, along) ∧
      rowOf tables table = rows path := by
  unfold Schema.asked?
  rcases hasked.place with ⟨hstart, rfl, rfl, rfl⟩ | ⟨hstart, hop, hfound, rfl, rfl, rfl⟩
  · exact ⟨[], if_pos hstart, h.root⟩
  · have hstart : (parents.isEmpty && (link s.relations collection key).isToMany) = false := hstart
    rw [hstart, if_neg Bool.false_ne_true]
    dsimp only
    split
    · next hnone =>
      have hempty : IsPath [""] := by
        intro segment hsegment
        rw [List.mem_singleton.mp hsegment]
        exact List.not_mem_nil
      have hfound : hops.get? [""] = some hop := by
        rw [hnone] at hfound
        exact hfound
      have howner : s.reached? collection [""] = some hop.collection :=
        hled.leads [""] hop (List.cons_ne_nil _ _) hempty hfound
      rw [howner]
      exact ⟨[""], rfl, h.hop [""] hop (List.cons_ne_nil _ _) hempty hfound⟩
    · next hne =>
      have howner : s.reached? collection parents = some hop.collection :=
        hled.leads parents hop hne hparents hfound
      rw [howner]
      exact ⟨parents, rfl, h.hop parents hop hne hparents hfound⟩

/-- A row meets a condition unless the condition, if there is one, has another truth value. -/
theorem meets_iff (e? : Option Expr) :
    meets db tables e? = true ↔ (e?.map (Expr.truthOn db tables)).getD .yes = .yes := by
  cases e? with
  | none => simp [meets]
  | some e => rw [meets_eq_true, Option.map_some, Option.getD_some]

theorem meets_guarded (e? : Option Expr) :
    meets db tables (e?.map Expr.guarded) = meets db tables e? := by
  cases e? with
  | none => rfl
  | some e => rw [Option.map_some, Bool.eq_iff_iff, meets_eq_true, meets_eq_true, truthOn_guarded]

/-- The selection of a filter has the joins and the condition of the filter. -/
theorem Context.selection_eq {c : Context} {f : Filter} {q : Query}
    (h : (c.selection collection f).Gives k q k') :
    ∃ scope several e? k₁, (c.joinFilter true collection []
        { query := selectedRows collection [] none } f).Gives k (scope, several) k₁ ∧
      (c.condition? scope.hops collection [] f).Gives k₁ e? k' ∧
      q = selectedRows collection scope.query.joins (e?.map Expr.guarded) := by
  obtain ⟨⟨scope, several⟩, hadded, rfl⟩ := Compile.gives_map.mp h
  obtain ⟨scope₁, k₁, e?, hjoin, he, -, hquery⟩ := addFilter_gives hadded
  have hsame : scope₁.query = selectedRows collection scope₁.query.joins none :=
    sameButJoins_of_joinFilter hjoin (sameButJoins_refl (selectedRows collection [] none))
  refine ⟨scope₁, several, e?, k₁, hjoin, he, ?_⟩
  dsimp only
  rw [hquery, hsame]
  cases e? <;> rfl

/-- What the condition of a filter on a collection is to be: on tables that stand for rows at paths,
it has the truth value of the filter on these rows. -/
def HasSense (s : Schema) (db : Database E) (options : Options) (names : Nat → String)
    (collection : String) (f : Filter) : Prop :=
  ∀ {hops : Hops} {k k' : Nat} {e? : Option Expr} {tables : Tables E} {rows : Placed E},
    s.AvoidsAliases names k' → hops.Led (s.context options names) collection k →
    Places collection hops tables rows →
    ((s.context options names).condition? hops collection [] f).Gives k e? k' →
    e?.map (Expr.truthOn db tables) = f.sense? s db options.dialect collection [] rows

/-- In an existential condition, a filter selects the rows that meet it. -/
theorem mem_output_selection {f : Filter} {q : Query} (hinjective : Function.Injective names)
    (hc : s.collection? collection = some declared) (hf : f.IsUnfolded)
    (havoids : s.AvoidsAliases names k') (hsense : HasSense s db options names collection f)
    (h : ((s.context options names).selection collection f).Gives k q k') (row : Row E) :
    [Cell.row row] ∈ q.output db [] ↔
      row ∈ db collection ∧ f.Selects s db options.dialect collection row := by
  obtain ⟨scope, several, e?, k₁, hjoin, he, rfl⟩ := Context.selection_eq h
  have hk := Context.grows_condition? _ _ _ _ he
  have hstart : Scope.Joins s db collection { query := selectedRows collection [] none } :=
    .ofNil rfl
  have hjoins := hstart.joinFilter hinjective hc (havoids.mono hk) hf (.empty k) hjoin
  have hled : scope.hops.Led (s.context options names) collection k₁ :=
    (Hops.Led.empty k).joinFilter hf hjoin
  have hmeets {tables : Tables E} {rows : Placed E}
      (hplaces : Places collection scope.hops tables rows) :
      meets db tables (e?.map Expr.guarded) = true ↔
        (f.sense? s db options.dialect collection [] rows).getD .yes = .yes := by
    rw [meets_guarded, meets_iff, hsense havoids hled hplaces he]
  have hall : Scope.Joins s db collection
      ⟨selectedRows collection scope.query.joins (e?.map Expr.guarded), scope.hops⟩ :=
    hjoins.congr rfl rfl
  have hcell : (∃ other ∈ (selectedRows collection scope.query.joins
      (e?.map Expr.guarded)).selected db collection, [Cell.row row] = [Cell.row other]) ↔
      row ∈ (selectedRows collection scope.query.joins
        (e?.map Expr.guarded)).selected db collection := by
    simp
  rw [mem_output_iff_selected hall rfl rfl rfl, hcell, Query.mem_selected]
  refine and_congr_right fun _ => ⟨?_, ?_⟩
  · rintro ⟨tables, htables, htrue⟩
    obtain ⟨hroot, hfits⟩ := hjoins.fits [] row tables htables
    obtain ⟨placed, hrow, hplaced, hplaces⟩ := hfits.exists_placed hled
    exact ⟨placed, hrow.trans hroot, hplaced, (hmeets hplaces).mp htrue⟩
  · rintro ⟨placed, rfl, hplaced, htrue⟩
    obtain ⟨tables, htables, hplaces⟩ := hjoins.exists_tables hplaced []
    exact ⟨tables, htables, (hmeets hplaces).mpr htrue⟩

/-- A value is among values whatever their order and number. -/
theorem Sql.Engine.isAmong_congr {v : E.Value} {values values' : List E.Value}
    (h : ∀ w, w ∈ values ↔ w ∈ values') : E.isAmong v values = E.isAmong v values' := by
  have hyes : E.isAmong v values = .yes ↔ E.isAmong v values' = .yes := by
    simp only [Engine.isAmong_eq_yes, h]
  have hno : E.isAmong v values = .no ↔ E.isAmong v values' = .no := by
    simp only [Engine.isAmong_eq_no, h]
  cases hleft : E.isAmong v values <;> cases hright : E.isAmong v values' <;> simp_all

theorem Link.mem_keysOf {owner : String} {asked : String → Row E → Prop} {along : Link}
    {r : Relation} (hr : along.relation? = some r) (v : E.Value) :
    v ∈ along.keysOf db owner asked ↔ ∃ other ∈ db r.collection,
      RefersToSome owner other along ∧ asked r.collection other ∧ v = other r.field := by
  rw [keysOf, hr, Option.toList_some, List.flatMap_singleton]
  simp only [List.mem_map, List.mem_filter, decide_eq_true_eq]
  constructor
  · rintro ⟨other, ⟨hother, hrefers, hasked⟩, rfl⟩
    exact ⟨other, hother, hrefers, hasked, rfl⟩
  · rintro ⟨other, hother, hrefers, hasked, rfl⟩
    exact ⟨other, ⟨hother, hrefers, hasked⟩, rfl⟩

/-- An existential condition asks for the keys of the related rows that the filter selects. -/
theorem truthOn_existential_sense {owner table : String} {along : Link} {quantifier : Quantifier}
    {f : Filter} {e : Expr} (hinjective : Function.Injective names) (hf : f.IsUnfolded)
    (havoids : s.AvoidsAliases names k')
    (hsense : ∀ related declared, s.collection? related = some declared →
      HasSense s db options names related f)
    (h : ((s.context options names).existential owner table along quantifier f
      fun related hops => (s.context options names).condition? hops related [] f).Gives k e k') :
    e.truthOn db tables = quantifier.sense s db owner (rowOf tables table) along
      fun related other => f.Selects s db options.dialect related other := by
  obtain ⟨r, polymorphic, known, q, hreferring, ⟨related, hrelated⟩, hq, hcompares⟩ :=
    existential_compares h
  obtain ⟨values, htruth, hvalues⟩ :=
    hcompares (fun i _ hi => (havoids.ne hi hrelated).symm) db tables
  have hselected := mem_output_selection hinjective hrelated hf havoids
    (hsense r.collection related hrelated) hq
  have hpolymorphic : along.isPolymorphic = polymorphic := by cases hreferring <;> rfl
  have hsame : ∀ v, v ∈ values ↔ v ∈ along.keysOf db owner
      fun related other => f.Selects s db options.dialect related other := by
    intro v
    rw [hvalues, Link.mem_keysOf hreferring.relation?_eq]
    refine exists_congr fun other => and_congr_right fun hother => and_congr_right fun _ => ?_
    rw [hselected other, and_iff_right hother]
  rw [htruth, Quantifier.sense, hpolymorphic, Engine.isAmong_congr hsame]

/-! ## Conditions -/

theorem truthOn_toList (e? : Option Expr) :
    e?.toList.map (Expr.truthOn db tables) = (e?.map (Expr.truthOn db tables)).toList := by
  cases e? <;> rfl

mutual
/-- On tables that stand for rows at paths, the condition of a filter has the truth value of the
filter on these rows, whatever else is joined. -/
theorem truthOn_condition?_sense {collection : String} {declared : Collection} {hops : Hops}
    {k k' : Nat} {e? : Option Expr} {tables : Tables E} {rows : Placed E}
    (hinjective : Function.Injective names) (parents : List String) (hparents : IsPath parents)
    (f : Filter) (hf : f.IsUnfolded) (hc : s.collection? collection = some declared)
    (havoids : s.AvoidsAliases names k') (hled : hops.Led (s.context options names) collection k)
    (hplaces : Places collection hops tables rows)
    (h : ((s.context options names).condition? hops collection parents f).Gives k e? k') :
    e?.map (Expr.truthOn db tables) =
      f.sense? s db options.dialect collection parents rows := by
  obtain ⟨clauses⟩ := f
  rw [Filter.IsUnfolded] at hf
  rw [Context.condition?, Compile.gives_map] at h
  obtain ⟨parts, hparts, rfl⟩ := h
  rw [truthOn_conjunction?, Filter.sense?, truthOn_clauseConditions_sense hinjective parents
    hparents clauses hf hc havoids hled hplaces hparts]

theorem truthOn_clauseConditions_sense {collection : String} {declared : Collection} {hops : Hops}
    {k k' : Nat} {parts : List Expr} {tables : Tables E} {rows : Placed E}
    (hinjective : Function.Injective names) (parents : List String) (hparents : IsPath parents)
    (clauses : List Clause) (hf : AreUnfoldedClauses clauses)
    (hc : s.collection? collection = some declared) (havoids : s.AvoidsAliases names k')
    (hled : hops.Led (s.context options names) collection k)
    (hplaces : Places collection hops tables rows)
    (h : ((s.context options names).clauseConditions hops collection parents clauses).Gives k
      parts k') :
    parts.map (Expr.truthOn db tables) =
      clauseSenses s db options.dialect collection parents rows clauses := by
  cases clauses with
  | nil =>
    rw [Context.clauseConditions, Compile.gives_pure] at h
    rw [h.1, clauseSenses, List.map_nil]
  | cons clause rest =>
    rw [AreUnfoldedClauses] at hf
    simp only [Context.clauseConditions, Compile.gives_bind, Compile.gives_pure] at h
    obtain ⟨part, k₁, hpart, others, k₂, hrest, rfl, rfl⟩ := h
    have hk := Context.grows_clauseCondition? _ _ _ _ hpart
    have hk' := Context.grows_clauseConditions _ _ _ _ hrest
    rw [List.map_append, clauseSenses, truthOn_toList,
      truthOn_clauseCondition?_sense hinjective parents hparents clause hf.1 hc (havoids.mono hk')
        hled hplaces hpart,
      truthOn_clauseConditions_sense hinjective parents hparents rest hf.2 hc havoids
        (hled.mono hk) hplaces hrest]

theorem truthOn_clauseCondition?_sense {collection : String} {declared : Collection} {hops : Hops}
    {k k' : Nat} {e? : Option Expr} {tables : Tables E} {rows : Placed E}
    (hinjective : Function.Injective names) (parents : List String) (hparents : IsPath parents)
    (clause : Clause) (hf : clause.IsUnfolded) (hc : s.collection? collection = some declared)
    (havoids : s.AvoidsAliases names k') (hled : hops.Led (s.context options names) collection k)
    (hplaces : Places collection hops tables rows)
    (h : ((s.context options names).clauseCondition? hops collection parents clause).Gives k
      e? k') :
    e?.map (Expr.truthOn db tables) =
      clause.sense? s db options.dialect collection parents rows := by
  cases clause with
  | all filters =>
    rw [Clause.IsUnfolded] at hf
    rw [Context.clauseCondition?, Compile.gives_map] at h
    obtain ⟨parts, hparts, rfl⟩ := h
    rw [truthOn_conjunction?, Clause.sense?, truthOn_groupConditions_sense hinjective parents
      hparents filters hf hc havoids hled hplaces hparts]
  | any filters =>
    rw [Clause.IsUnfolded] at hf
    rw [Context.clauseCondition?] at h
    rw [Clause.sense?]
    split at h
    · next hempty =>
      rw [(Compile.gives_pure.mp h).1, if_pos hempty, Option.map_none]
    · next hrestricts =>
      rw [Compile.gives_map] at h
      obtain ⟨parts, hparts, rfl⟩ := h
      rw [truthOn_disjunction?, if_neg hrestricts, truthOn_groupConditions_sense hinjective parents
        hparents filters hf hc havoids hled hplaces hparts]
  | field key condition =>
    rw [Clause.IsUnfolded] at hf
    rw [Context.clauseCondition?] at h
    rw [Clause.sense?]
    exact truthOn_fieldCondition?_sense hinjective parents hparents key hf.1 condition hf.2 hc
      havoids hled hplaces h

theorem truthOn_groupConditions_sense {collection : String} {declared : Collection} {hops : Hops}
    {k k' : Nat} {parts : List Expr} {tables : Tables E} {rows : Placed E}
    (hinjective : Function.Injective names) (parents : List String) (hparents : IsPath parents)
    (filters : List Filter) (hf : AreUnfolded filters)
    (hc : s.collection? collection = some declared) (havoids : s.AvoidsAliases names k')
    (hled : hops.Led (s.context options names) collection k)
    (hplaces : Places collection hops tables rows)
    (h : ((s.context options names).groupConditions hops collection parents filters).Gives k
      parts k') :
    parts.map (Expr.truthOn db tables) =
      filterSenses s db options.dialect collection parents rows filters := by
  cases filters with
  | nil =>
    rw [Context.groupConditions, Compile.gives_pure] at h
    rw [h.1, filterSenses, List.map_nil]
  | cons f rest =>
    rw [AreUnfolded] at hf
    simp only [Context.groupConditions, Compile.gives_bind, Compile.gives_pure] at h
    obtain ⟨part, k₁, hpart, others, k₂, hrest, rfl, rfl⟩ := h
    have hk := Context.grows_condition? _ _ _ _ hpart
    have hk' := Context.grows_groupConditions _ _ _ _ hrest
    have hparen : (part.map Expr.paren).map (Expr.truthOn db tables) =
        part.map (Expr.truthOn db tables) := by
      cases part <;> simp
    rw [List.map_append, filterSenses, truthOn_toList, hparen,
      truthOn_condition?_sense hinjective parents hparents f hf.1 hc (havoids.mono hk') hled
        hplaces hpart,
      truthOn_groupConditions_sense hinjective parents hparents rest hf.2 hc havoids
        (hled.mono hk) hplaces hrest]

theorem truthOn_fieldCondition?_sense {collection : String} {declared : Collection} {hops : Hops}
    {k k' : Nat} {e? : Option Expr} {tables : Tables E} {rows : Placed E}
    (hinjective : Function.Injective names) (parents : List String) (hparents : IsPath parents)
    (key : String) (hkey : IsSegment key) (condition : FieldCondition) (hf : condition.IsUnfolded)
    (hc : s.collection? collection = some declared) (havoids : s.AvoidsAliases names k')
    (hled : hops.Led (s.context options names) collection k)
    (hplaces : Places collection hops tables rows)
    (h : ((s.context options names).fieldCondition? hops collection parents key condition).Gives k
      e? k') :
    e?.map (Expr.truthOn db tables) =
      condition.sense? s db options.dialect collection parents rows key := by
  cases condition with
  | compare comparisons =>
    obtain ⟨column, hcolumn, hall⟩ := Context.compared_gives h
    obtain ⟨owner, howner, hkind, hvalue⟩ := value_column hinjective hparents hc havoids hled hplaces
      hcolumn
    rw [Context.truthOn_compareAll? hall, hkind, hvalue, FieldCondition.sense?, howner]
    rfl
  | nested f =>
    rw [FieldCondition.IsUnfolded] at hf
    have hsense : ∀ related declared, s.collection? related = some declared →
        HasSense s db options names related f :=
      fun related declared hrelated _ _ _ _ _ _ havoids hled hplaces h =>
        truthOn_condition?_sense hinjective [] isPath_nil f hf hrelated havoids hled hplaces h
    rw [Context.fieldCondition?] at h
    rw [FieldCondition.sense?]
    split at h
    · next hstart =>
      obtain ⟨e, he, rfl⟩ := Compile.gives_map.mp h
      have hstart : (parents.isEmpty && (link s.relations collection key).isToMany) = true := hstart
      rw [if_pos hstart, Schema.asked?, if_pos hstart, Option.map_some, Option.map_some,
        truthOn_existential_sense hinjective hf havoids hsense he, hplaces.root]
      rfl
    · next hstart =>
      have hstart : ¬(parents.isEmpty && (link s.relations collection key).isToMany) = true :=
        hstart
      rw [if_neg hstart]
      exact truthOn_condition?_sense hinjective (parents ++ [Text.trim key])
        (hparents.append hkey.trim) f hf hc havoids hled hplaces h
  | quantified quantifier f =>
    rw [FieldCondition.IsUnfolded] at hf
    have hsense : ∀ related declared, s.collection? related = some declared →
        HasSense s db options names related f :=
      fun related declared hrelated _ _ _ _ _ _ havoids hled hplaces h =>
        truthOn_condition?_sense hinjective [] isPath_nil f hf hrelated havoids hled hplaces h
    obtain ⟨owner, table, along, e, rfl, hasked, he⟩ := Context.quantified_gives h
    obtain ⟨path, hpath, hrow⟩ := hplaces.asked? hparents hled hasked
    rw [FieldCondition.sense?, hpath, Option.map_some, Option.map_some,
      truthOn_existential_sense hinjective hf havoids hsense he, hrow]
    rfl
end

end JsonSql
